import TypedJson.Proofs.Decode.Keeping
import TypedJson.Proofs.Value.Resolving

/-!
# Steps that mirror each other

An eager and a lazy decoder find the same at different times, so that their results are related and
not equal. If the eager step fails, the lazy step may succeed; then its result holds what fails, and
is related to no result of an eager step.

That nothing which fails gets lost between two lazy steps does not hold everywhere: an entry that
fails may be replaced by another one under its key. So it is shown under a condition, `back`, which
says that the lazy decoder loses nothing.
-/

namespace TypedJson

/-- The ends of two steps: both succeed with related results, or the first one fails, and going back
from a result of the second one leads nowhere. -/
inductive MirrorFrom {α β : Type} (back : Prop) (R : α → β → Prop) (x : Decode α) (y : Decode β)
    (s t : DecodeState) : Prop
  | alike {a : α} {b : β} {s' t' : DecodeState} (hx : x s = .ok a s') (hy : y t = .ok b t')
    (h : R a b)
  | broken {failure : Failure} {s' : DecodeState} (hx : x s = .error failure s')
    (hy : back → ∀ a b t', y t = .ok b t' → ¬ R a b)

/-- The step fails from some state of a strict decoder. -/
def Decode.Fails {α : Type} (x : Decode α) : Prop :=
  ∃ state failure state', state.IsStrict ∧ x state = .error failure state'

/-- The steps mirror each other from all states of strict decoders. -/
def Mirrors {α β : Type} (back : Prop) (R : α → β → Prop) (x : Decode α) (y : Decode β) : Prop :=
  ∀ s t, s.IsStrict → t.IsStrict → MirrorFrom back R x y s t

namespace Mirrors

open Decode (Fails Keeps Returns)

variable {back : Prop} {α β γ δ : Type} {R : α → β → Prop} {S : γ → δ → Prop} {x x' : Decode α}
  {y y' : Decode β} {f : α → Decode γ} {g : β → Decode δ}

theorem pure {a : α} {b : β} (h : R a b) : Mirrors back R (pure a) (pure b) :=
  fun _ _ _ _ ↦ .alike rfl rfl h

theorem throw (failure failure' : Failure) : Mirrors back R (throw failure) (throw failure') :=
  fun _ _ _ _ ↦ .broken rfl fun _ _ _ _ h ↦ nomatch h

/-- Only strict decoders count. -/
theorem congr (h : Mirrors back R x y) (hx : ∀ s, s.IsStrict → x' s = x s)
    (hy : ∀ t, t.IsStrict → y' t = y t) : Mirrors back R x' y' := by
  intro s t hs ht
  cases h s t hs ht with
  | alike hrun hrun' h => exact .alike ((hx s hs).trans hrun) ((hy t ht).trans hrun') h
  | broken hrun hback =>
    exact .broken ((hx s hs).trans hrun)
      fun hb a b t' hrun' ↦ hback hb a b t' ((hy t ht).symm.trans hrun')

/-- Going back from the end of two steps leads to the end of the first. -/
theorem bind_of_returns {P : β → Prop} (h : Mirrors back R x y) (hx : Keeps DecodeState.IsStrict x)
    (hy : Keeps DecodeState.IsStrict y) (hP : Returns P y)
    (hfg : ∀ a b, R a b → P b → Mirrors back S (f a) (g b))
    (hS : back → Fails x → ∀ b, P b → Returns (fun d ↦ ∀ c, S c d → ∃ a, R a b) (g b)) :
    Mirrors back S (x >>= f) (y >>= g) := by
  intro s t hs ht
  cases h s t hs ht with
  | @alike a b s' t' hrun hrun' hab =>
    cases hfg a b hab (hP _ _ _ hrun') s' t' (hx.of_ok hs hrun) (hy.of_ok ht hrun') with
    | alike hf hg hcd =>
      exact .alike ((Decode.bind_of_ok hrun).trans hf) ((Decode.bind_of_ok hrun').trans hg) hcd
    | broken hf hback =>
      exact .broken ((Decode.bind_of_ok hrun).trans hf)
        fun hb c d u hg ↦ hback hb c d u ((Decode.bind_of_ok hrun').symm.trans hg)
  | broken hrun hback =>
    refine .broken (Decode.bind_of_error hrun) fun hb c d u hg hcd ↦ ?_
    cases hrun' : y t with
    | error failure t' => exact nomatch (Decode.bind_of_error hrun').symm.trans hg
    | ok b t' =>
      obtain ⟨a, hab⟩ := hS hb ⟨s, _, _, hs, hrun⟩ b (hP _ _ _ hrun') _ _ _
        ((Decode.bind_of_ok hrun').symm.trans hg) c hcd
      exact hback hb a b t' hrun' hab

theorem bind (h : Mirrors back R x y) (hx : Keeps DecodeState.IsStrict x)
    (hy : Keeps DecodeState.IsStrict y) (hfg : ∀ a b, R a b → Mirrors back S (f a) (g b))
    (hS : back → ∀ b, Returns (fun d ↦ ∀ c, S c d → ∃ a, R a b) (g b)) :
    Mirrors back S (x >>= f) (y >>= g) :=
  h.bind_of_returns hx hy (P := fun _ ↦ True) (fun _ _ _ _ ↦ trivial) (fun a b hab _ ↦ hfg a b hab)
    fun hb _ b _ ↦ hS hb b

/-- After a step that both decoders do alike, what it returns is known. -/
theorem bind_same {P : α → Prop} {g : α → Decode δ}
    (h : Keeps DecodeState.IsStrict x ∧ Mirrors back Eq x x) (hP : Returns P x)
    (hfg : ∀ a, P a → Mirrors back S (f a) (g a)) : Mirrors back S (x >>= f) (x >>= g) := by
  refine h.2.bind_of_returns h.1 h.1 hP ?_ fun _ _ b _ _ _ _ _ _ _ ↦ ⟨b, rfl⟩
  rintro a _ rfl ha
  exact hfg a ha

theorem locate (h : Mirrors back R x y) (place : Place) :
    Mirrors back R (Decode.locate place x) (Decode.locate place y) := by
  intro s t hs ht
  cases h s t hs ht with
  | alike hrun hrun' hab =>
    exact .alike (Decode.locate_of_ok hrun) (Decode.locate_of_ok hrun') hab
  | broken hrun hback =>
    refine .broken (Decode.locate_of_error hrun) fun hb a b t' hlocate ↦ ?_
    cases hrun' : y t with
    | error failure _ => exact nomatch (Decode.locate_of_error hrun').symm.trans hlocate
    | ok b' _ =>
      obtain ⟨rfl, rfl⟩ := EStateM.Result.ok.inj ((Decode.locate_of_ok hrun').symm.trans hlocate)
      exact hback hb a b' _ hrun'

/-- Putting a step off does not fail: what fails is in the result. -/
theorem later (h : Mirrors back R x y) :
    Mirrors back (fun a p ↦ ∃ b, p.2 = .ok b ∧ R a b) x (Decode.later y) := by
  intro s t hs ht
  cases h s { t with cost := 0, collector := .strict } hs ⟨rfl, ht.shapes⟩ with
  | alike hrun hrun' hab => exact .alike hrun (Decode.later_of_ok hrun') ⟨_, rfl, hab⟩
  | broken hrun hback =>
    refine .broken hrun fun hb a p t' hlater hp ↦ ?_
    obtain ⟨b, hb', hab⟩ := hp
    cases hrun' : y { t with cost := 0, collector := .strict } with
    | error failure _ =>
      obtain ⟨rfl, -⟩ := EStateM.Result.ok.inj ((Decode.later_of_error hrun').symm.trans hlater)
      cases hb'
    | ok b' _ =>
      obtain ⟨rfl, -⟩ := EStateM.Result.ok.inj ((Decode.later_of_ok hrun').symm.trans hlater)
      obtain rfl := Except.ok.inj hb'
      exact hback hb a b' _ hrun' hab

/-- Looking up a shape does not fail and reads nothing. -/
theorem shape_bind {className : String} {layout : List (String × String)}
    (hnodup : (layout.map (·.2)).Nodup) {g : GhostShape → Decode β}
    (h : ∀ shape : GhostShape, shape.className = className → Mirrors back R x (g shape)) :
    Mirrors back R x (Decode.shape className layout >>= g) := by
  intro s t hs ht
  obtain ⟨shape, hclass, hrun⟩ := Decode.exists_shape ht.shapes className hnodup
  have ht' := DecodeState.isInvariant_isStrict.remember className layout ht
  have hbind := Decode.bind_of_ok (f := g) hrun
  cases h shape hclass s _ hs ht' with
  | alike hx hy hab => exact .alike hx (hbind.trans hy) hab
  | broken hx hback => exact .broken hx fun hb a b t' hy ↦ hback hb a b t' (hbind.symm.trans hy)

/-- Steps without parts do the same at any time. -/
theorem closed : Decode.IsClosed fun _ x ↦ Keeps DecodeState.IsStrict x ∧ Mirrors back Eq x x where
  pure a := ⟨.pure a, .pure rfl⟩
  throw failure := ⟨.throw failure, .throw failure failure⟩
  pay cost := ⟨(Keeps.closed DecodeState.isInvariant_isStrict).pay cost,
    fun _ _ _ _ ↦ .alike rfl rfl rfl⟩
  bind hx hf := ⟨hx.1.bind fun a ↦ (hf a).1,
    bind_same hx (P := fun _ ↦ True) (fun _ _ _ _ ↦ trivial) fun a _ ↦ (hf a).2⟩

/-- Strict decoders collect nothing. -/
theorem record (failure : Failure) : Keeps DecodeState.IsStrict (Decode.record failure) ∧
    Mirrors back Eq (Decode.record failure) (Decode.record failure) := by
  have hrun : ∀ s : DecodeState, s.IsStrict → Decode.record failure s = .error failure s := by
    intro s hs
    rw [Decode.record, hs.collector]
    rfl
  refine ⟨.record DecodeState.isInvariant_isStrict failure, fun s t hs ht ↦ ?_⟩
  refine .broken (hrun s hs) fun _ _ _ _ h ↦ ?_
  rw [hrun t ht] at h
  cases h

end Mirrors

namespace Decode

variable {α β : Type} {s : DecodeState}

/-- A strict decoder never leaves anything out. -/
theorem orRecord_bind_of_isStrict {x : Decode α} (hx : Keeps DecodeState.IsStrict x)
    (h : s.IsStrict) (f : Option α → Decode β) :
    (orRecord x >>= f) s = (x >>= fun a ↦ f (some a)) s := by
  cases hrun : x s with
  | ok a s' => rw [bind_of_ok (orRecord_of_ok hrun), bind_of_ok hrun]
  | error failure s' =>
    have hrecord : s'.collector.record? failure = none := by
      rw [(hx.of_error h hrun).collector]
      rfl
    rw [bind_of_error (orRecord_of_error hrun hrecord), bind_of_error hrun]

end Decode

end TypedJson
