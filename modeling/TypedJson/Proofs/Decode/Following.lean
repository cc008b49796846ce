import TypedJson.Proofs.Decode.Reference

/-!
# Steps that follow a conversion

A step of decoding *follows* a conversion if both end alike from all states in which they have
collected the same failures, and keep to such states. Their values may differ in form, as windows
and parsed values do; in that case they are related. What a step costs does not matter.

The relation is closed under everything that steps are made of.
-/

namespace TypedJson

/-- The state of a decoder that has collected some failures and knows the shapes of some classes. -/
structure DecodeState.Has (collects : Bool) (shapes : GhostShapes) (state : DecodeState)
    (errors : List Failure) : Prop where
  collector : state.collector = ⟨collects, false, errors⟩
  shapes : state.shapes = shapes

/-- The step does what the conversion does, with related values. -/
def Follows {α β : Type} (collects : Bool) (shapes : GhostShapes) (R : α → β → Prop)
    (x : Decode α) (y : Conversion β) : Prop :=
  ∀ state errors, state.Has collects shapes errors →
    match x state, y errors with
    | .ok a state', .ok b errors' => R a b ∧ state'.Has collects shapes errors'
    | .error failure state', .error failure' errors' =>
      failure = failure' ∧ state'.Has collects shapes errors'
    | _, _ => False

namespace Follows

variable {collects : Bool} {shapes : GhostShapes} {α β γ δ : Type} {R : α → β → Prop}
  {Q : γ → δ → Prop}

theorem pure {a : α} {b : β} (h : R a b) : Follows collects shapes R (pure a) (pure b) :=
  fun _ _ hs ↦ ⟨h, hs⟩

theorem throw (failure : Failure) :
    Follows collects shapes R (throw failure : Decode α) (throw failure : Conversion β) :=
  fun _ _ hs ↦ ⟨rfl, hs⟩

theorem bind {x : Decode α} {y : Conversion β} {f : α → Decode γ} {g : β → Conversion δ}
    (hx : Follows collects shapes R x y)
    (hf : ∀ a b, R a b → Follows collects shapes Q (f a) (g b)) :
    Follows collects shapes Q (x >>= f) (y >>= g) := by
  intro state errors hs
  have hxs := hx state errors hs
  show (match EStateM.bind x f state, EStateM.bind y g errors with
    | .ok a state', .ok b errors' => Q a b ∧ state'.Has collects shapes errors'
    | .error failure state', .error failure' errors' =>
      failure = failure' ∧ state'.Has collects shapes errors'
    | _, _ => False)
  unfold EStateM.bind
  cases hx' : x state with
  | ok a state' =>
    cases hy' : y errors with
    | ok b errors' =>
      rw [hx', hy'] at hxs
      exact hf a b hxs.1 state' errors' hxs.2
    | error failure errors' =>
      rw [hx', hy'] at hxs
      exact hxs.elim
  | error failure state' =>
    cases hy' : y errors with
    | ok b errors' =>
      rw [hx', hy'] at hxs
      exact hxs.elim
    | error failure' errors' =>
      rw [hx', hy'] at hxs
      exact hxs

theorem map {x : Decode α} {y : Conversion β} {f : α → γ} {g : β → δ}
    (hx : Follows collects shapes R x y) (hf : ∀ a b, R a b → Q (f a) (g b)) :
    Follows collects shapes Q (f <$> x) (g <$> y) := by
  rw [map_eq_pure_bind, map_eq_pure_bind]
  exact hx.bind fun a b h ↦ pure (hf a b h)

theorem tryCatch {x : Decode α} {y : Conversion β} {f : Failure → Decode α}
    {g : Failure → Conversion β} (hx : Follows collects shapes R x y)
    (hf : ∀ failure, Follows collects shapes R (f failure) (g failure)) :
    Follows collects shapes R (tryCatch x f) (tryCatch y g) := by
  intro state errors hs
  have hxs := hx state errors hs
  show (match EStateM.tryCatch x f state, EStateM.tryCatch y g errors with
    | .ok a state', .ok b errors' => R a b ∧ state'.Has collects shapes errors'
    | .error failure state', .error failure' errors' =>
      failure = failure' ∧ state'.Has collects shapes errors'
    | _, _ => False)
  unfold EStateM.tryCatch
  cases hx' : x state with
  | ok a state' =>
    cases hy' : y errors with
    | ok b errors' =>
      rw [hx', hy'] at hxs
      exact hxs
    | error failure errors' =>
      rw [hx', hy'] at hxs
      exact hxs.elim
  | error failure state' =>
    cases hy' : y errors with
    | ok b errors' =>
      rw [hx', hy'] at hxs
      exact hxs.elim
    | error failure' errors' =>
      rw [hx', hy'] at hxs
      obtain ⟨rfl, hs'⟩ := hxs
      exact hf failure state' errors' hs'

/-- What a step costs does not matter. -/
theorem pay_bind {cost : Cost} {x : Unit → Decode α} {y : Conversion β}
    (h : Follows collects shapes R (x ()) y) :
    Follows collects shapes R (Decode.pay cost >>= x) y :=
  fun state errors hs ↦ h { state with cost := state.cost + cost } errors ⟨hs.collector, hs.shapes⟩

theorem found (outcome : Except Failure α) :
    Follows collects shapes Eq (Decode.found outcome) (Conversion.found outcome) := by
  cases outcome with
  | ok a => exact pure rfl
  | error failure => exact throw failure

theorem locate {x : Decode α} {y : Conversion β} (place : Place)
    (h : Follows collects shapes R x y) :
    Follows collects shapes R (Decode.locate place x) (Conversion.locate place y) :=
  h.tryCatch fun _ ↦ throw _

/-- A failure is collected by the one exactly if it is by the other. -/
theorem record (failure : Failure) :
    Follows collects shapes Eq
      (do Decode.record failure; return (none : Option α))
      (if collects && failure.isRecoverable then do
        modify (· ++ [failure])
        return none
      else MonadExcept.throw failure) := by
  rintro ⟨cost, collector, _⟩ errors ⟨rfl, rfl⟩
  by_cases hcollected : (collects && failure.isRecoverable) = true
  · have hrecord : Collector.record? ⟨collects, false, errors⟩ failure =
        some ⟨collects, false, errors ++ [failure]⟩ := by
      rw [Collector.record?, Bool.not_false, Bool.and_true, if_pos hcollected]
    rw [if_pos hcollected]
    simp only [Bind.bind, EStateM.bind, Decode.record, hrecord]
    exact ⟨rfl, rfl, rfl⟩
  · have hrecord : Collector.record? ⟨collects, false, errors⟩ failure = none := by
      rw [Collector.record?, Bool.not_false, Bool.and_true, if_neg hcollected]
    rw [if_neg hcollected]
    simp only [Bind.bind, EStateM.bind, Decode.record, hrecord]
    exact ⟨rfl, rfl, rfl⟩

theorem orRecord {x : Decode α} {y : Conversion α} (h : Follows collects shapes Eq x y) :
    Follows collects shapes Eq (Decode.orRecord x) (Conversion.orCollect collects y) :=
  (h.map fun _ _ ↦ congrArg some).tryCatch fun failure ↦ record failure

end Follows

end TypedJson
