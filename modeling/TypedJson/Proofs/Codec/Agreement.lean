import TypedJson.Proofs.Codec.Direct

/-!
# Runs that agree

Two runs agree if they write the same, answer the same and fail for the same reason, each at a path
of its own. They may differ in their slots, and in how often they read a field: an encoder that
comes back to a field reads it again. So logs are compared by what occurs in them, and
`Traced.IsPure` says of a computation that it cannot tell logs with the same accesses apart.

`Agree n s` also says what the first run leaves alone: it forgets no access, and it keeps the first
`n` slots. That is what lets a source that has been found in one state be found in all later ones.
-/

namespace TypedJson

/-- The failure without its path. -/
def Failure.unplaced : Failure → Failure
  | placed _ cause => placed none cause
  | failure => failure

@[simp] theorem Failure.unplaced_locate (failure : Failure) (path : String) :
    (failure.locate path).unplaced = failure.unplaced := by
  match failure with
  | placed none _ | placed (some _) _ | configuration _ | circularReference _ _ | storage => rfl

/-! ## Logs -/

/-- Two logs in which the same accesses occur. -/
def SameAccesses (log log' : List Access) : Prop := ∀ access, access ∈ log ↔ access ∈ log'

theorem SameAccesses.cons {log log' : List Access} (h : SameAccesses log log') (access : Access) :
    SameAccesses (access :: log) (access :: log') := by
  intro other
  rw [List.mem_cons, List.mem_cons, h other]

theorem SameAccesses.any_eq {log log' : List Access} (h : SameAccesses log log')
    (p : Access → Bool) : log.any p = log'.any p := by
  rw [Bool.eq_iff_iff, List.any_eq_true, List.any_eq_true]
  constructor
  · rintro ⟨access, hmem, hp⟩
    exact ⟨access, (h access).mp hmem, hp⟩
  · rintro ⟨access, hmem, hp⟩
    exact ⟨access, (h access).mpr hmem, hp⟩

/-- A computation that depends on what has been read, not on how often, and keeps it in mind. -/
structure Traced.IsPure {α : Type} (computation : Traced α) : Prop where
  result_eq : ∀ {log log' : List Access}, SameAccesses log log' →
    (computation log).1 = (computation log').1
  log_same : ∀ {log log' : List Access}, SameAccesses log log' →
    SameAccesses (computation log).2 (computation log').2
  log_grows : ∀ log : List Access, log ⊆ (computation log).2

namespace Traced.IsPure

variable {α β : Type}

theorem pure (a : α) : IsPure (Pure.pure a : Traced α) where
  result_eq _ := rfl
  log_same h := h
  log_grows _ _ hmem := hmem

theorem bind {computation : Traced α} {f : α → Traced β} (h : computation.IsPure)
    (hf : ∀ a, (f a).IsPure) : IsPure (computation >>= f) where
  result_eq {log log'} hsame := by
    change (f (computation log).1 (computation log).2).1 =
      (f (computation log').1 (computation log').2).1
    rw [h.result_eq hsame]
    exact (hf _).result_eq (h.log_same hsame)
  log_same {log log'} hsame := by
    change SameAccesses (f (computation log).1 (computation log).2).2
      (f (computation log').1 (computation log').2).2
    rw [h.result_eq hsame]
    exact (hf _).log_same (h.log_same hsame)
  log_grows log _ hmem := (hf _).log_grows _ (h.log_grows log hmem)

/-- Reading a field is pure: what a field comes to is part of the object. -/
theorem read (o : Object Value) (name : String) : (o.read name).IsPure where
  result_eq _ := rfl
  log_same hsame := hsame.cons _
  log_grows _ := List.subset_cons_self _ _

end Traced.IsPure

/-- Formatters and discriminators are pure functions of the values that they are given. -/
structure Registry.IsPure (registry : Registry) : Prop where
  formatters : ∀ name f, (name, f) ∈ registry.formatters →
    ∀ value config, (f.body value config).IsPure
  discriminators : ∀ union d, (union, d) ∈ registry.discriminators →
    ∀ value, (d.select value).IsPure

/-! ## Agreement -/

namespace RunState

/-- Two states that differ in their slots and in how often something was read. -/
structure Alike (s t : RunState) : Prop where
  out_eq : s.out = t.out
  log_same : SameAccesses s.log t.log

/-- A state that comes after another in a run that keeps the first `n` slots. -/
structure Later (n : Nat) (s s' : RunState) : Prop where
  log_grows : s.log ⊆ s'.log
  length_eq : s'.slots.length = s.slots.length
  slots_eq : ∀ i < n, s'.slots[i]? = s.slots[i]?

theorem Later.refl (n : Nat) (s : RunState) : Later n s s := ⟨fun _ h ↦ h, rfl, fun _ _ ↦ rfl⟩

theorem Later.trans {n : Nat} {s s' s'' : RunState} (h : Later n s s') (h' : Later n s' s'') :
    Later n s s'' :=
  ⟨fun _ hmem ↦ h'.log_grows (h.log_grows hmem), h'.length_eq.trans h.length_eq,
    fun i hi ↦ (h'.slots_eq i hi).trans (h.slots_eq i hi)⟩

theorem Later.mono {m n : Nat} {s s' : RunState} (hmn : m ≤ n) (h : Later n s s') :
    Later m s s' :=
  ⟨h.log_grows, h.length_eq, fun i hi ↦ h.slots_eq i (by omega)⟩

end RunState

open RunState

/-- Whether two results agree, the first of which comes from the state `s`. -/
def Agree {α : Type} (n : Nat) (s : RunState) :
    EStateM.Result Failure RunState α → EStateM.Result Failure RunState α → Prop
  | .ok a s', .ok b t' => a = b ∧ Alike s' t' ∧ Later n s s'
  | .error e s', .error f t' => e.unplaced = f.unplaced ∧ Alike s' t'
  | _, _ => False

namespace Agree

variable {α β : Type} {n : Nat} {s t : RunState}

theorem pure (h : Alike s t) (a : α) :
    Agree n s ((Pure.pure a : Run α) s) ((Pure.pure a : Run α) t) :=
  ⟨rfl, h, Later.refl n s⟩

/-- A step after agreeing ones, which may know what they come to. -/
theorem bind_of {c d : Run α} {f g : α → Run β} (h : Agree n s (c s) (d t))
    (hf : ∀ a s' t', c s = .ok a s' → Alike s' t' → Later n s s' → Agree n s' (f a s') (g a t')) :
    Agree n s ((c >>= f) s) ((d >>= g) t) := by
  change Agree n s (EStateM.bind c f s) (EStateM.bind d g t)
  unfold EStateM.bind
  cases hc : c s with
  | error e s' =>
    cases hd : d t with
    | error e' t' =>
      rw [hc, hd] at h
      exact h
    | ok b t' =>
      rw [hc, hd] at h
      exact h.elim
  | ok a s' =>
    cases hd : d t with
    | error e' t' =>
      rw [hc, hd] at h
      exact h.elim
    | ok b t' =>
      rw [hc, hd] at h
      obtain ⟨rfl, halike, hlater⟩ := h
      have hrest := hf a s' t' hc halike hlater
      simp only
      revert hrest
      cases f a s' with
      | error e s'' =>
        cases g a t' with
        | error e' t'' => exact fun hrest ↦ hrest
        | ok b t'' => exact fun hrest ↦ hrest.elim
      | ok b s'' =>
        cases g a t' with
        | error e' t'' => exact fun hrest ↦ hrest.elim
        | ok b' t'' =>
          rintro ⟨hb, halike', hlater'⟩
          exact ⟨hb, halike', hlater.trans hlater'⟩

theorem bind {c d : Run α} {f g : α → Run β} (h : Agree n s (c s) (d t))
    (hf : ∀ a s' t', Alike s' t' → Later n s s' → Agree n s' (f a s') (g a t')) :
    Agree n s ((c >>= f) s) ((d >>= g) t) :=
  bind_of h fun a s' t' _ ↦ hf a s' t'

theorem mono {m : Nat} (hmn : m ≤ n) {x y : EStateM.Result Failure RunState α}
    (h : Agree n s x y) : Agree m s x y := by
  cases x with
  | error e s' =>
    cases y with
    | error f t' => exact h
    | ok b t' => exact h.elim
  | ok a s' =>
    cases y with
    | error f t' => exact h.elim
    | ok b t' => exact ⟨h.1, h.2.1, h.2.2.mono hmn⟩

/-- What agrees from a later state on agrees as a whole. -/
theorem of_later {s' : RunState} (hlater : Later n s s')
    {x y : EStateM.Result Failure RunState α} (h : Agree n s' x y) : Agree n s x y := by
  cases x with
  | error e s'' =>
    cases y with
    | error f t' => exact h
    | ok b t' => exact h.elim
  | ok a s'' =>
    cases y with
    | error f t' => exact h.elim
    | ok b t' => exact ⟨h.1, h.2.1, hlater.trans h.2.2⟩

/-- Where a failure is reported does not matter. -/
theorem atAccessor {c d : Run α} (accessor : Accessor) (h : Agree n s (c s) (d t)) :
    Agree n s (Run.atAccessor accessor c s) (d t) := by
  unfold Run.atAccessor
  change Agree n s (EStateM.tryCatch c _ s) (d t)
  unfold EStateM.tryCatch
  cases hc : c s with
  | ok a s' =>
    rw [hc] at h
    exact h
  | error e s' =>
    rw [hc] at h
    cases hd : d t with
    | ok b t' =>
      rw [hd] at h
      exact h.elim
    | error f t' =>
      rw [hd] at h
      exact ⟨(Failure.unplaced_locate e _).trans h.1, h.2⟩

theorem throw {e f : Failure} (halike : Alike s t) (h : e.unplaced = f.unplaced) :
    Agree n s ((MonadExcept.throw e : Run α) s) ((MonadExcept.throw f : Run α) t) :=
  ⟨h, halike⟩

end Agree

/-! ## Steady steps -/

namespace Run

/-- A step that agrees with itself, whatever the slots are. -/
def Steady {α : Type} (c : Run α) : Prop :=
  ∀ (n : Nat) (s t : RunState), Alike s t → Agree n s (c s) (c t)

variable {α β : Type}

theorem Steady.pure (a : α) : Steady (Pure.pure a) := fun _ _ _ h ↦ Agree.pure h a

theorem Steady.bind {c : Run α} {f : α → Run β} (hc : Steady c) (hf : ∀ a, Steady (f a)) :
    Steady (c >>= f) :=
  fun n s t h ↦ Agree.bind (hc n s t h) fun a s' t' h' _ ↦ hf a n s' t' h'

theorem Steady.throw (failure : Failure) : Steady (MonadExcept.throw failure : Run α) :=
  fun _ _ _ h ↦ Agree.throw h rfl

theorem steady_found (outcome : Except Failure α) : Steady (found outcome) := by
  cases outcome with
  | ok a => exact Steady.pure a
  | error failure => exact Steady.throw failure

theorem steady_write (text : String) : Steady (write text) := by
  intro n s t h
  refine ⟨rfl, ⟨?_, h.log_same⟩, ⟨fun _ hmem ↦ hmem, rfl, fun _ _ ↦ rfl⟩⟩
  change s.out ++ text = t.out ++ text
  rw [h.out_eq]

theorem steady_traced {computation : Traced α} (hpure : computation.IsPure) :
    Steady (traced computation) := by
  intro n s t h
  exact ⟨hpure.result_eq h.log_same, ⟨h.out_eq, hpure.log_same h.log_same⟩,
    ⟨hpure.log_grows s.log, rfl, fun _ _ ↦ rfl⟩⟩

/-- A separator in front of all members but the first. -/
theorem agree_separated {n : Nat} {s t : RunState} (separator : String) (isFirst : Bool)
    {c d : Run α} (halike : Alike s t)
    (h : ∀ s' t', Alike s' t' → Later n s s' → Agree n s' (c s') (d t')) :
    Agree n s ((if (!isFirst) = true then write separator >>= fun _ ↦ c else c) s)
      ((if (!isFirst) = true then write separator >>= fun _ ↦ d else d) t) := by
  cases isFirst with
  | true => exact h s t halike (Later.refl n s)
  | false => exact Agree.bind (steady_write separator n s t halike) fun _ s' t' ↦ h s' t'

end Run

end TypedJson
