/-!
# Outcomes

A computation that may end in an error answers a value only if each of its steps does.
-/

namespace TypedJson.Outcome

variable {ε α β : Type} {E : ε → Prop}

theorem bind_eq_ok {x : Except ε α} {f : α → Except ε β} {b : β} :
    (x >>= f) = .ok b ↔ ∃ a, x = .ok a ∧ f a = .ok b := by
  cases x with
  | error e => exact ⟨fun h ↦ (nomatch h), fun ⟨_, h, _⟩ ↦ (nomatch h)⟩
  | ok a =>
    constructor
    · intro h
      exact ⟨a, rfl, h⟩
    · rintro ⟨_, ha, h⟩
      cases ha
      exact h

/-- The same for steps with a state. -/
theorem exists_of_run_bind {σ : Type} {x : EStateM ε σ α} {f : α → EStateM ε σ β} {s s' : σ} {b : β}
    (h : (x >>= f) s = .ok b s') :
    ∃ a between, x s = .ok a between ∧ f a between = .ok b s' := by
  change EStateM.bind x f s = .ok b s' at h
  rw [EStateM.bind] at h
  cases hx : x s with
  | ok a between =>
    rw [hx] at h
    exact ⟨a, between, rfl, h⟩
  | error e between =>
    rw [hx] at h
    exact nomatch h

theorem map_eq_ok {x : Except ε α} {f : α → β} {b : β} :
    x.map f = .ok b ↔ ∃ a, x = .ok a ∧ f a = b := by
  cases x with
  | error e => exact ⟨fun h ↦ (nomatch h), fun ⟨_, h, _⟩ ↦ (nomatch h)⟩
  | ok a =>
    constructor
    · intro h
      cases h
      exact ⟨a, rfl, rfl⟩
    · rintro ⟨_, ha, h⟩
      cases ha
      rw [← h]
      rfl

theorem mapError_eq_ok {ε' : Type} {x : Except ε α} {f : ε → ε'} {a : α} :
    x.mapError f = .ok a ↔ x = .ok a := by
  cases x with
  | error e => exact ⟨fun h ↦ (nomatch h), fun h ↦ (nomatch h)⟩
  | ok b => exact ⟨fun h ↦ congrArg _ (Except.ok.inj h), fun h ↦ congrArg _ (Except.ok.inj h)⟩

/-! ## Errors of a kind -/

/-- The computation ends in no error but those of a kind. -/
def FailsWithin (E : ε → Prop) (x : Except ε α) : Prop := ∀ e, x = .error e → E e

namespace FailsWithin

theorem ok (a : α) : FailsWithin E (.ok a) := fun _ h ↦ nomatch h

theorem error {e : ε} (h : E e) : FailsWithin E (.error e : Except ε α) := by
  rintro _ ⟨⟩
  exact h

theorem bind {x : Except ε α} {f : α → Except ε β} (hx : FailsWithin E x)
    (hf : ∀ a, x = .ok a → FailsWithin E (f a)) : FailsWithin E (x >>= f) := by
  cases x with
  | error e => exact error (hx e rfl)
  | ok a => exact hf a rfl

theorem map {x : Except ε α} (f : α → β) (hx : FailsWithin E x) : FailsWithin E (x.map f) := by
  cases x with
  | error e => exact error (hx e rfl)
  | ok a => exact ok (f a)

end FailsWithin

end TypedJson.Outcome
