import TypedJson.Codec.Compile
import TypedJson.Proofs.Codec.Steady

/-!
# What an accessor shows

An accessor names a slot or a field below one, so in given slots it is a source: `Accessor.find`.
An accessor `Shows` a source in a state if both come to the same and if reading either leaves logs
with the same accesses. This lasts as long as the slot is kept, and once the accessor has been read,
it shows the plain value. So encoders may come back to a path at every use, where the direct writer
hands a value on.
-/

namespace TypedJson

open RunState

namespace Accessor

/-- The slot that an accessor starts from. -/
def base : Accessor → Nat
  | slot n => n
  | property object _ => object.base

/-- What an accessor names in slots. -/
def find (slots : List Value) : Accessor → Source
  | slot n => .ofValue (slots[n]?.getD .null)
  | property object name => (object.find slots).field name

theorem find_congr {slots slots' : List Value} {a : Accessor}
    (h : slots'[a.base]? = slots[a.base]?) : a.find slots' = a.find slots := by
  induction a with
  | slot n =>
    have hslot : slots'[n]? = slots[n]? := h
    rw [find, find, hslot]
  | property object name ih => rw [find, find, ih h]

end Accessor

namespace Run

/-- The state after a source has been read. -/
def logged (source : Source) (state : RunState) : RunState :=
  { state with log := source.accesses ++ state.log }

theorem look_apply (source : Source) (state : RunState) :
    look source state = found source.outcome (logged source state) := rfl

/-- Reads a field of a value that has been read. -/
def readField (object : Accessor) (name : String) : Value → Run Value
  | .object o => do
    let field ← atAccessor (.property object name) do found (← traced (o.read name))
    return field.getD .null
  | other => atAccessor object (throw (.unexpectedValue "object" other.kindName))

/-- Reading an accessor is looking at what it names, up to the path of a failure. -/
theorem read_apply (a : Accessor) (state : RunState) :
    (∃ value, (a.find state.slots).outcome = .ok value ∧
      read a state = .ok value (logged (a.find state.slots) state)) ∨
    (∃ e f, (a.find state.slots).outcome = .error e ∧ f.unplaced = e.unplaced ∧
      read a state = .error f (logged (a.find state.slots) state)) := by
  induction a with
  | slot n => exact Or.inl ⟨_, rfl, rfl⟩
  | property object name ih =>
    have hread : read (.property object name) state =
        EStateM.bind (read object) (readField object name) state := by
      rw [read]
      rfl
    rcases ih with ⟨value, hvalue, hok⟩ | ⟨e, f, he, hf, herror⟩
    · rw [hread, EStateM.bind, hok, Accessor.find, Source.field, hvalue]
      cases value with
      | object o =>
        cases hget : (o.get name).result with
        | ok field =>
          refine Or.inl ⟨field.getD .null, ?_, ?_⟩
          · simp only [hget, Except.map]
          · have htraced : (o.read name (logged (object.find state.slots) state).log) =
                (.ok field, ⟨o.identity, .field name⟩ ::
                  (logged (object.find state.slots) state).log) := by
              rw [← hget]
              rfl
            change EStateM.bind (EStateM.tryCatch (EStateM.bind (traced (o.read name)) found) _) _ _
              = _
            simp only [EStateM.bind, EStateM.tryCatch, traced, htraced, found]
            rfl
        | error failure =>
          refine Or.inr ⟨failure, failure.locate (Accessor.property object name).text, ?_,
            Failure.unplaced_locate _ _, ?_⟩
          · simp only [hget, Except.map]
          · have htraced : (o.read name (logged (object.find state.slots) state).log) =
                (.error failure, ⟨o.identity, .field name⟩ ::
                  (logged (object.find state.slots) state).log) := by
              rw [← hget]
              rfl
            change EStateM.bind (EStateM.tryCatch (EStateM.bind (traced (o.read name)) found) _) _ _
              = _
            simp only [EStateM.bind, EStateM.tryCatch, traced, htraced, found]
            rfl
      | _ => exact Or.inr ⟨_, _, rfl, Failure.unplaced_locate _ _, rfl⟩
    · refine Or.inr ⟨e, f, ?_, hf, ?_⟩
      · rw [Accessor.find, Source.field, he]
      · rw [hread, EStateM.bind, herror, Accessor.find, Source.field, he]
        rfl

/-- Whether an accessor and a source come to the same, also in what is read for them. -/
structure Shows (state : RunState) (a : Accessor) (source : Source) : Prop where
  outcome_eq : (a.find state.slots).outcome = source.outcome
  accesses_same : SameAccesses ((a.find state.slots).accesses ++ state.log)
    (source.accesses ++ state.log)

namespace Shows

variable {n : Nat} {s s' t : RunState} {a : Accessor} {source : Source}

/-- What is shown stays shown while the slot is kept. -/
theorem later (h : Shows s a source) (hlater : Later n s s') (hbase : a.base < n) :
    Shows s' a source := by
  have hfind : a.find s'.slots = a.find s.slots :=
    Accessor.find_congr (hlater.slots_eq a.base hbase)
  refine ⟨by rw [hfind, h.outcome_eq], fun access ↦ ?_⟩
  have hsame := h.accesses_same access
  have hgrows := @hlater.log_grows access
  rw [hfind, List.mem_append, List.mem_append]
  rw [List.mem_append, List.mem_append] at hsame
  constructor
  · rintro (hmem | hmem)
    · exact (hsame.mp (Or.inl hmem)).imp_right hgrows
    · exact Or.inr hmem
  · rintro (hmem | hmem)
    · exact (hsame.mpr (Or.inl hmem)).imp_right hgrows
    · exact Or.inr hmem

theorem field (h : Shows s a source) (name : String) :
    Shows s (.property a name) (source.field name) := by
  constructor
  · rw [Accessor.find, Source.field, Source.field, h.outcome_eq]
    split <;> rfl
  · intro access
    have hsame := h.accesses_same access
    rw [Accessor.find, Source.field, Source.field, h.outcome_eq]
    split
    · rw [List.cons_append, List.cons_append, List.mem_cons, List.mem_cons, hsame]
    · exact hsame
    · exact hsame

theorem property (h : Shows s a source) (accessor : PropertyAccessor) :
    Shows s (accessor.of a) (source.property accessor) := by
  cases accessor with
  | field name => exact h.field name
  | computed => exact h

/-- Once it has been read, an accessor shows the value. -/
theorem ofValue {value : Value} (hvalue : (a.find s.slots).outcome = .ok value) :
    Shows (logged (a.find s.slots) s) a (.ofValue value) := by
  refine ⟨hvalue, fun access ↦ ?_⟩
  change access ∈ (a.find s.slots).accesses ++ ((a.find s.slots).accesses ++ s.log) ↔
    access ∈ [] ++ ((a.find s.slots).accesses ++ s.log)
  rw [List.nil_append, List.mem_append, or_iff_right_iff_imp]
  exact List.mem_append_left _

/-- The state after reading is a later one. -/
theorem later_logged (s : RunState) (source : Source) : Later n s (logged source s) :=
  ⟨List.subset_append_right _ _, rfl, fun _ _ ↦ rfl⟩

theorem alike_logged (h : Shows s a source) (halike : Alike s t) :
    Alike (logged (a.find s.slots) s) (logged source t) := by
  refine ⟨halike.out_eq, fun access ↦ (h.accesses_same access).trans ?_⟩
  change _ ↔ access ∈ source.accesses ++ t.log
  rw [List.mem_append, List.mem_append, halike.log_same access]

end Shows

variable {α : Type} {n : Nat} {s t : RunState} {a : Accessor} {source : Source}

/-- Reading an accessor agrees with looking at what it shows, and it shows the value from then
on. -/
theorem agree_read {f g : Value → Run α} (h : Shows s a source) (halike : Alike s t)
    (hf : ∀ value s' t', Alike s' t' → Later n s s' → Shows s' a (.ofValue value) →
      Agree n s' (f value s') (g value t')) :
    Agree n s ((read a >>= f) s) ((look source >>= g) t) := by
  have halike' := h.alike_logged halike
  have hlater : Later n s (logged (a.find s.slots) s) := Shows.later_logged s _
  rcases read_apply a s with ⟨value, hvalue, hread⟩ | ⟨e, e', he, hunplaced, hread⟩
  · have hlook : look source t = .ok value (logged source t) := by
      rw [look_apply, ← h.outcome_eq, hvalue]
      rfl
    refine Agree.bind_of (show Agree n s (read a s) (look source t) from ?_) ?_
    · rw [hread, hlook]
      exact ⟨rfl, halike', hlater⟩
    · intro value' s' t' hok halike'' hlater'
      rw [hread] at hok
      obtain ⟨rfl, rfl⟩ := EStateM.Result.ok.inj hok
      exact hf value _ t' halike'' hlater (Shows.ofValue hvalue)
  · have hlook : look source t = .error e (logged source t) := by
      rw [look_apply, ← h.outcome_eq, he]
      rfl
    refine Agree.bind_of (show Agree n s (read a s) (look source t) from ?_) ?_
    · rw [hread, hlook]
      exact ⟨hunplaced, halike'⟩
    · intro value s' t' hok
      rw [hread] at hok
      cases hok

end Run

end TypedJson
