import TypedJson.Proofs.Codec.Agreement
import TypedJson.Proofs.Entries

/-!
# Writers that read

Writing a value of unknown type asks the objects in it for all their fields. What holds of this, of
writing a text and of failing, and of a step if it holds of its parts, holds of all writers:
`Run.IsClosed`.

Which fields a ghost is asked for depends on whether it has been read before, and on nothing else in
the log, so writers are steady: from alike states they write the same and fail alike.
-/

namespace TypedJson

open RunState

/-! ## Objects -/

namespace ResolvedObject

variable {α : Type}

/-- Whatever has been read of an object counts once. -/
theorem names_eq (o : ResolvedObject α) {log log' : List Access} (h : SameAccesses log log') :
    o.names log = o.names log' := by
  unfold names
  cases o.declared with
  | none => rfl
  | some declared =>
    cases o.slots with
    | error failure => rfl
    | ok slots => simp only [h.any_eq]

/-- What reading all fields of given names comes to. -/
theorem read_eq (o : ResolvedObject α) (log : List Access) :
    o.read log =
      (match o.names log, o.slots with
        | [], _ => .ok []
        | names, .ok slots => collect slots names
        | _, .error failure => .error failure,
      ⟨o.identity, .allFields⟩ :: log) := by
  unfold read
  simp only [Traced.accesses, Traced.log, bind, StateT.bind, get, getThe, MonadStateOf.get,
    StateT.get, modify, modifyGet, MonadStateOf.modifyGet, StateT.modifyGet, pure]
  cases o.names log with
  | nil => rfl
  | cons name names => cases o.slots <;> rfl

theorem isPure_read (o : ResolvedObject α) : o.read.IsPure := by
  refine ⟨fun h ↦ ?_, fun h ↦ ?_, fun log ↦ ?_⟩
  · rw [read_eq, read_eq, o.names_eq h]
  · rw [read_eq, read_eq]
    exact h.cons _
  · rw [read_eq]
    exact List.subset_cons_self _ _

theorem mem_of_collect {slots : List (String × Except Failure α)}
    {names : List String} {fields : List (String × α)}
    (h : collect slots names = .ok fields) :
    ∀ name a, (name, a) ∈ fields → (name, Except.ok a) ∈ slots := by
  induction names generalizing fields with
  | nil =>
    rw [collect, Except.ok.injEq] at h
    intro name a hmem
    rw [← h] at hmem
    exact absurd hmem List.not_mem_nil
  | cons first names ih =>
    rw [collect] at h
    cases hfind : Entries.find? slots first with
    | none =>
      rw [hfind] at h
      exact ih h
    | some outcome =>
      rw [hfind] at h
      cases outcome with
      | error failure => cases h
      | ok value =>
        cases hrest : collect slots names with
        | error failure =>
          rw [hrest] at h
          cases h
        | ok others =>
          rw [hrest] at h
          simp only [Except.map, Except.ok.injEq] at h
          intro name a hmem
          rw [← h, List.mem_cons, Prod.mk.injEq] at hmem
          rcases hmem with ⟨rfl, rfl⟩ | hmem
          · exact Entries.mem_of_find? hfind
          · exact ih hrest name a hmem

/-- The fields that are answered are those of the slots; without slots there are none. -/
theorem exists_slots_of_read {o : ResolvedObject α} {log : List Access}
    {fields : List (String × α)} (h : (o.read log).1 = .ok fields) {name : String} {a : α}
    (hmem : (name, a) ∈ fields) : ∃ slots, o.slots = .ok slots ∧ (name, Except.ok a) ∈ slots := by
  rw [read_eq] at h
  cases hnames : o.names log with
  | nil =>
    rw [hnames, Except.ok.injEq] at h
    rw [← h] at hmem
    exact absurd hmem List.not_mem_nil
  | cons first names =>
    cases hslots : o.slots with
    | ok slots =>
      rw [hnames, hslots] at h
      exact ⟨slots, rfl, mem_of_collect h name a hmem⟩
    | error failure =>
      rw [hnames, hslots] at h
      cases h

end ResolvedObject

/-! ## Writers -/

namespace Run

variable {α β : Type}

theorem eq_ok_of_found {outcome : Except Failure α} {a : α} {state state' : RunState}
    (h : found outcome state = .ok a state') : outcome = .ok a := by
  cases outcome with
  | ok b => exact congrArg Except.ok (EStateM.Result.ok.inj h).1
  | error failure => exact nomatch h

/-- The property of steps holds of what writers are made of, and of a step if it holds of its parts.
A part may rely on what the part before it has answered. -/
structure IsClosed (C : ∀ α : Type, Run α → Prop) : Prop where
  pure {α : Type} (a : α) : C α (Pure.pure a)
  throw {α : Type} (failure : Failure) : C α (MonadExcept.throw failure)
  write (text : String) : C Unit (Run.write text)
  /-- An object is asked for all its fields. -/
  fields {α : Type} (o : ResolvedObject α) : C _ (traced o.read)
  bind_of {α β : Type} {x : Run α} {f : α → Run β} (hx : C α x)
    (hf : ∀ a state state', x state = .ok a state' → C β (f a)) : C β (x >>= f)

namespace IsClosed

variable {C : ∀ α : Type, Run α → Prop} (hC : IsClosed C)

include hC

theorem bind {x : Run α} {f : α → Run β} (hx : C α x) (hf : ∀ a, C β (f a)) : C β (x >>= f) :=
  hC.bind_of hx fun a _ _ _ ↦ hf a

theorem found (outcome : Except Failure α) : C α (Run.found outcome) := by
  cases outcome with
  | ok a => exact hC.pure a
  | error failure => exact hC.throw failure

theorem separated (separator : String) (isFirst : Bool) {x : Run α} (hx : C α x) :
    C α (if (!isFirst) = true then Run.write separator >>= fun _ ↦ x else x) := by
  cases isFirst with
  | true => exact hx
  | false => exact hC.bind (hC.write separator) fun _ ↦ hx

theorem writeFloat (flags : JsonFlags) (f : Float) : C Unit (Run.writeFloat flags f) := by
  unfold Run.writeFloat
  cases Json.floatText? flags f with
  | some text => exact hC.write text
  | none => exact hC.throw _

theorem writeScalar (flags : JsonFlags) (kind : ScalarKind) (value : Value) :
    C Unit (Run.writeScalar flags kind value) := by
  unfold Run.writeScalar
  split
  · exact hC.write _
  · exact hC.writeFloat flags _
  · exact hC.writeFloat flags _
  · exact hC.write _
  · exact hC.write _
  · exact hC.throw _

theorem writeKey (flags : JsonFlags) (value : Value) : C Unit (Run.writeKey flags value) := by
  unfold Run.writeKey
  split
  · exact hC.write _
  · exact hC.write _
  · exact hC.throw _

theorem writeFields (flags : JsonFlags) (isFirst : Bool) (fields : List (String × Run Unit))
    (h : ∀ name writer, (name, writer) ∈ fields → C Unit writer) :
    C Unit (writeObject.writeFields flags isFirst fields) := by
  induction fields generalizing isFirst with
  | nil => exact hC.pure ()
  | cons field fields ih =>
    obtain ⟨name, writer⟩ := field
    rw [writeObject.writeFields]
    refine hC.separated "," isFirst ?_
    refine hC.bind (hC.write _) fun _ ↦ hC.bind (hC.write _) fun _ ↦ ?_
    refine hC.bind (h name writer List.mem_cons_self) fun _ ↦ ?_
    exact ih false fun name writer hmem ↦ h name writer (List.mem_cons_of_mem _ hmem)

/-- The fields that an object answers are those of its slots, so their writers have the property if
those in the slots have it. -/
theorem writeObject (flags : JsonFlags) (o : ResolvedObject (Run Unit))
    (h : ∀ slots, o.slots = .ok slots → ∀ name writer, (name, .ok writer) ∈ slots → C Unit writer) :
    C Unit (Run.writeObject flags o) := by
  refine hC.bind (hC.write _) fun _ ↦ ?_
  refine hC.bind_of (hC.fields o) fun outcome state _ hread ↦ ?_
  refine hC.bind_of (hC.found outcome) fun fields _ _ hfound ↦ ?_
  refine hC.bind (hC.writeFields flags true fields fun name writer hmem ↦ ?_) fun _ ↦ hC.write _
  have hfields : (o.read state.log).1 = .ok fields :=
    (EStateM.Result.ok.inj hread).1.trans (eq_ok_of_found hfound)
  obtain ⟨slots, hslots, hwriter⟩ := ResolvedObject.exists_slots_of_read hfields hmem
  exact h slots hslots name writer hwriter

end IsClosed

/-! ## Any value

The writers of an object's fields are made beside the writer of the object, so that all five
functions are gone through in one induction on the value. -/

section

variable {C : ∀ α : Type, Run α → Prop}

mutual

theorem IsClosed.writeResolved (hC : IsClosed C) (config : Config) : ∀ value : Resolved,
    C Unit (Run.writeResolved config value)
  | .null => hC.write _
  | .bool _ => hC.write _
  | .int _ => hC.write _
  | .float f => hC.writeFloat _ f
  | .string _ => hC.write _
  | .list items => by
    rw [Run.writeResolved]
    exact hC.bind (hC.write _) fun _ ↦
      hC.bind (hC.writeItems config true items) fun _ ↦ hC.write _
  | .dict entries => by
    rw [Run.writeResolved]
    exact hC.bind (hC.write _) fun _ ↦
      hC.bind (hC.writeEntries config true entries) fun _ ↦ hC.write _
  | .object o => hC.writeObject _ _ (hC.objectWriter config o)
  | .enum _ case => hC.writeResolved config case
  | .dateTime t => by
    rw [Run.writeResolved]
    exact hC.bind (hC.found _) fun _ ↦ hC.write _
termination_by structural value => value

theorem IsClosed.writeItems (hC : IsClosed C) (config : Config) (isFirst : Bool) :
    ∀ items : List Resolved, C Unit (Run.writeItems config isFirst items)
  | [] => hC.pure ()
  | item :: items => by
    rw [Run.writeItems]
    exact hC.separated "," isFirst <| hC.bind (hC.writeResolved config item) fun _ ↦
      hC.writeItems config false items
termination_by structural items => items

theorem IsClosed.writeEntries (hC : IsClosed C) (config : Config) (isFirst : Bool) :
    ∀ entries : List (DictKey × Resolved), C Unit (Run.writeEntries config isFirst entries)
  | [] => hC.pure ()
  | (key, value) :: entries => by
    rw [Run.writeEntries]
    exact hC.separated "," isFirst <| hC.bind (hC.write _) fun _ ↦
      hC.bind (hC.write _) fun _ ↦ hC.bind (hC.writeResolved config value) fun _ ↦
        hC.writeEntries config false entries
termination_by structural entries => entries

theorem IsClosed.objectWriter (hC : IsClosed C) (config : Config) : ∀ o : ResolvedObject Resolved,
    ∀ slots, (Run.objectWriter config o).slots = .ok slots →
      ∀ name writer, (name, .ok writer) ∈ slots → C Unit writer
  | ⟨_, _, _, .ok slots⟩ => by
    rintro _ ⟨⟩
    exact hC.slotWriters config slots
  | ⟨_, _, _, .error _⟩ => fun _ h ↦ nomatch h
termination_by structural o => o

theorem IsClosed.slotWriters (hC : IsClosed C) (config : Config) :
    ∀ slots : List (String × Except Failure Resolved),
      ∀ name writer, (name, .ok writer) ∈ Run.slotWriters config slots → C Unit writer
  | [] => fun _ _ hmem ↦ absurd hmem List.not_mem_nil
  | (first, .ok value) :: slots => by
    rw [Run.slotWriters]
    intro name writer hmem
    rw [List.mem_cons, Prod.mk.injEq, Except.ok.injEq] at hmem
    rcases hmem with ⟨_, rfl⟩ | hmem
    · exact hC.writeResolved config value
    · exact hC.slotWriters config slots name writer hmem
  | (first, .error failure) :: slots => by
    rw [Run.slotWriters]
    intro name writer hmem
    rw [List.mem_cons, Prod.mk.injEq] at hmem
    rcases hmem with ⟨_, h⟩ | hmem
    · cases h
    · exact hC.slotWriters config slots name writer hmem
termination_by structural slots => slots

end

theorem IsClosed.writeValue (hC : IsClosed C) (config : Config) (kind : WriteKind) (value : Value) :
    C Unit (Run.writeValue config kind value) := by
  unfold Run.writeValue
  split
  · exact hC.writeResolved config _
  · exact hC.writeScalar _ _ _
  · exact hC.writeScalar _ _ _
  · exact hC.writeScalar _ _ _

end

/-! ## Writers are steady -/

theorem steady_closed : IsClosed fun _ x ↦ Steady x where
  pure := Steady.pure
  throw := Steady.throw
  write := steady_write
  fields o := steady_traced o.isPure_read
  bind_of hx hf n s t h :=
    Agree.bind_of (hx n s t h) fun a s' t' hok h' _ ↦ hf a s s' hok n s' t' h'

theorem steady_writeScalar (flags : JsonFlags) (kind : ScalarKind) (value : Value) :
    Steady (writeScalar flags kind value) := steady_closed.writeScalar flags kind value

theorem steady_writeValue (config : Config) (kind : WriteKind) (value : Value) :
    Steady (writeValue config kind value) := steady_closed.writeValue config kind value

end Run

end TypedJson
