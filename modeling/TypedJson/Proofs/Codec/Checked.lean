import TypedJson.Proofs.Codec.Scoping

/-!
# Runs that check their slots

In a run, a slot that is not there reads as `null`, as one does that nothing has been put into yet,
and filling a slot that is not there does nothing. A checked run tells these cases apart: slots are
empty until they are filled, and the run faults where an empty slot is read, or where a slot is read
or filled that is not there. All that has nothing to do with slots it leaves to the steps of a
run, which it gives no slots.

Well-scoped instructions do not fault, so a checked run of an encoder that is well-scoped comes to
what the run comes to (`Codec.IsScoped.checkedRun_eq`). What carries the proof is that a slot once
filled stays filled. So the slots of a scope, each of which has been filled by the time the
instructions inside are run, are filled throughout.
-/

namespace TypedJson

/-! ## Checked runs -/

/-- The state of a checked run. -/
structure CheckedState where
  out : String
  log : List Access
  /-- A slot holds nothing until it is filled. -/
  slots : List (Option Value)

/-- Why a checked run stops. -/
inductive Stop where
  /-- The run fails. -/
  | failure (failure : Failure)
  /-- A slot is not there, or is read and holds nothing. -/
  | fault

/-- A step of a checked run. -/
abbrev Checked (α : Type) : Type := EStateM Stop CheckedState α

namespace Checked

/-- A step of a run that has nothing to do with slots. -/
def lift {α : Type} (x : Run α) : Checked α := fun state ↦
  match x ⟨state.out, state.log, []⟩ with
  | .ok a after => .ok a { state with out := after.out, log := after.log }
  | .error failure after =>
    .error (.failure failure) { state with out := after.out, log := after.log }

/-- The value of a slot that holds one. -/
def slot (n : Nat) : Checked Value := fun state ↦
  match state.slots[n]? with
  | some (some value) => .ok value state
  | _ => .error .fault state

/-- Puts a value into a slot that is there. -/
def setSlot (n : Nat) (value : Value) : Checked Unit := fun state ↦
  if n < state.slots.length then
    .ok () { state with slots := state.slots.set n (some value) }
  else .error .fault state

/-- The value that an accessor names. -/
def read : Accessor → Checked Value
  | .slot n => slot n
  | .property object name => do lift (Run.readField object name (← read object))

/-- Puts values into slots, of which there must be one for each. -/
def fill : List Nat → List Value → Checked Unit
  | _, [] => return ()
  | [], _ :: _ => throw .fault
  | n :: slots, value :: values => do
    setSlot n value
    fill slots values

/-- The values that a loop puts into its slots, round by round. -/
def rounds (iterable : Accessor) : LoopKind → Value → Run (List (List Value))
  | .list, .list items => return items.map fun item ↦ [item]
  | .dict, .dict entries => return entries.map fun entry ↦ [.ofKey entry.1, entry.2]
  | .list, other => Run.atAccessor iterable (throw (.unexpectedValue "list" other.kindName))
  | .dict, other => Run.atAccessor iterable (throw (.unexpectedValue "dict" other.kindName))

/-- A body for each round, with the separator between. -/
def forRounds (separator : String) (slots : List Nat) (body : Checked Unit) (isFirst : Bool) :
    List (List Value) → Checked Unit
  | [] => return ()
  | values :: others => do
    if !isFirst then lift (Run.write separator)
    fill slots values
    body
    forRounds separator slots body false others

mutual

/-- Runs an instruction. -/
def instruction (context : RunContext) : Instruction → Checked Unit
  | .writeLiteral text => lift (Run.write text)
  | .writeValue accessor kind => do
    let value ← read accessor
    lift (Run.atAccessor accessor (Run.writeValue context.config kind value))
  | .writeKey accessor => do
    let value ← read accessor
    lift (Run.atAccessor accessor (Run.writeKey context.config.jsonFlags value))
  | .call formatter argument bind body => do
    let value ← read argument
    let made ← lift (Run.atAccessor argument (Run.formatted context value formatter))
    setSlot bind made
    instructions context body
  | .loop iterable kind slots separator body => do
    let value ← read iterable
    forRounds separator slots (instructions context body) true (← lift (rounds iterable kind value))
  | .branch accessor selector cases => do
    let value ← read accessor
    let key ← lift (Run.atAccessor accessor (Run.select context value selector))
    let keys := cases.map (·.key)
    match Run.caseFor? keys selector value key with
    | some key => firstCase context key cases
    | none =>
      lift (Run.atAccessor accessor (throw (.unexpectedValue ("|".intercalate keys) key)))
  | .block body => instructions context body
termination_by structural i => i

/-- Runs instructions one after another. -/
def instructions (context : RunContext) : List Instruction → Checked Unit
  | [] => return ()
  | i :: rest => do
    instruction context i
    instructions context rest
termination_by structural is => is

/-- Runs the first case of a key. -/
def firstCase (context : RunContext) (key : String) : List (BranchCase Instruction) → Checked Unit
  | [] => return ()
  | ⟨k, body⟩ :: cases => if k = key then instructions context body else firstCase context key cases
termination_by structural cases => cases

end

end Checked

/-- Writes a value with checks; nothing is answered if a check fails. At the start, all slots but
that of the value are empty. -/
def Codec.checkedRun (codec : Codec) (registry : Registry) (config : Config) (value : Value) :
    Option Written :=
  let slots := some value :: List.replicate (codec.slots - 1) none
  match Checked.instructions ⟨registry, config⟩ codec.instructions ⟨"", [], slots⟩ with
  | .ok () state => some ⟨state.out, none, state.log⟩
  | .error (.failure failure) state => some ⟨state.out, some failure, state.log⟩
  | .error .fault _ => none

/-! ## Steps that have nothing to do with slots -/

namespace Run

variable {α β : Type}

/-- The result with other slots. -/
def withSlots (slots : List Value) :
    EStateM.Result Failure RunState α → EStateM.Result Failure RunState α
  | .ok a state => .ok a { state with slots }
  | .error failure state => .error failure { state with slots }

/-- The step comes to the same whatever the slots are, and leaves them as they are. -/
def SlotFree (x : Run α) : Prop :=
  ∀ (state : RunState) (slots : List Value), x { state with slots } = withSlots slots (x state)

theorem SlotFree.traced (computation : Traced α) : SlotFree (traced computation) :=
  fun _ _ ↦ rfl

theorem slotFree_closed : IsClosed fun _ x ↦ SlotFree x where
  pure _ _ _ := rfl
  throw _ _ _ := rfl
  write _ _ _ := rfl
  fields o := .traced o.read
  bind_of {_ _ x f} hx hf state slots := by
    show EStateM.bind x f _ = withSlots slots (EStateM.bind x f state)
    unfold EStateM.bind
    rw [hx state slots]
    cases hstate : x state with
    | ok a after => exact hf a state after hstate after slots
    | error failure after => rfl

theorem SlotFree.atAccessor {x : Run α} (hx : SlotFree x) (a : Accessor) :
    SlotFree (atAccessor a x) := by
  intro state slots
  show EStateM.tryCatch x _ _ = withSlots slots (EStateM.tryCatch x _ state)
  unfold EStateM.tryCatch
  rw [hx state slots]
  cases x state <;> rfl

theorem slotFree_formatted (context : RunContext) (value : Value) (ref : FormatterRef) :
    SlotFree (formatted context value ref) :=
  slotFree_closed.bind (.traced _) fun _ ↦ slotFree_closed.found _

theorem slotFree_readField (object : Accessor) (name : String) (value : Value) :
    SlotFree (readField object name value) := by
  unfold readField
  split
  · refine slotFree_closed.bind (SlotFree.atAccessor ?_ _) fun _ ↦ slotFree_closed.pure _
    exact slotFree_closed.bind (.traced _) fun _ ↦ slotFree_closed.found _
  · exact (slotFree_closed.throw _).atAccessor _

theorem slotFree_select (context : RunContext) (value : Value) (selector : Selector) :
    SlotFree (select context value selector) := by
  unfold select
  split
  · exact slotFree_closed.pure _
  · exact slotFree_closed.pure _
  · split
    · exact slotFree_closed.throw _
    · refine slotFree_closed.bind (.traced _) fun key ↦ ?_
      split
      · exact slotFree_closed.pure _
      · exact slotFree_closed.throw _

end Run

/-! ## States -/

namespace CheckedState

variable {size n : Nat} {scope : List Nat} {s t u : CheckedState}

/-- The state of a run. There, a slot that is empty holds `null`. -/
def plain (s : CheckedState) : RunState :=
  ⟨s.out, s.log, s.slots.map fun slot ↦ slot.getD .null⟩

/-- The slot is there and holds a value. -/
def IsFilled (s : CheckedState) (n : Nat) : Prop := ∃ value, s.slots[n]? = some (some value)

/-- A state that comes after another. No slot is added or emptied. -/
structure Later (s t : CheckedState) : Prop where
  length_eq : t.slots.length = s.slots.length
  isFilled : ∀ n, s.IsFilled n → t.IsFilled n

theorem Later.refl (s : CheckedState) : Later s s := ⟨rfl, fun _ h ↦ h⟩

theorem Later.trans (h : Later s t) (h' : Later t u) : Later s u :=
  ⟨h'.length_eq.trans h.length_eq, fun n hn ↦ h'.isFilled n (h.isFilled n hn)⟩

/-- There are `size` slots at least, and those of a scope are filled. -/
structure Serves (size : Nat) (scope : List Nat) (s : CheckedState) : Prop where
  size_le : size ≤ s.slots.length
  isFilled : ∀ n ∈ scope, s.IsFilled n

theorem Serves.later (h : s.Serves size scope) (hlater : Later s t) : t.Serves size scope :=
  ⟨hlater.length_eq ▸ h.size_le, fun n hn ↦ hlater.isFilled n (h.isFilled n hn)⟩

/-- The state after a slot has been filled. -/
def set (s : CheckedState) (n : Nat) (value : Value) : CheckedState :=
  { s with slots := s.slots.set n (some value) }

theorem isFilled_set (hn : n < s.slots.length) (value : Value) : (s.set n value).IsFilled n :=
  ⟨value, List.getElem?_set_self hn⟩

theorem later_set (s : CheckedState) (n : Nat) (value : Value) : Later s (s.set n value) := by
  refine ⟨List.length_set, fun m hm ↦ ?_⟩
  obtain ⟨held, hheld⟩ := hm
  have hlt : m < s.slots.length := (List.getElem?_eq_some_iff.mp hheld).1
  by_cases hmn : n = m
  · subst hmn
    exact isFilled_set hlt value
  · exact ⟨held, (List.getElem?_set_ne hmn).trans hheld⟩

theorem Serves.set (h : s.Serves size scope) (hn : n < size) (value : Value) :
    (s.set n value).Serves size (n :: scope) := by
  have hlater := h.later (later_set s n value)
  refine ⟨hlater.size_le, List.forall_mem_cons.mpr ⟨?_, hlater.isFilled⟩⟩
  exact isFilled_set (Nat.lt_of_lt_of_le hn h.size_le) value

theorem plain_set (s : CheckedState) (n : Nat) (value : Value) :
    (s.set n value).plain = { s.plain with slots := s.plain.slots.set n value } := by
  simp only [plain, set, List.map_set, Option.getD_some]

end CheckedState

open CheckedState

/-! ## Checked steps that follow steps of a run -/

namespace Checked

variable {α β : Type} {size n : Nat} {scope : List Nat} {s t : CheckedState}

/-- A checked step and a step of a run, both from the state `s`, end in the same way. -/
inductive EndsAlike (s : CheckedState) :
    EStateM.Result Stop CheckedState α → EStateM.Result Failure RunState α → Prop
  | ok (a : α) {t : CheckedState} (h : Later s t) : EndsAlike s (.ok a t) (.ok a t.plain)
  | error (failure : Failure) (t : CheckedState) :
    EndsAlike s (.error (.failure failure) t) (.error failure t.plain)

theorem EndsAlike.of_later {x : EStateM.Result Stop CheckedState α}
    {y : EStateM.Result Failure RunState α} (h : EndsAlike t x y) (hlater : Later s t) :
    EndsAlike s x y := by
  cases h with
  | ok a h => exact .ok a (hlater.trans h)
  | error failure t => exact .error failure t

/-- From every state that serves the scope, the checked step does what the step does. It does not
fault. -/
def Follows (size : Nat) (scope : List Nat) (x : Checked α) (y : Run α) : Prop :=
  ∀ s : CheckedState, s.Serves size scope → EndsAlike s (x s) (y s.plain)

namespace Follows

variable {x : Checked α} {y : Run α}

theorem pure (a : α) : Follows size scope (Pure.pure a) (Pure.pure a) :=
  fun s _ ↦ .ok a (.refl s)

theorem bind {f : α → Checked β} {g : α → Run β} (h : Follows size scope x y)
    (hf : ∀ a, Follows size scope (f a) (g a)) : Follows size scope (x >>= f) (y >>= g) := by
  intro s hs
  show EndsAlike s (EStateM.bind x f s) (EStateM.bind y g s.plain)
  unfold EStateM.bind
  have hends := h s hs
  generalize x s = r, y s.plain = r' at hends
  cases hends with
  | ok a hlater => exact (hf a _ (hs.later hlater)).of_later hlater
  | error failure t => exact .error failure t

theorem lift {y : Run α} (h : y.SlotFree) : Follows size scope (Checked.lift y) y := by
  intro s _
  have hplain : y s.plain = Run.withSlots s.plain.slots (y ⟨s.out, s.log, []⟩) :=
    h ⟨s.out, s.log, []⟩ s.plain.slots
  unfold Checked.lift
  rw [hplain]
  cases y ⟨s.out, s.log, []⟩ with
  | ok a after => exact .ok a ⟨rfl, fun _ h ↦ h⟩
  | error failure after => exact .error failure _

/-- A slot that is there is filled, and is filled for what follows. -/
theorem setSlot (h : Follows size (n :: scope) x y) (hn : n < size) (value : Value) :
    Follows size scope (do Checked.setSlot n value; x) (do Run.setSlot n value; y) := by
  intro s hs
  have hlt : n < s.slots.length := Nat.lt_of_lt_of_le hn hs.size_le
  have hset : (do Checked.setSlot n value; x) s = x (s.set n value) := by
    show EStateM.bind (Checked.setSlot n value) (fun _ ↦ x) s = _
    rw [EStateM.bind, Checked.setSlot, if_pos hlt]
    rfl
  have hplain : (do Run.setSlot n value; y) s.plain = y (s.set n value).plain := by
    rw [plain_set]
    rfl
  rw [hset, hplain]
  exact (h _ (hs.set hn value)).of_later (later_set s n value)

theorem separated (h : Follows size scope x y) (separator : String) (isFirst : Bool) :
    Follows size scope
      (if (!isFirst) = true then Checked.lift (Run.write separator) >>= fun _ ↦ x else x)
      (if (!isFirst) = true then Run.write separator >>= fun _ ↦ y else y) := by
  cases isFirst with
  | true => exact h
  | false => exact (Follows.lift (Run.slotFree_closed.write separator)).bind fun _ ↦ h

theorem slot (hn : n ∈ scope) : Follows size scope (Checked.slot n) (Run.slot n) := by
  intro s hs
  obtain ⟨value, hvalue⟩ := hs.isFilled n hn
  have hplain : s.plain.slots[n]? = some value := by
    rw [plain, List.getElem?_map, hvalue]
    rfl
  have hslot : Checked.slot n s = .ok value s := by rw [Checked.slot, hvalue]
  have hrun : Run.slot n s.plain = .ok value s.plain := by
    show EStateM.Result.ok (s.plain.slots[n]?.getD .null) s.plain = _
    rw [hplain]
    rfl
  rw [hslot, hrun]
  exact .ok value (.refl s)

/-- An accessor is read that starts from a slot of the scope. -/
theorem read {a : Accessor} (ha : a.base ∈ scope) :
    Follows size scope (Checked.read a) (Run.read a) := by
  induction a with
  | slot n => exact slot ha
  | property object name ih =>
    exact (ih ha).bind fun value ↦ .lift (Run.slotFree_readField object name value)

/-! ### Bodies -/

variable {context : RunContext}

theorem instructions {is : List Instruction}
    (h : ∀ i ∈ is, Follows size scope (Checked.instruction context i) (Run.instruction context i)) :
    Follows size scope (Checked.instructions context is) (Run.instructions context is) := by
  induction is with
  | nil => exact .pure ()
  | cons i is ih =>
    rw [List.forall_mem_cons] at h
    rw [Checked.instructions, Run.instructions]
    exact h.1.bind fun _ ↦ ih h.2

theorem firstCase {cases : List (BranchCase Instruction)}
    (h : ∀ case ∈ cases, Follows size scope (Checked.instructions context case.body)
      (Run.instructions context case.body)) (key : String) :
    Follows size scope (Checked.firstCase context key cases) (Run.firstCase context key cases) := by
  induction cases with
  | nil => exact .pure ()
  | cons case cases ih =>
    rw [List.forall_mem_cons] at h
    rw [Checked.firstCase, Run.firstCase]
    split
    · exact h.1
    · exact ih h.2

theorem branch {cases : List (BranchCase Instruction)} {a : Accessor} (ha : a.base ∈ scope)
    (h : ∀ case ∈ cases, Follows size scope (Checked.instructions context case.body)
      (Run.instructions context case.body)) (selector : Selector) :
    Follows size scope (Checked.instruction context (.branch a selector cases))
      (Run.instruction context (.branch a selector cases)) := by
  rw [Checked.instruction, Run.instruction]
  refine (read ha).bind fun value ↦ ?_
  refine (lift ((Run.slotFree_select context value selector).atAccessor a)).bind fun key ↦ ?_
  dsimp only
  cases Run.caseFor? (cases.map (·.key)) selector value key with
  | some key => exact firstCase h key
  | none => exact lift ((Run.slotFree_closed.throw _).atAccessor a)

variable {body : Checked Unit} {direct : Run Unit}

theorem forItems {item : Nat} (h : Follows size (item :: scope) body direct) (hitem : item < size)
    (separator : String) (isFirst : Bool) (items : List Value) :
    Follows size scope
      (forRounds separator [item] body isFirst (items.map fun value ↦ [value]))
      (Run.forItems separator (fun value ↦ do Run.setSlot item value; direct) isFirst items) := by
  induction items generalizing isFirst with
  | nil => exact .pure ()
  | cons value items ih =>
    rw [List.map_cons, forRounds, Run.forItems]
    refine separated ?_ separator isFirst
    have hround := (h.setSlot hitem value).bind fun _ ↦ ih false
    simpa only [fill, bind_assoc, pure_bind] using hround

theorem forEntries {key value : Nat} (h : Follows size (value :: key :: scope) body direct)
    (hkey : key < size) (hvalue : value < size) (separator : String) (isFirst : Bool)
    (entries : List (DictKey × Value)) :
    Follows size scope
      (forRounds separator [key, value] body isFirst
        (entries.map fun entry ↦ [.ofKey entry.1, entry.2]))
      (Run.forEntries separator
        (fun k v ↦ do Run.setSlot key (.ofKey k); Run.setSlot value v; direct)
        isFirst entries) := by
  induction entries generalizing isFirst with
  | nil => exact .pure ()
  | cons entry entries ih =>
    rw [List.map_cons, forRounds, Run.forEntries]
    refine separated ?_ separator isFirst
    have hround := ((h.setSlot hvalue entry.2).setSlot hkey (.ofKey entry.1)).bind fun _ ↦ ih false
    simpa only [fill, bind_assoc, pure_bind] using hround

theorem list {a : Accessor} {item : Nat} {is : List Instruction}
    (h : Follows size (item :: scope) (Checked.instructions context is)
      (Run.instructions context is)) (ha : a.base ∈ scope) (hitem : item < size)
    (separator : String) :
    Follows size scope (Checked.instruction context (.loop a .list [item] separator is))
      (Run.instruction context (.loop a .list [item] separator is)) := by
  rw [Checked.instruction, Run.instruction]
  refine (read ha).bind fun value ↦ ?_
  cases value with
  | list items => exact forItems h hitem separator true items
  | _ => exact fun s _ ↦ .error _ s

theorem dict {a : Accessor} {key value : Nat} {is : List Instruction}
    (h : Follows size (value :: key :: scope) (Checked.instructions context is)
      (Run.instructions context is)) (ha : a.base ∈ scope) (hkey : key < size)
    (hvalue : value < size) (separator : String) :
    Follows size scope (Checked.instruction context (.loop a .dict [key, value] separator is))
      (Run.instruction context (.loop a .dict [key, value] separator is)) := by
  rw [Checked.instruction, Run.instruction]
  refine (read ha).bind fun value ↦ ?_
  cases value with
  | dict entries => exact forEntries h hkey hvalue separator true entries
  | _ => exact fun s _ ↦ .error _ s

end Follows

/-! ## Well-scoped instructions -/

/-- The induction is on the rules of scopes. The slots that are filled inside are among those that
the instruction fills. -/
theorem follows_instruction {context : RunContext} {i : Instruction} (h : i.IsScoped scope)
    (hsize : ∀ n ∈ i.filled, n < size) :
    Follows size scope (instruction context i) (Run.instruction context i) := by
  induction h with
  | writeLiteral text =>
    rw [instruction, Run.instruction]
    exact .lift (Run.slotFree_closed.write text)
  | writeValue ha kind =>
    rw [instruction, Run.instruction]
    exact (Follows.read ha).bind fun value ↦
      .lift ((Run.slotFree_closed.writeValue _ kind value).atAccessor _)
  | writeKey ha =>
    rw [instruction, Run.instruction]
    exact (Follows.read ha).bind fun value ↦
      .lift ((Run.slotFree_closed.writeKey _ value).atAccessor _)
  | call formatter ha _ ih =>
    rw [Instruction.filled, List.forall_mem_cons, forall_mem_filledSlots] at hsize
    rw [instruction, Run.instruction]
    refine (Follows.read ha).bind fun value ↦ ?_
    refine (Follows.lift ((Run.slotFree_formatted context value formatter).atAccessor _)).bind ?_
    have hbody := Follows.instructions fun i hi ↦ ih i hi (hsize.2 i hi)
    exact fun made ↦ hbody.setSlot hsize.1 made
  | list separator ha _ ih =>
    rw [Instruction.filled, List.forall_mem_append, forall_mem_filledSlots,
      List.forall_mem_singleton] at hsize
    have hbody := Follows.instructions fun i hi ↦ ih i hi (hsize.2 i hi)
    exact hbody.list ha hsize.1 separator
  | dict separator ha _ ih =>
    rw [Instruction.filled, List.forall_mem_append, forall_mem_filledSlots,
      List.forall_mem_cons, List.forall_mem_singleton] at hsize
    have hbody := Follows.instructions fun i hi ↦ ih i hi (hsize.2 i hi)
    exact hbody.dict ha hsize.1.1 hsize.1.2 separator
  | branch selector ha _ ih =>
    rw [Instruction.filled, forall_mem_filledInCases] at hsize
    refine Follows.branch ha (fun case hcase ↦ .instructions fun i hi ↦ ?_) selector
    exact ih case hcase i hi (forall_mem_filledSlots.mp (hsize case hcase) i hi)
  | block _ ih =>
    rw [Instruction.filled, forall_mem_filledSlots] at hsize
    rw [instruction, Run.instruction]
    exact .instructions fun i hi ↦ ih i hi (hsize i hi)

end Checked

/-- A checked run of a well-scoped encoder comes to what the run comes to. -/
theorem Codec.IsScoped.checkedRun_eq {codec : Codec} (h : codec.IsScoped) (registry : Registry)
    (config : Config) (value : Value) :
    codec.checkedRun registry config value = some (codec.run registry config value) := by
  let start : CheckedState :=
    ⟨"", [], some value :: List.replicate (codec.slots - 1) none⟩
  have hplain : start.plain = ⟨"", [], value :: List.replicate (codec.slots - 1) .null⟩ := by
    simp only [CheckedState.plain, start, List.map_cons, List.map_replicate, Option.getD_some,
      Option.getD_none]
  have hstart : start.Serves codec.slots [0] := by
    refine ⟨?_, List.forall_mem_singleton.mpr ⟨value, rfl⟩⟩
    rw [List.length_cons, List.length_replicate]
    omega
  have hsize : ∀ i ∈ codec.instructions, ∀ n ∈ i.filled, n < codec.slots :=
    forall_mem_filledSlots.mp fun n hn ↦ (h.filled n hn).2
  let context : RunContext := ⟨registry, config⟩
  have hfollows : Checked.Follows codec.slots [0]
      (Checked.instructions context codec.instructions)
      (Run.instructions context codec.instructions) :=
    .instructions fun i hi ↦ Checked.follows_instruction (h.reads i hi) (hsize i hi)
  have hends := hfollows start hstart
  rw [hplain] at hends
  unfold Codec.checkedRun Codec.run
  dsimp only
  generalize Checked.instructions context codec.instructions start = r,
    Run.instructions context codec.instructions
      ⟨"", [], value :: List.replicate (codec.slots - 1) .null⟩ = r' at hends ⊢
  cases hends with
  | ok _ _ => rfl
  | error failure t => rfl

/-- Nothing fills the second slot. -/
example :
    let codec : Codec := ⟨[.writeValue (.slot 1) .mixed], 2⟩
    codec.checkedRun {} {} (.int 3) = none ∧ (codec.run {} {} (.int 3)).out = "null" :=
  ⟨rfl, rfl⟩

/-- The encoder has one slot. -/
example : (Codec.mk [.call (.dateTimeFormat none) .root 1 []] 1).checkedRun {} {} .null = none :=
  rfl

/-- **Encoders are well-scoped, before and after they are simplified.** No run of them reads a slot
that nothing has been put into, and none reads or fills a slot that is not there: with all of this
checked, it comes to the same. -/
theorem compile_isScoped (root : Node) (flags : JsonFlags) :
    let plain : Codec := ⟨(root.compile flags .root 1).1, (root.compile flags .root 1).2⟩
    let codec := compile root flags
    (plain.IsScoped ∧ codec.IsScoped) ∧
      ∀ (registry : Registry) (config : Config) (value : Value),
        plain.checkedRun registry config value = some (plain.run registry config value) ∧
        codec.checkedRun registry config value = some (codec.run registry config value) := by
  intro plain codec
  have hplain : plain.IsScoped := root.isScoped_compile flags
  have hcodec : codec.IsScoped := hplain.optimize
  refine ⟨⟨hplain, hcodec⟩, fun registry config value ↦ ⟨?_, ?_⟩⟩
  · exact hplain.checkedRun_eq registry config value
  · exact hcodec.checkedRun_eq registry config value

end TypedJson
