import TypedJson.Value.Basic

/-!
# Reading and changing objects

Each operation on an object answers its result, the object afterwards and the cost. `Access` names
the operations that read, so that an evaluation can log what it read and the log can be replayed on
a value: `Value.settle` brings a value into the state in which the evaluation leaves it.
-/

namespace TypedJson

/-- The answer of an operation on an object. -/
structure Step (α : Type) where
  result : Except Failure α
  /-- The object afterwards. -/
  object : Object Value
  cost : Cost

namespace Object

/-- The slots of an object. A ghost wakes: it finds its slots out and is ready from then on, unless
that fails. -/
def wake (o : Object Value) : Step (Entries String (Slot Value)) :=
  match o.state with
  | .ready slots => ⟨.ok slots, o, 0⟩
  | .ghost _ cost (.ok slots) => ⟨.ok slots, { o with state := .ready slots }, cost⟩
  | .ghost _ cost (.error failure) => ⟨.error failure, o, cost⟩

/-- The value of a field, if the object has it. A pending slot is resolved, and keeps its value
unless that fails. -/
def get (o : Object Value) (name : String) : Step (Option Value) :=
  let begun := o.wake
  match begun.result with
  | .error failure => ⟨.error failure, begun.object, begun.cost⟩
  | .ok slots =>
    match Entries.find? slots name with
    | none => ⟨.ok none, begun.object, begun.cost⟩
    | some (.initialized value) => ⟨.ok (some value), begun.object, begun.cost⟩
    | some (.pending cost (.error failure)) =>
      ⟨.error failure, begun.object, begun.cost + cost⟩
    | some (.pending cost (.ok value)) =>
      ⟨.ok (some value),
        { begun.object with state := .ready (Entries.put slots name (.initialized value)) },
        begun.cost + cost⟩

/-- Puts a slot under a name. -/
def put (o : Object Value) (name : String) (slot : Slot Value) : Step Unit :=
  let begun := o.wake
  match begun.result with
  | .error failure => ⟨.error failure, begun.object, begun.cost⟩
  | .ok slots =>
    ⟨.ok (), { begun.object with state := .ready (Entries.put slots name slot) }, begun.cost⟩

/-- The values of fields, read one after another up to the first failure. -/
def getEach (o : Object Value) : List String → Step (Entries String Value)
  | [] => ⟨.ok [], o, 0⟩
  | name :: names =>
    let first := o.get name
    match first.result with
    | .error failure => ⟨.error failure, first.object, first.cost⟩
    | .ok value =>
      let others := first.object.getEach names
      ⟨others.result.map fun entries ↦
          match value with
          | some value => (name, value) :: entries
          | none => entries,
        others.object, first.cost + others.cost⟩

/-- The values of all fields that the object names at the start, in that order. -/
def resolveAll (o : Object Value) : Step (Entries String Value) :=
  o.getEach o.fieldNames.eraseDups

end Object

/-! ## Logs -/

/-- An operation that reads. -/
inductive Reading where
  | wake
  | field (name : String)
  | allFields
  deriving DecidableEq

/-- An operation on one object. -/
structure Access where
  identity : Identity
  reading : Reading
  deriving DecidableEq

/-- A computation that logs what it reads; the last access comes first. -/
abbrev Traced (α : Type) : Type := StateM (List Access) α

/-- What has been logged so far. -/
def Traced.accesses : Traced (List Access) := get

/-- Logs a reading of the object of an identity. -/
def Traced.log (identity : Identity) (reading : Reading) : Traced Unit :=
  modify (⟨identity, reading⟩ :: ·)

namespace Object

/-- The value of a field, logged. -/
def read (o : Object Value) (name : String) : Traced (Except Failure (Option Value)) := do
  Traced.log o.identity (.field name)
  return (o.get name).result

/-- The object and the cost after a reading. -/
def after (o : Object Value) : Reading → Object Value × Cost
  | .wake => (o.wake.object, o.wake.cost)
  | .field name => ((o.get name).object, (o.get name).cost)
  | .allFields => (o.resolveAll.object, o.resolveAll.cost)

/-- The object in the state in which the accesses so far leave it. -/
def now (o : Object Value) : Traced (Object Value) := do
  return (← Traced.accesses).foldr (fun access o ↦
    if access.identity = o.identity then (o.after access.reading).1 else o) o

end Object

/-! ## Changing objects inside a value

An object can be inside another only where that one has been read, so pending slots and ghosts are
left alone. -/

mutual

/-- The value with `change` applied to every object, innermost first, and the costs added up. -/
def Value.alter (change : Object Value → Object Value × Cost) : Value → Value × Cost
  | .list items =>
    let (items, cost) := alterItems change items
    (.list items, cost)
  | .dict entries =>
    let (entries, cost) := alterEntries change entries
    (.dict entries, cost)
  | .enum className case =>
    let (case, cost) := case.alter change
    (.enum className case, cost)
  | .object o =>
    let (o, cost) := alterObject change o
    let (o, more) := change o
    (.object o, cost + more)
  | value => (value, 0)
termination_by structural value => value

/-- The items of a list with `change` applied. -/
def alterItems (change : Object Value → Object Value × Cost) :
    List Value → List Value × Cost
  | [] => ([], 0)
  | item :: items =>
    let (item, cost) := item.alter change
    let (items, more) := alterItems change items
    (item :: items, cost + more)
termination_by structural items => items

/-- The entries of a dictionary with `change` applied. -/
def alterEntries (change : Object Value → Object Value × Cost) :
    List (DictKey × Value) → List (DictKey × Value) × Cost
  | [] => ([], 0)
  | (key, value) :: entries =>
    let (value, cost) := value.alter change
    let (entries, more) := alterEntries change entries
    ((key, value) :: entries, cost + more)
termination_by structural entries => entries

/-- An object with `change` applied inside its fields. -/
def alterObject (change : Object Value → Object Value × Cost) :
    Object Value → Object Value × Cost
  | ⟨identity, className, .ready slots⟩ =>
    let (slots, cost) := alterSlots change slots
    (⟨identity, className, .ready slots⟩, cost)
  | o => (o, 0)
termination_by structural o => o

/-- Slots with `change` applied. -/
def alterSlots (change : Object Value → Object Value × Cost) :
    List (String × Slot Value) → List (String × Slot Value) × Cost
  | [] => ([], 0)
  | (name, .initialized value) :: slots =>
    let (value, cost) := value.alter change
    let (slots, more) := alterSlots change slots
    ((name, .initialized value) :: slots, cost + more)
  | (name, .pending cost outcome) :: slots =>
    let (slots, more) := alterSlots change slots
    ((name, .pending cost outcome) :: slots, more)
termination_by structural slots => slots

end

namespace Value

/-- The value with `change` applied to the object of an identity. -/
def alterAt (value : Value) (identity : Identity)
    (change : Object Value → Object Value × Cost) : Value × Cost :=
  value.alter fun o ↦ if o.identity = identity then change o else (o, 0)

/-- The value after one access. -/
def accessed (value : Value) (access : Access) : Value × Cost :=
  value.alterAt access.identity (·.after access.reading)

/-- The value after the accesses of a log, and what they cost. -/
def settle (value : Value) (log : List Access) : Value × Cost :=
  log.foldr (fun access (value, cost) ↦
    let (value, more) := value.accessed access
    (value, cost + more)) (value, 0)

end Value

end TypedJson
