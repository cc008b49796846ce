import TypedJson.Value.Access

/-!
# Resolved values

`Value.resolved` is what a value looks like once everything in it has been read: an object is what
its slots turn into, or the failure to find them. Writing a value of unknown type and comparing
values both work on this view. They ask an object for all its fields when they come to it, and log
that: a ghost is asked for the fields that it is declared to have, and an object that has been woken
by then for those of its slots.

Two objects are the same if they have one class and the same fields; the order of fields and of
dictionary entries does not count. Doubles are compared as numbers, with all NaNs alike, and points
in time as instants.
-/

namespace TypedJson

/-- An object without unread parts, over the values `α` of its fields. -/
structure ResolvedObject (α : Type) where
  identity : Identity
  className : String
  /-- The names of the fields that it is declared to have, for a ghost. -/
  declared : Option (List String)
  slots : Except Failure (List (String × Except Failure α))

/-- Whether a reading wakes a ghost with declared fields. -/
def Reading.wakes (declared : List String) : Reading → Bool
  | .wake | .field _ => true
  | .allFields => !declared.isEmpty

namespace ResolvedObject

/-- The names that the object is asked for after the accesses of a log. -/
def names {α : Type} (o : ResolvedObject α) (log : List Access) : List String :=
  let awake := (o.slots.toOption.map fun slots ↦ slots.map (·.1)).getD []
  match o.declared, o.slots with
  | none, _ => awake
  | some declared, .error _ => declared
  | some declared, .ok _ =>
    if log.any fun a ↦ decide (a.identity = o.identity) && a.reading.wakes declared then awake
    else declared.eraseDups

/-- The fields of the given names, as far as there are any, or the first failure among them. -/
def collect {α : Type} (slots : List (String × Except Failure α)) :
    List String → Except Failure (List (String × α))
  | [] => .ok []
  | name :: names =>
    match Entries.find? slots name with
    | none => collect slots names
    | some (.error failure) => .error failure
    | some (.ok value) => (collect slots names).map ((name, value) :: ·)

/-- All fields of the object, logged. -/
def read {α : Type} (o : ResolvedObject α) : Traced (Except Failure (List (String × α))) := do
  let names := o.names (← Traced.accesses)
  Traced.log o.identity .allFields
  match names, o.slots with
  | [], _ => return .ok []
  | names, .ok slots => return collect slots names
  | _, .error failure => return .error failure

end ResolvedObject

/-- A value without unread parts. -/
inductive Resolved where
  | null
  | bool (b : Bool)
  | int (i : Int64)
  | float (f : Float)
  | string (s : String)
  | list (items : List Resolved)
  | dict (entries : List (DictKey × Resolved))
  | object (o : ResolvedObject Resolved)
  | enum (className : String) (case : Resolved)
  | dateTime (t : DateTime)

mutual

/-- The value with everything read. -/
def Value.resolved : Value → Resolved
  | .null => .null
  | .bool b => .bool b
  | .int i => .int i
  | .float f => .float f
  | .string s => .string s
  | .list items => .list (resolvedItems items)
  | .dict entries => .dict (resolvedEntries entries)
  | .object o => .object (resolvedObject o)
  | .enum className case => .enum className case.resolved
  | .dateTime t => .dateTime t
termination_by structural value => value

/-- The items of a list with everything read. -/
def resolvedItems : List Value → List Resolved
  | [] => []
  | item :: items => item.resolved :: resolvedItems items
termination_by structural items => items

/-- The entries of a dictionary with everything read. -/
def resolvedEntries : List (DictKey × Value) → List (DictKey × Resolved)
  | [] => []
  | (key, value) :: entries => (key, value.resolved) :: resolvedEntries entries
termination_by structural entries => entries

/-- An object with everything read. -/
def resolvedObject : Object Value → ResolvedObject Resolved
  | ⟨identity, className, .ready slots⟩ =>
    ⟨identity, className, none, .ok (resolvedSlots slots)⟩
  | ⟨identity, className, .ghost declared _ (.ok slots)⟩ =>
    ⟨identity, className, some declared, .ok (resolvedSlots slots)⟩
  | ⟨identity, className, .ghost declared _ (.error failure)⟩ =>
    ⟨identity, className, some declared, .error failure⟩
termination_by structural o => o

/-- Slots with everything read. -/
def resolvedSlots : List (String × Slot Value) → List (String × Except Failure Resolved)
  | [] => []
  | (name, .initialized value) :: slots => (name, .ok value.resolved) :: resolvedSlots slots
  | (name, .pending _ (.ok value)) :: slots => (name, .ok value.resolved) :: resolvedSlots slots
  | (name, .pending _ (.error failure)) :: slots => (name, .error failure) :: resolvedSlots slots
termination_by structural slots => slots

end

/-- Equality of doubles as numbers, all NaNs being alike. -/
def sameFloat (a b : Float) : Bool := a == b || (a.isNaN && b.isNaN)

/-- Whether fields, each given as a comparison, have the same values as those of another object. -/
def sameFields (others : List (String × Resolved)) :
    List (String × (Resolved → Traced Bool)) → Traced Bool
  | [] => return true
  | (name, isSame) :: fields =>
    match Entries.find? others name with
    | some other => do if ← isSame other then sameFields others fields else return false
    | none => return false

mutual

/-- Whether two values are the same. -/
def Resolved.same : Resolved → Resolved → Traced Bool
  | .null, .null => return true
  | .bool a, .bool b => return a == b
  | .int a, .int b => return a == b
  | .float a, .float b => return sameFloat a b
  | .string a, .string b => return a == b
  | .list as, .list bs => if as.length = bs.length then sameItems as bs else return false
  | .dict as, .dict bs => if as.length = bs.length then sameEntries as bs else return false
  | .object o, .object p =>
    let o := comparedObject o
    if o.className = p.className then do
      let fields ← o.read
      let others ← p.read
      match fields, others with
      | .ok as, .ok bs => if as.length = bs.length then sameFields bs as else return false
      | _, _ => return false
    else return false
  | .enum c a, .enum d b => if c = d then a.same b else return false
  | .dateTime a, .dateTime b => return a.sameInstant b
  | _, _ => return false
termination_by structural value => value

/-- Whether two lists have the same items. -/
def sameItems : List Resolved → List Resolved → Traced Bool
  | [], [] => return true
  | a :: as, b :: bs => do if ← a.same b then sameItems as bs else return false
  | _, _ => return false
termination_by structural items => items

/-- Whether every entry has the same value under the same key of the other dictionary. -/
def sameEntries : List (DictKey × Resolved) → List (DictKey × Resolved) → Traced Bool
  | [], _ => return true
  | (key, a) :: as, bs =>
    match Entries.find? bs key with
    | some b => do if ← a.same b then sameEntries as bs else return false
    | none => return false
termination_by structural entries => entries

/-- An object whose fields are compared with other values. -/
def comparedObject : ResolvedObject Resolved → ResolvedObject (Resolved → Traced Bool)
  | ⟨identity, className, declared, .ok slots⟩ =>
    ⟨identity, className, declared, .ok (comparedSlots slots)⟩
  | ⟨identity, className, declared, .error failure⟩ =>
    ⟨identity, className, declared, .error failure⟩
termination_by structural o => o

/-- Slots that are compared with other values. -/
def comparedSlots : List (String × Except Failure Resolved) →
    List (String × Except Failure (Resolved → Traced Bool))
  | [] => []
  | (name, .ok value) :: slots => (name, .ok value.same) :: comparedSlots slots
  | (name, .error failure) :: slots => (name, .error failure) :: comparedSlots slots
termination_by structural slots => slots

end

namespace Value

/-- Whether two values are the same, with a log of what was read to find out. -/
def compare (a b : Value) : Traced Bool := a.resolved.same b.resolved

/-- Whether two values are the same. -/
def same (a b : Value) : Bool := (a.compare b []).1

end Value

/-! ## Resolving for good -/

mutual

/-- The value after everything in it has been read, as far as that succeeds, and the cost. -/
def Value.resolveDeep : Value → Value × Cost
  | .list items =>
    let (items, cost) := resolveItems items
    (.list items, cost)
  | .dict entries =>
    let (entries, cost) := resolveEntries entries
    (.dict entries, cost)
  | .enum className case =>
    let (case, cost) := case.resolveDeep
    (.enum className case, cost)
  | .object o =>
    let (o, cost) := resolveObject o
    (.object o, cost)
  | value => (value, 0)
termination_by structural value => value

/-- The items of a list after everything has been read. -/
def resolveItems : List Value → List Value × Cost
  | [] => ([], 0)
  | item :: items =>
    let (item, cost) := item.resolveDeep
    let (items, more) := resolveItems items
    (item :: items, cost + more)
termination_by structural items => items

/-- The entries of a dictionary after everything has been read. -/
def resolveEntries : List (DictKey × Value) → List (DictKey × Value) × Cost
  | [] => ([], 0)
  | (key, value) :: entries =>
    let (value, cost) := value.resolveDeep
    let (entries, more) := resolveEntries entries
    ((key, value) :: entries, cost + more)
termination_by structural entries => entries

/-- An object after everything has been read; a ghost that does not wake stays one. -/
def resolveObject : Object Value → Object Value × Cost
  | ⟨identity, className, .ready slots⟩ =>
    let (slots, cost) := resolveSlots slots
    (⟨identity, className, .ready slots⟩, cost)
  | ⟨identity, className, .ghost _ cost (.ok slots)⟩ =>
    let (slots, more) := resolveSlots slots
    (⟨identity, className, .ready slots⟩, cost + more)
  | ⟨identity, className, .ghost declared cost (.error failure)⟩ =>
    (⟨identity, className, .ghost declared cost (.error failure)⟩, cost)
termination_by structural o => o

/-- Slots after everything has been read; a slot that fails stays pending. -/
def resolveSlots : List (String × Slot Value) → List (String × Slot Value) × Cost
  | [] => ([], 0)
  | (name, .initialized value) :: slots =>
    let (value, cost) := value.resolveDeep
    let (slots, more) := resolveSlots slots
    ((name, .initialized value) :: slots, cost + more)
  | (name, .pending cost (.ok value)) :: slots =>
    let (value, inner) := value.resolveDeep
    let (slots, more) := resolveSlots slots
    ((name, .initialized value) :: slots, cost + inner + more)
  | (name, .pending cost (.error failure)) :: slots =>
    let (slots, more) := resolveSlots slots
    ((name, .pending cost (.error failure)) :: slots, cost + more)
termination_by structural slots => slots

end

end TypedJson
