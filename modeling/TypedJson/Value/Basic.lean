import TypedJson.DateTime.Calendar
import TypedJson.Entries
import TypedJson.Error
import TypedJson.Json.Basic
import TypedJson.Value.Place

/-!
# Values

Values are what encoders write and decoders produce. The fields of an object may be unresolved: a
`Slot` is then `pending`, and an object none of whose slots is known yet is a `ghost`. What a
pending slot or a ghost will turn into is part of the value, together with the cost of finding out;
resolving it replaces it in the tree and is paid once, failing to resolve it is paid every time.

An object has an identity. A value that appears at several places, because a formatter took it out
of another value, shows up as several objects with one identity, and resolving one of them resolves
all of them.
-/

namespace TypedJson

/-- What resolving costs. -/
structure Cost where
  /-- Providers and initializers run. -/
  runs : Nat := 0
  /-- Reads of the text. -/
  reads : Nat := 0
  deriving DecidableEq

namespace Cost

instance : Add Cost := ⟨fun a b ↦ ⟨a.runs + b.runs, a.reads + b.reads⟩⟩

instance : Zero Cost := ⟨{}⟩

end Cost

/-- A field of an object. -/
inductive Slot (α : Type) where
  | initialized (value : α)
  /-- A field that has not been read yet. -/
  | pending (cost : Cost) (outcome : Except Failure α)

/-- What is known of an object. -/
inductive ObjectState (α : Type) where
  /-- Nothing but the names of fields that the object is declared to have. -/
  | ghost (declared : List String) (cost : Cost)
      (outcome : Except Failure (List (String × Slot α)))
  /-- The slots, under distinct names. -/
  | ready (slots : List (String × Slot α))

/-- What tells objects apart. -/
inductive Identity where
  /-- The object at a place of a text. -/
  | decoded (place : Place)
  /-- An object made otherwise. -/
  | made (n : Nat)
  deriving DecidableEq

/-- An object. -/
structure Object (α : Type) where
  identity : Identity
  className : String
  state : ObjectState α

/-- A key of a dictionary. -/
inductive DictKey where
  | int (i : Int64)
  | string (s : String)
  deriving DecidableEq

/-- The text of a key. -/
def DictKey.text : DictKey → String
  | int i => toString i.toInt
  | string s => s

/-- A value. The keys of a dictionary are distinct. -/
inductive Value where
  | null
  | bool (b : Bool)
  | int (i : Int64)
  | float (f : Float)
  | string (s : String)
  | list (items : List Value)
  | dict (entries : List (DictKey × Value))
  | object (o : Object Value)
  | enum (className : String) (case : Value)
  | dateTime (t : DateTime)

instance : Inhabited Value := ⟨.null⟩

namespace Value

/-- The kind of a value, as errors name it. -/
def kindName : Value → String
  | null => "null"
  | bool _ => "bool"
  | int _ => "int"
  | float _ => "float"
  | string _ => "string"
  | list _ => "list"
  | dict _ => "dict"
  | object _ => "object"
  | enum _ _ => "enum"
  | dateTime _ => "datetime"

/-- Whether the value is `null`. -/
def isNull : Value → Bool
  | null => true
  | _ => false

/-- The value of a dictionary key. -/
def ofKey : DictKey → Value
  | .int i => int i
  | .string s => string s

/-- The value of a number: an integer of 64 bits if it is one, and otherwise a double. -/
def ofNumber (n : Number) : Value :=
  match n.toInt64? with
  | some i => int i
  | none => float n.toFloat

mutual

/-- The value of a JSON value. -/
def ofJson : Json → Value
  | .null => null
  | .bool b => bool b
  | .number n => ofNumber n
  | .string s => string s
  | .list items => list (ofJsonItems items)
  | .dict entries => dict (ofJsonEntries entries)

/-- The values of the items of a list. -/
def ofJsonItems : List Json → List Value
  | [] => []
  | item :: items => ofJson item :: ofJsonItems items

/-- The values of the entries of a dictionary. -/
def ofJsonEntries : List (String × Json) → List (DictKey × Value)
  | [] => []
  | (key, value) :: entries => (.string key, ofJson value) :: ofJsonEntries entries

end

end Value

namespace Object

/-- Whether nothing has been read of the object. -/
def isGhost {α : Type} (o : Object α) : Bool :=
  match o.state with
  | .ghost _ _ _ => true
  | .ready _ => false

/-- The names of the fields, without reading anything: the declared names of a ghost. -/
def fieldNames {α : Type} (o : Object α) : List String :=
  match o.state with
  | .ghost declared _ _ => declared
  | .ready slots => slots.map (·.1)

/-- Whether a field has been read or set. -/
def isInitialized {α : Type} (o : Object α) (name : String) : Bool :=
  match o.state with
  | .ghost _ _ _ => false
  | .ready slots =>
    match Entries.find? slots name with
    | some (.initialized _) => true
    | _ => false

end Object

end TypedJson
