import TypedJson.Codec.Instruction
import TypedJson.Json.Scalar
import TypedJson.Registry.Basic
import TypedJson.Value.Resolved

/-!
# Running encoders

An encoder writes piece by piece, so that what was written before a failure is known. What it reads
of objects is logged.
-/

namespace TypedJson

/-- The state of a run. -/
structure RunState where
  /-- What has been written. -/
  out : String
  /-- What has been read, the last access first. -/
  log : List Access
  slots : List Value

/-- A step of a run. -/
abbrev Run (α : Type) : Type := EStateM Failure RunState α

/-- What a run works with. -/
structure RunContext where
  registry : Registry
  config : Config

namespace Run

/-- Writes a text. -/
def write (text : String) : Run Unit := modify fun state ↦ { state with out := state.out ++ text }

/-- A computation that logs what it reads. -/
def traced {α : Type} (computation : Traced α) : Run α := fun state ↦
  let (a, log) := computation state.log
  .ok a { state with log }

/-- A step whose failure is reported at an accessor. -/
def atAccessor {α : Type} (accessor : Accessor) (step : Run α) : Run α :=
  tryCatch step fun failure ↦ throw (failure.locate accessor.text)

/-- The value or the failure that was found. -/
def found {α : Type} : Except Failure α → Run α
  | .ok a => return a
  | .error failure => throw failure

/-- The value of a slot. -/
def slot (n : Nat) : Run Value := do return (← get).slots[n]?.getD .null

/-- Puts a value into a slot. -/
def setSlot (n : Nat) (value : Value) : Run Unit :=
  modify fun state ↦ { state with slots := state.slots.set n value }

/-- The value that an accessor names; a field that an object does not have is `null`. -/
def read : Accessor → Run Value
  | .slot n => slot n
  | .property base name => do
    match ← read base with
    | .object o =>
      let field ← atAccessor (.property base name) do found (← traced (o.read name))
      return field.getD .null
    | other => atAccessor base (throw (.unexpectedValue "object" other.kindName))

/-! ## Values -/

/-- The text of a double that is no number or infinite, as errors show it. -/
def oddFloatText (f : Float) : String := if f.isNaN then "NaN" else if f < 0 then "-inf" else "inf"

/-- Writes a double. -/
def writeFloat (flags : JsonFlags) (f : Float) : Run Unit :=
  match Json.floatText? flags f with
  | some text => write text
  | none => throw (.unexpectedValue "finite float" (oddFloatText f))

/-- Writes an object, given what writes its fields. -/
def writeObject (flags : JsonFlags) (o : ResolvedObject (Run Unit)) : Run Unit := do
  write "\x7b"
  writeFields true (← found (← traced o.read))
  write "\x7d"
where
  /-- Writes fields with commas between them. -/
  writeFields (isFirst : Bool) : List (String × Run Unit) → Run Unit
    | [] => return ()
    | (name, value) :: fields => do
      if !isFirst then write ","
      write (Json.quote flags name)
      write ":"
      value
      writeFields false fields

mutual

/-- Writes a value by what it is. -/
def writeResolved (config : Config) : Resolved → Run Unit
  | .null => write "null"
  | .bool b => write (if b then "true" else "false")
  | .int i => write (toString i.toInt)
  | .float f => writeFloat config.jsonFlags f
  | .string s => write (Json.quote config.jsonFlags s)
  | .list items => do
    write "["
    writeItems config true items
    write "]"
  | .dict entries => do
    write "\x7b"
    writeEntries config true entries
    write "\x7d"
  | .object o => writeObject config.jsonFlags (objectWriter config o)
  | .enum _ case => writeResolved config case
  | .dateTime t => do
    let text ← found ((t.write config.dateTimeFormat).mapError (.formatter "datetime.format"))
    write (Json.quote config.jsonFlags text)
termination_by structural value => value

/-- Writes items with commas between them. -/
def writeItems (config : Config) (isFirst : Bool) : List Resolved → Run Unit
  | [] => return ()
  | item :: items => do
    if !isFirst then write ","
    writeResolved config item
    writeItems config false items
termination_by structural items => items

/-- Writes entries with commas between them. -/
def writeEntries (config : Config) (isFirst : Bool) : List (DictKey × Resolved) → Run Unit
  | [] => return ()
  | (key, value) :: entries => do
    if !isFirst then write ","
    write (Json.quote config.jsonFlags key.text)
    write ":"
    writeResolved config value
    writeEntries config false entries
termination_by structural entries => entries

/-- An object with what writes its fields. -/
def objectWriter (config : Config) : ResolvedObject Resolved → ResolvedObject (Run Unit)
  | ⟨identity, className, declared, .ok slots⟩ =>
    ⟨identity, className, declared, .ok (slotWriters config slots)⟩
  | ⟨identity, className, declared, .error failure⟩ =>
    ⟨identity, className, declared, .error failure⟩
termination_by structural o => o

/-- Slots with what writes them. -/
def slotWriters (config : Config) : List (String × Except Failure Resolved) →
    List (String × Except Failure (Run Unit))
  | [] => []
  | (name, .ok value) :: slots =>
    (name, .ok (writeResolved config value)) :: slotWriters config slots
  | (name, .error failure) :: slots => (name, .error failure) :: slotWriters config slots
termination_by structural slots => slots

end

/-- Writes a scalar of a kind. An integer may stand for a float. -/
def writeScalar (flags : JsonFlags) : ScalarKind → Value → Run Unit
  | .int, .int i => write (toString i.toInt)
  | .float, .float f => writeFloat flags f
  | .float, .int i => writeFloat flags (Float.ofInt i.toInt)
  | .bool, .bool b => write (if b then "true" else "false")
  | .string, .string s => write (Json.quote flags s)
  | expected, found => throw (.unexpectedValue expected.name found.kindName)

/-- Writes a value. -/
def writeValue (config : Config) (kind : WriteKind) (value : Value) : Run Unit :=
  match kind, value with
  | .mixed, value => writeResolved config value.resolved
  | .enum backing, .enum _ case => writeScalar config.jsonFlags backing case
  | .enum backing, value => writeScalar config.jsonFlags backing value
  | .scalar kind, value => writeScalar config.jsonFlags kind value

/-- Writes a key. -/
def writeKey (flags : JsonFlags) : Value → Run Unit
  | .string key => write (Json.quote flags key)
  | .int key => write (Json.quote flags (toString key.toInt))
  | other => throw (.unexpectedValue "int or string key" other.kindName)

/-! ## Branches -/

/-- The shape of a value. -/
def shapeOf : Value → String
  | .object o => "object:" ++ o.className
  | .enum className _ => "enum:" ++ className
  | other => other.kindName

/-- The key of the case for a value. -/
def select (context : RunContext) (value : Value) : Selector → Run String
  | .null => return if value.isNull then "null" else "value"
  | .kind => return shapeOf value
  | .discriminator name =>
    match context.registry.discriminators.byName? name with
    | none => throw (.configuration (.unknownDiscriminator name))
    | some d => do
      match ← traced (d.select value) with
      | some key => return key
      | none => throw (.unexpectedValue s!"a member chosen by `{name}`" value.kindName)

/-- The key under which the case for a key is found: the key itself, or `float` for an integer that
has no case of its own. -/
def caseFor? (keys : List String) (selector : Selector) (value : Value) (key : String) :
    Option String :=
  if keys.contains key then some key
  else
    match selector, value with
    | .kind, .int _ => if keys.contains "float" then some "float" else none
    | _, _ => none

/-! ## Instructions -/

/-- A body for each item, with the separator between. -/
def forItems (separator : String) (body : Value → Run Unit) (isFirst : Bool) :
    List Value → Run Unit
  | [] => return ()
  | item :: items => do
    if !isFirst then write separator
    body item
    forItems separator body false items

/-- A body for each entry, with the separator between. -/
def forEntries (separator : String) (body : DictKey → Value → Run Unit) (isFirst : Bool) :
    List (DictKey × Value) → Run Unit
  | [] => return ()
  | (key, value) :: entries => do
    if !isFirst then write separator
    body key value
    forEntries separator body false entries

mutual

/-- Runs an instruction. -/
def instruction (context : RunContext) : Instruction → Run Unit
  | .writeLiteral text => write text
  | .writeValue accessor kind => do
    let value ← read accessor
    atAccessor accessor (writeValue context.config kind value)
  | .writeKey accessor => do
    let value ← read accessor
    atAccessor accessor (writeKey context.config.jsonFlags value)
  | .call formatter argument bind body => do
    let value ← read argument
    let made ← atAccessor argument do
      found (← traced (formatter.apply context.registry.formatters context.config value))
    setSlot bind made
    instructions context body
  | .loop iterable kind slots separator body => do
    match kind, ← read iterable with
    | .list, .list items =>
      forItems separator (fun item ↦ do
        setSlot (slots[0]?.getD 0) item
        instructions context body) true items
    | .dict, .dict entries =>
      forEntries separator (fun key value ↦ do
        setSlot (slots[0]?.getD 0) (.ofKey key)
        setSlot (slots[1]?.getD 0) value
        instructions context body) true entries
    | .list, other => atAccessor iterable (throw (.unexpectedValue "list" other.kindName))
    | .dict, other => atAccessor iterable (throw (.unexpectedValue "dict" other.kindName))
  | .branch accessor selector cases => do
    let value ← read accessor
    let key ← atAccessor accessor (select context value selector)
    let keys := cases.map (·.key)
    match caseFor? keys selector value key with
    | some key => firstCase context key cases
    | none => atAccessor accessor (throw (.unexpectedValue ("|".intercalate keys) key))
  | .block body => instructions context body
termination_by structural i => i

/-- Runs instructions one after another. -/
def instructions (context : RunContext) : List Instruction → Run Unit
  | [] => return ()
  | i :: rest => do
    instruction context i
    instructions context rest
termination_by structural is => is

/-- Runs the first case of a key. -/
def firstCase (context : RunContext) (key : String) : List (BranchCase Instruction) → Run Unit
  | [] => return ()
  | ⟨k, body⟩ :: cases => if k = key then instructions context body else firstCase context key cases
termination_by structural cases => cases

end

end Run

/-- What became of a run. -/
structure Written where
  /-- What was written, up to the failure if there is one. -/
  out : String
  failure : Option Failure
  /-- What was read, the last access first. -/
  log : List Access

/-- Writes a value. -/
def Codec.run (codec : Codec) (registry : Registry) (config : Config) (value : Value) : Written :=
  let slots := value :: List.replicate (codec.slots - 1) .null
  match Run.instructions ⟨registry, config⟩ codec.instructions ⟨"", [], slots⟩ with
  | .ok () state => ⟨state.out, none, state.log⟩
  | .error failure state => ⟨state.out, some failure, state.log⟩

/-- The text of a run that did not fail. -/
def Written.text (written : Written) : Except Failure String :=
  match written.failure with
  | none => .ok written.out
  | some failure => .error failure

/-- The text of a value. -/
def Codec.encode (codec : Codec) (registry : Registry) (config : Config) (value : Value) :
    Except Failure String :=
  (codec.run registry config value).text

end TypedJson
