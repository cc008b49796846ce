import TypedJson.Decode.Leaf
import TypedJson.Decode.Object
import TypedJson.Split.Container

/-!
# Reading values of a data model

A decoder walks the data model and the text together: containers are split into windows, and leaves
are read from their windows. `Node.read` is the reader of a node; it is built from the readers of
its parts, which is where a property or a candidate of a union carries a `Plan` in place of a node.

A failure is reported at the innermost place. In a list, a dictionary or an object, a failed part is
left out if its error can be collected.
-/

namespace TypedJson

/-- How the value of a part is read. -/
structure Plan where
  /-- Whether the part may be missing and is `null` then. -/
  acceptsNull : Bool
  read : Window → Place → Decode Value

/-- What decoding works with. -/
structure DecodeContext where
  registry : Registry
  config : Config

namespace Decode

/-- The value of a part in a window, with failures reported at its place. -/
def value (part : Plan) (w : Window) (place : Place) : Decode Value :=
  locate place (part.read w place)

/-- The members of the container in a window. -/
def members {κ : Type} (c : Container κ) (w : Window) :
    Decode (List (Except Failure (Member κ))) := do
  look w
  found (c.split w)

/-- The items of a list from index `i` on. -/
def items (item : Plan) (place : Place) (i : Nat) :
    List (Except Failure (Member Unit)) → Decode (List Value)
  | [] => return []
  | member :: rest => do
    let here := PlaceStep.item i :: place
    let first ← orRecord (locate here do value item (← found member).value here)
    let others ← items item place (i + 1) rest
    return match first with
      | some first => first :: others
      | none => others

/-- The entries of a dictionary, put after those already read. -/
def entries (kind : ScalarKind) (item : Plan) (place : Place) :
    List (Except Failure (Member String)) → Entries DictKey Value →
      Decode (Entries DictKey Value)
  | [], done => return done
  | .error failure :: rest, done => do
    record (failure.locate place.text)
    entries kind item place rest done
  | .ok member :: rest, done => do
    let here := PlaceStep.entry member.key :: place
    let entry ← orRecord (locate here do
      let key ← found (DictKey.ofText kind member.key)
      return (key, ← value item member.value here))
    entries kind item place rest
      (match entry with
        | some (key, value) => Entries.put done key value
        | none => done)

/-! ## Objects -/

/-- The value after a formatter, in the state in which the formatter leaves it. -/
def format (context : DecodeContext) (v : Value) (ref : FormatterRef) : Decode Value := do
  let (made, log) := ref.apply context.registry.formatters context.config v []
  pay (v.settle log).2
  return ((← found made).settle log).1

/-- The value of a property, after its formatters from the text to the class. Formatters do not see
`null`. -/
def field (context : DecodeContext) (p : PropertyNode Plan) (w : Window) (place : Place) :
    Decode Value := do
  let v ← value p.node w place
  if v.isNull then return v
  else locate place (p.formatters.reverse.foldlM (format context) v)

/-- The windows of the values in a dictionary by key, the last one first. -/
def windows (place : Place) :
    List (Except Failure (Member String)) → List (String × Window) →
      Decode (List (String × Window))
  | [], done => return done
  | .error failure :: rest, done => do
    record (failure.locate place.text)
    windows place rest done
  | .ok member :: rest, done => windows place rest ((member.key, member.value) :: done)

/-- The steps that read the properties of an object, put after those already there. A property that
is missing in the text is `null` if it may be, and is left out otherwise. -/
def fieldSteps (context : DecodeContext) (place : Place) (texts : List (String × Window)) :
    List (PropertyNode Plan) → FieldSteps → FieldSteps
  | [], steps => steps
  | p :: properties, steps =>
    fieldSteps context place texts properties
      (match Entries.find? texts p.encodedName with
        | some w =>
          Entries.put steps p.sourceName
            (field context p w (PlaceStep.property p.sourceName p.encodedName :: place))
        | none =>
          if p.node.acceptsNull then Entries.put steps p.sourceName (return .null) else steps)

/-- Finds the properties of the object in a window. -/
def loadFields (context : DecodeContext) (properties : List (PropertyNode Plan)) (w : Window)
    (place : Place) : Decode FieldSteps := do
  let found ← locate place (members .dict w)
  return fieldSteps context place (← windows place found []) properties []

end Decode

/-! ## Nodes -/

open Decode

mutual

/-- The value of a node in a window. -/
def Node.read (context : DecodeContext) : Node → Window → Place → Decode Value
  | .scalar kind => fun w _ ↦ scalar kind w
  | .null => fun w _ ↦ do
    match ← json w with
    | .null => return .null
    | other => throw (.unexpectedValue "null" other.kindName)
  | .mixed => fun w _ ↦ do return .ofJson (← json w)
  | .nullable inner =>
    let inner : Plan := ⟨inner.acceptsNull, inner.read context⟩
    fun w place ↦ do
      look w
      if w.looksNull then return .null else value inner w place
  | .list item =>
    let item : Plan := ⟨item.acceptsNull, item.read context⟩
    fun w place ↦ do return .list (← items item place 0 (← members .list w))
  | .dict key item =>
    let item : Plan := ⟨item.acceptsNull, item.read context⟩
    fun w place ↦ do return .dict (← entries key item place (← members .dict w) [])
  | .object className properties =>
    let properties := propertyPlans context properties
    let layout := properties.map fun p ↦ (p.sourceName, p.encodedName)
    fun w place ↦ do
      return .object (← makeObject context.config.lazy (.decoded place) className layout
        (loadFields context properties w place))
  | .union candidates discriminator =>
    let candidates := candidatePlans context candidates
    fun w place ↦ do
      let chosen ← choose context.registry candidates discriminator w
      value chosen.node w place
  | .enum className backing => fun w _ ↦ enumCase context.registry className backing w
  | .dateTime pattern => fun w _ ↦ do
    format context (← scalar .string w) (.dateTimeParse pattern)
termination_by structural node => node

/-- Properties with plans in place of nodes. -/
def propertyPlans (context : DecodeContext) : List (PropertyNode Node) → List (PropertyNode Plan)
  | [] => []
  | ⟨sourceName, encodedName, accessor, formatters, node⟩ :: properties =>
    ⟨sourceName, encodedName, accessor, formatters, ⟨node.acceptsNull, node.read context⟩⟩ ::
      propertyPlans context properties
termination_by structural properties => properties

/-- Candidates with plans in place of nodes. -/
def candidatePlans (context : DecodeContext) : List (Candidate Node) → List (Candidate Plan)
  | [] => []
  | ⟨key, shape, node⟩ :: candidates =>
    ⟨key, shape, ⟨node.acceptsNull, node.read context⟩⟩ :: candidatePlans context candidates
termination_by structural candidates => candidates

end

/-- The plan of a node. -/
def Node.plan (context : DecodeContext) (node : Node) : Plan :=
  ⟨node.acceptsNull, node.read context⟩

/-! ## Texts -/

/-- What a text was decoded to. -/
structure Decoded where
  value : Value
  /-- The errors that were collected. -/
  errors : List Failure
  /-- What decoding has cost. -/
  cost : Cost

/-- Decodes a text, and answers the shapes of classes that are known afterwards. -/
def Node.decode (root : Node) (registry : Registry) (config : Config) (shapes : GhostShapes)
    (bytes : List UInt8) : Except Failure Decoded × GhostShapes :=
  let step := Decode.value (root.plan ⟨registry, config⟩) (Window.whole bytes) []
  match step { collector := { isEnabled := config.collectErrors }, shapes } with
  | .ok value state => (.ok ⟨value, state.collector.take.1, state.cost⟩, state.shapes)
  | .error failure state => (.error failure, state.shapes)

end TypedJson
