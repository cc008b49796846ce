import TypedJson.Decode.Walk
import TypedJson.Proofs.Json.Parsed

/-!
# Converting parsed values

What a decoder is meant to do with a text, as a conversion of the value that the text was parsed to.
The conversion follows the data model and the value and knows nothing of bytes and windows, but for
the offset of a value that is no container where one is expected, and for the literal of a number,
which tells a float from an integer.

* Items and entries are converted in their order. A repeated key keeps its first place and takes
  the last value that is converted.
* Properties are converted in their order in the class, each from the last entry of its name.
* A failed item, entry or field is left out if its failure can be collected, and ends the conversion
  otherwise.
-/

namespace TypedJson

/-- A conversion: the failures collected so far, and a value or the failure that ends it. -/
abbrev Conversion (α : Type) : Type := EStateM Failure (List Failure) α

/-- How the value of a part is converted. -/
structure Converter where
  /-- Whether the part may be missing and is `null` then. -/
  acceptsNull : Bool
  convert : Parsed → Place → Conversion Value

namespace Parsed

/-- Whether the value is `null`. -/
def isNull : Parsed → Bool
  | scalar _ _ .null => true
  | _ => false

/-- The kind of the value. A number is an integer if its literal has neither a fraction nor an
exponent, however large it is. -/
def shape : Parsed → String
  | scalar _ literal (.number _) => if literal.any Window.isFractional then "float" else "int"
  | scalar _ _ value => value.kindName
  | list _ _ => "array"
  | dict _ _ => "object"

end Parsed

namespace Conversion

variable {α : Type}

/-- The value or the failure that was found. -/
def found : Except Failure α → Conversion α
  | .ok a => return a
  | .error failure => throw failure

/-- A conversion whose failure is reported at a place. -/
def locate (place : Place) (step : Conversion α) : Conversion α :=
  tryCatch step fun failure ↦ throw (failure.locate place.text)

/-- A value, or nothing if the conversion fails and its failure can be collected. -/
def orCollect (collects : Bool) (step : Conversion α) : Conversion (Option α) :=
  tryCatch (some <$> step) fun failure ↦
    if collects && failure.isRecoverable then do
      modify (· ++ [failure])
      return none
    else throw failure

/-- The value of a part, with failures reported at its place. -/
def value (part : Converter) (tree : Parsed) (place : Place) : Conversion Value :=
  locate place (part.convert tree place)

/-! ## Containers -/

/-- The items of a list from index `i` on. -/
def items (collects : Bool) (item : Converter) (place : Place) (i : Nat) :
    List Parsed → Conversion (List Value)
  | [] => return []
  | tree :: trees => do
    let first ← orCollect collects (value item tree (.item i :: place))
    let others ← items collects item place (i + 1) trees
    return match first with
      | some first => first :: others
      | none => others

/-- The entry of a dictionary. -/
def entry (kind : ScalarKind) (item : Converter) (place : Place) (key : String) (tree : Parsed) :
    Conversion (DictKey × Value) :=
  let here := PlaceStep.entry key :: place
  locate here do
    let k ← found (DictKey.ofText kind key)
    return (k, ← value item tree here)

/-- The entries of a dictionary, put after those already converted. -/
def entries (collects : Bool) (kind : ScalarKind) (item : Converter) (place : Place) :
    List (String × Parsed) → Entries DictKey Value → Conversion (Entries DictKey Value)
  | [], done => return done
  | (key, tree) :: trees, done => do
    match ← orCollect collects (entry kind item place key tree) with
    | some (key, value) => entries collects kind item place trees (done.put key value)
    | none => entries collects kind item place trees done

/-! ## Objects -/

/-- The value after a formatter. -/
def format (context : DecodeContext) (v : Value) (ref : FormatterRef) : Conversion Value := do
  let (made, log) := ref.apply context.registry.formatters context.config v []
  return ((← found made).settle log).1

/-- The value of a property, after its formatters from the last to the first. Formatters do not see
`null`. -/
def field (context : DecodeContext) (p : PropertyNode Converter) (tree : Parsed) (place : Place) :
    Conversion Value := do
  let v ← value p.node tree place
  if v.isNull then return v
  else locate place (p.formatters.reverse.foldlM (format context) v)

/-- The conversions of properties, put after those already there. A property that is missing is
`null` if it may be, and is left out otherwise. -/
def fieldSteps (context : DecodeContext) (place : Place) (trees : List (String × Parsed)) :
    List (PropertyNode Converter) → Entries String (Conversion Value) →
      Entries String (Conversion Value)
  | [], steps => steps
  | p :: properties, steps =>
    fieldSteps context place trees properties
      (match Entries.find? trees.reverse p.encodedName with
        | some tree =>
          steps.put p.sourceName
            (field context p tree (.property p.sourceName p.encodedName :: place))
        | none => if p.node.acceptsNull then steps.put p.sourceName (return .null) else steps)

/-- The fields whose conversions succeed. -/
def fields (collects : Bool) : Entries String (Conversion Value) →
    Conversion (List (String × Slot Value))
  | [] => return []
  | (name, step) :: steps => do
    let value ← orCollect collects step
    let others ← fields collects steps
    return match value with
      | some value => (name, .initialized value) :: others
      | none => others

/-- The object of a class. -/
def object (context : DecodeContext) (className : String)
    (properties : List (PropertyNode Converter)) (tree : Parsed) (place : Place) :
    Conversion (Object Value) := do
  let trees ← locate place (found tree.entries)
  let slots ← fields context.config.collectErrors (fieldSteps context place trees properties [])
  return ⟨.decoded place, className, .ready slots⟩

/-! ## Unions, enumerations and dates -/

/-- The member of a union that a value is of. -/
def choose {ν : Type} (registry : Registry) (candidates : List (Candidate ν))
    (discriminator : Option String) (tree : Parsed) : Conversion (Candidate ν) :=
  let refuse (expected : List String) (seen : String) : Conversion (Candidate ν) :=
    throw (.unexpectedValue ("|".intercalate expected) seen)
  match discriminator with
  | some name =>
    match registry.discriminators.byName? name with
    | none => throw (.configuration (.unknownDiscriminator name))
    | some d =>
      let raw := Value.ofJson tree.json
      match (d.select raw []).1 with
      | none => refuse (candidates.map (·.key)) raw.kindName
      | some key =>
        match candidates.find? fun c ↦ decide (c.key = key) with
        | some c => return c
        | none => refuse (candidates.map (·.key)) key
  | none =>
    let ofShape (shape : String) := candidates.find? fun c ↦ decide (c.shape = some shape)
    match ofShape tree.shape <|> (if tree.shape = "int" then ofShape "float" else none) with
    | some c => return c
    | none => refuse (candidates.filterMap (·.shape)) tree.shape

/-- The scalar of a kind that a value is. -/
def scalar (kind : ScalarKind) (tree : Parsed) : Conversion Value := found (kind.ofJson tree.json)

/-- The case of an enumeration that a value is. -/
def enumCase (registry : Registry) (className : String) (backing : ScalarKind) (tree : Parsed) :
    Conversion Value :=
  match Entries.find? registry.enums className with
  | none => throw (.configuration (.unknownClass className))
  | some e => do
    let case ← scalar backing tree
    let value ←
      match case with
      | .int i => pure (Json.int i)
      | .string s => pure (.string s)
      | other => throw (.unexpectedValue backing.name other.kindName)
    if e.accepts value then return .enum className case
    else throw (.unexpectedValue s!"case of {className}" value.compact)

end Conversion

/-! ## Nodes -/

open Conversion

mutual

/-- The value of a node for a parsed value. -/
def Node.convert (context : DecodeContext) : Node → Parsed → Place → Conversion Value
  | .scalar kind => fun tree _ ↦ scalar kind tree
  | .null => fun tree _ ↦
    match tree.json with
    | .null => return .null
    | other => throw (.unexpectedValue "null" other.kindName)
  | .mixed => fun tree _ ↦ return .ofJson tree.json
  | .nullable inner =>
    let inner : Converter := ⟨inner.acceptsNull, inner.convert context⟩
    fun tree place ↦ if tree.isNull then return .null else value inner tree place
  | .list item =>
    let item : Converter := ⟨item.acceptsNull, item.convert context⟩
    fun tree place ↦ do
      return .list (← items context.config.collectErrors item place 0 (← found tree.items))
  | .dict key item =>
    let item : Converter := ⟨item.acceptsNull, item.convert context⟩
    fun tree place ↦ do
      return .dict (← entries context.config.collectErrors key item place (← found tree.entries) [])
  | .object className properties =>
    let properties := propertyConverters context properties
    fun tree place ↦ do return .object (← object context className properties tree place)
  | .union candidates discriminator =>
    let candidates := candidateConverters context candidates
    fun tree place ↦ do
      let chosen ← choose context.registry candidates discriminator tree
      value chosen.node tree place
  | .enum className backing => fun tree _ ↦ enumCase context.registry className backing tree
  | .dateTime pattern => fun tree _ ↦ do
    format context (← scalar .string tree) (.dateTimeParse pattern)
termination_by structural node => node

/-- Properties with converters in place of nodes. -/
def propertyConverters (context : DecodeContext) :
    List (PropertyNode Node) → List (PropertyNode Converter)
  | [] => []
  | ⟨sourceName, encodedName, accessor, formatters, node⟩ :: properties =>
    ⟨sourceName, encodedName, accessor, formatters, ⟨node.acceptsNull, node.convert context⟩⟩ ::
      propertyConverters context properties
termination_by structural properties => properties

/-- Candidates with converters in place of nodes. -/
def candidateConverters (context : DecodeContext) :
    List (Candidate Node) → List (Candidate Converter)
  | [] => []
  | ⟨key, shape, node⟩ :: candidates =>
    ⟨key, shape, ⟨node.acceptsNull, node.convert context⟩⟩ ::
      candidateConverters context candidates
termination_by structural candidates => candidates

end

/-- The value for a parsed value and the failures that were collected, or the failure that ended the
conversion. -/
def Node.decodeParsed (root : Node) (context : DecodeContext) (tree : Parsed) :
    Except Failure (Value × List Failure) :=
  match locate [] (root.convert context tree []) [] with
  | .ok value errors => .ok (value, errors)
  | .error failure _ => .error failure

end TypedJson
