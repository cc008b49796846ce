import TypedJson.Property

/-!
# The data model

A `Node` is a type worked out for one direction: every class is replaced by its properties, every
name by what it stands for. Encoders are compiled from nodes, and decoders walk them.
-/

namespace TypedJson

/-- A property of an object, over the nodes `ν`. -/
structure PropertyNode (ν : Type) where
  sourceName : String
  encodedName : String
  accessor : PropertyAccessor
  formatters : List FormatterRef
  node : ν

/-- A member of a union, over the nodes `ν`. -/
structure Candidate (ν : Type) where
  /-- The canonical text of the member, which discriminators answer with. -/
  key : String
  /-- The shape by which the member is recognised; nothing if any value could be one. -/
  shape : Option String
  node : ν

/-- A node of the data model. -/
inductive Node where
  | scalar (kind : ScalarKind)
  | null
  | mixed
  | nullable (inner : Node)
  | list (item : Node)
  | dict (key : ScalarKind) (item : Node)
  | object (className : String) (properties : List (PropertyNode Node))
  | union (candidates : List (Candidate Node)) (discriminator : Option String)
  | enum (className : String) (backing : ScalarKind)
  | dateTime (pattern : Option String)

namespace Node

/-- Whether the node itself accepts `null`. -/
def acceptsNull : Node → Bool
  | null | mixed | nullable _ => true
  | _ => false

/-- The shape by which values of the node are recognised without a discriminator. Reading sees JSON
only; writing sees values, so that classes and enumerations are told apart. -/
def shape? (direction : Direction) : Node → Option String
  | scalar kind => some kind.name
  | null => some "null"
  | mixed => none
  | nullable inner => inner.shape? direction
  | list _ =>
    match direction with
    | .encode => some "list"
    | .decode => some "array"
  | dict _ _ =>
    match direction with
    | .encode => some "dict"
    | .decode => some "object"
  | object className _ =>
    match direction with
    | .encode => some ("object:" ++ className)
    | .decode => some "object"
  | union _ _ => none
  | enum className backing =>
    match direction with
    | .encode => some ("enum:" ++ className)
    | .decode => some backing.name
  | dateTime _ =>
    match direction with
    | .encode => some "datetime"
    | .decode => some "string"

end Node

/-- Whether every shape is known and no two are the same. -/
def shapesDistinct : List (Option String) → Bool
  | [] => true
  | none :: _ => false
  | some shape :: shapes => !shapes.contains (some shape) && shapesDistinct shapes

end TypedJson
