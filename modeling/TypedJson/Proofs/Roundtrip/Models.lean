import Mathlib.Data.List.Nodup
import TypedJson.Model.Builder
import TypedJson.Proofs.Metadata.Load
import TypedJson.Proofs.Roundtrip.Values

/-!
# What data models look like

`Models` says which nodes stand for a type, without mentioning how they are built: nothing is
remembered, and a class is its declared fields. It covers registries without formatters for
properties and without limits on depth, and options without hooks and groups, for which a property
is written as it is declared, apart from its name and from points in time, which become strings.
-/

namespace TypedJson

open DataType

/-! ## Properties -/

/-- The property that stands for a field of a class. -/
def Property.shown (r : Registry) (config : Config) (direction : Direction) (className : String)
    (bindings : Entries String DataType) (field : String × DataType) : Property :=
  let p := Stage.asText ⟨className, direction, r, config, {}⟩
    { Property.plain field.1 field.2 with
      encodedName := Stage.renamed (r.propertyDirectives className field.1) field.1 }
  { p with type := p.type.substitute bindings }

/-- The property with a node for its type. -/
def Property.toNode {ν : Type} (p : Property) (node : ν) : PropertyNode ν :=
  ⟨p.sourceName, p.encodedName, p.accessor, p.formatters, node⟩

/-! ## Unions -/

/-- The candidate of a member of a union. -/
def memberCandidate (direction : Direction) (member : DataType × Node) : Candidate Node :=
  ⟨member.1.text, member.2.shape? direction, member.2⟩

/-- The node that stands for the members of a union. -/
def StandsForUnion (direction : Direction) (node : Node) : List (DataType × Node) → Prop
  | [member] => node = member.2
  | members => ∃ discriminator,
    node = .union (members.map (memberCandidate direction)) discriminator ∧
      (discriminator = none → shapesDistinct (members.map fun m ↦ m.2.shape? direction) = true)

theorem StandsForUnion.of_length_ne_one {direction : Direction} {node : Node}
    {members : List (DataType × Node)} (h : StandsForUnion direction node members)
    (hlen : members.length ≠ 1) : ∃ discriminator,
      node = .union (members.map (memberCandidate direction)) discriminator ∧
        (discriminator = none →
          shapesDistinct (members.map fun m ↦ m.2.shape? direction) = true) := by
  match members with
  | [] => exact h
  | [_] => exact absurd rfl hlen
  | _ :: _ :: _ => exact h

/-! ## Types -/

/-- The node stands for the type in a direction. -/
inductive Models (r : Registry) (config : Config) (direction : Direction) : DataType → Node → Prop
  | null (nullable : Bool) : Models r config direction (mk .null nullable) .null
  | mixed (nullable : Bool) : Models r config direction (mk .mixed nullable) .mixed
  | scalar (kind : ScalarKind) (nullable : Bool) :
    Models r config direction (mk (.scalar kind) nullable) (nullableNode nullable (.scalar kind))
  | list {item : DataType} {node : Node} (nullable : Bool)
    (h : Models r config direction item node) :
    Models r config direction (mk (.list item) nullable) (nullableNode nullable (.list node))
  | dict {kind : ScalarKind} {item : DataType} {node : Node} (nullable : Bool)
    (h : Models r config direction item node) :
    Models r config direction (mk (.dict (.scalar kind) item) nullable)
      (nullableNode nullable (.dict kind node))
  | dateTime {className : String} (generics : List DataType) (nullable : Bool)
    (hclass : className ∈ dateTimeClasses) :
    Models r config direction (mk (.object className generics) nullable)
      (nullableNode nullable (.dateTime config.dateTimeFormat))
  | object {className : String} {generics : List DataType} {bindings : Entries String DataType}
    {fields : List ((String × DataType) × Node)} (nullable : Bool)
    (hclass : className ∉ dateTimeClasses)
    (hbindings : r.bindings className generics = .ok bindings)
    (hfields : r.fields className = .ok (fields.map (·.1)))
    (h : ∀ field ∈ fields, Models r config direction
      (Property.shown r config direction className bindings field.1).type field.2) :
    Models r config direction (mk (.object className generics) nullable)
      (nullableNode nullable (.object className (fields.map fun field ↦
        (Property.shown r config direction className bindings field.1).toNode field.2)))
  | enum {className : String} {e : EnumDescriptor} (nullable : Bool)
    (he : r.findEnum className = .ok e) :
    Models r config direction (mk (.enum className e.backing) nullable)
      (nullableNode nullable (.enum className e.backing))
  | union {types : List DataType} {members : List (DataType × Node)} {node : Node}
    (hleaf : ∀ t ∈ types, IsLeaf t)
    (hmembers : members.map (·.1) = types.filter fun t ↦ !t.isNull)
    (h : ∀ m ∈ members, Models r config direction m.1 m.2)
    (hnode : StandsForUnion direction node members) :
    Models r config direction (mk (.union types) (types.any isNull))
      (if types.any isNull && !node.acceptsNull then .nullable node else node)

/-- A class that accepts `null` as well. -/
theorem Models.nullable {r : Registry} {config : Config} {direction : Direction}
    {className : String} {generics : List DataType} {node : Node}
    (h : Models r config direction (mk (.object className generics) false) node) (nullable : Bool) :
    Models r config direction (mk (.object className generics) nullable)
      (nullableNode nullable node) := by
  cases h with
  | dateTime _ _ hclass => exact .dateTime generics nullable hclass
  | object _ hclass hbindings hfields h => exact .object nullable hclass hbindings hfields h

end TypedJson
