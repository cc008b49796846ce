import TypedJson.DataType.Basic
import TypedJson.Json.Document

/-!
# Types as JSON

The structure of a type as a JSON value: a kind, which names its variant, and whether `null` is
accepted. A type is nested in a document at least as deep as in the type around it, so the depth to
which documents are read bounds the recursion of the reader.
-/

namespace TypedJson

open Json (Reader)

namespace DataType

/-! ## Writing -/

mutual

/-- The JSON value of a type. -/
def toJson : DataType → Json
  | mk kind nullable => .dict [("kind", kindToJson kind), ("nullable", .bool nullable)]

/-- The JSON value of a kind. -/
def kindToJson : TypeKind DataType → Json
  | .scalar kind => .dict [("Scalar", .string kind.name)]
  | .null => .string "Null"
  | .mixed => .string "Mixed"
  | .list item => .dict [("List", toJson item)]
  | .dict key value => .dict [("Dict", .dict [("key", toJson key), ("value", toJson value)])]
  | .object className generics =>
    .dict [("Object",
      .dict [("class", .string className), ("generics", .list (allToJson generics))])]
  | .enum className backing =>
    .dict [("Enum", .dict [("class", .string className), ("backing", .string backing.name)])]
  | .union members => .dict [("Union", .list (allToJson members))]
  | .template name => .dict [("Template", .string name)]

/-- The JSON values of several types. -/
def allToJson : List DataType → List Json
  | [] => []
  | t :: types => toJson t :: allToJson types

end

end DataType

/-! ## Reading -/

/-- A scalar kind by name. -/
def ScalarKind.reader : Reader ScalarKind :=
  Reader.variant (ScalarKind.byName.map fun (name, kind) ↦ (name, .bare kind))

namespace DataType

/-- The kind of a type, given how the types of its parts are read. -/
def kindReader (type : Reader DataType) : Reader (TypeKind DataType) :=
  Reader.variant [
    ("Scalar", .value (ScalarKind.reader.map .scalar)),
    ("Null", .bare .null),
    ("Mixed", .bare .mixed),
    ("List", .value (type.map .list)),
    ("Dict", .value ((Reader.pair "key" type mixed "value" type mixed).map
      fun (key, value) ↦ .dict key value)),
    ("Object", .value ((Reader.pair "class" Reader.string "" "generics" (Reader.list type) []).map
      fun (className, generics) ↦ .object className generics)),
    ("Enum", .value ((Reader.pair "class" Reader.string "" "backing" ScalarKind.reader .int).map
      fun (className, backing) ↦ .enum className backing)),
    ("Union", .value ((Reader.list type).map .union)),
    ("Template", .value (Reader.string.map .template))]

/-- A type with at most `fuel` types inside each other. -/
def readerAt : Nat → Reader DataType
  | 0 => fun _ path _ ↦ .error path
  | fuel + 1 =>
    (Reader.pair "kind" (kindReader (readerAt fuel)) .mixed "nullable" Reader.bool false).map
      fun (kind, nullable) ↦ mk kind nullable

/-- A type. -/
def reader : Reader DataType := readerAt (Json.nesting + 1)

end DataType

end TypedJson
