import TypedJson.Json.Document
import TypedJson.Model.Node
import TypedJson.Registry.Document

/-!
# The data model as JSON

Stored artifacts hold nodes as JSON values. A node is nested in a document at least as deep as in
its parent node, so the depth to which documents are read bounds the recursion of the reader.
-/

namespace TypedJson

open Json (Reader)

/-! ## Writing -/

/-- The JSON value of an accessor of a property. -/
def PropertyAccessor.toJson : PropertyAccessor → Json
  | field name => .dict [("Field", .string name)]
  | computed => .string "Computed"

/-- The JSON value of a reference to a formatter. -/
def FormatterRef.toJson : FormatterRef → Json
  | named name => .dict [("Named", .string name)]
  | dateTimeFormat pattern => .dict [("DateTimeFormat", .ofOption .string pattern)]
  | dateTimeParse pattern => .dict [("DateTimeParse", .ofOption .string pattern)]

mutual

/-- The JSON value of a node. -/
def Node.toJson : Node → Json
  | .scalar kind => .dict [("Scalar", .string kind.name)]
  | .null => .string "Null"
  | .mixed => .string "Mixed"
  | .nullable inner => .dict [("Nullable", inner.toJson)]
  | .list item => .dict [("List", item.toJson)]
  | .dict key item => .dict [("Dict", .dict [("key", .string key.name), ("item", item.toJson)])]
  | .object className properties =>
    .dict [("Object",
      .dict [("class", .string className), ("properties", .list (propertiesToJson properties))])]
  | .union candidates discriminator =>
    .dict [("Union",
      .dict [
        ("candidates", .list (candidatesToJson candidates)),
        ("discriminator", .ofOption .string discriminator)])]
  | .enum className backing =>
    .dict [("Enum", .dict [("class", .string className), ("backing", .string backing.name)])]
  | .dateTime pattern => .dict [("DateTime", .dict [("format", .ofOption .string pattern)])]
termination_by structural node => node

/-- The JSON values of properties. -/
def propertiesToJson : List (PropertyNode Node) → List Json
  | [] => []
  | ⟨sourceName, encodedName, accessor, formatters, node⟩ :: properties =>
    .dict [
      ("source_name", .string sourceName),
      ("encoded_name", .string encodedName),
      ("accessor", accessor.toJson),
      ("formatters", .list (formatters.map FormatterRef.toJson)),
      ("node", node.toJson)] :: propertiesToJson properties
termination_by structural properties => properties

/-- The JSON values of candidates. -/
def candidatesToJson : List (Candidate Node) → List Json
  | [] => []
  | ⟨key, shape, node⟩ :: candidates =>
    .dict [
      ("key", .string key),
      ("shape", .ofOption .string shape),
      ("node", node.toJson)] :: candidatesToJson candidates
termination_by structural candidates => candidates

end

/-! ## Reading -/

/-- An accessor of a property. -/
def PropertyAccessor.reader : Reader PropertyAccessor :=
  Reader.variant [("Field", .value (Reader.string.map .field)), ("Computed", .bare .computed)]

/-- A reference to a formatter. -/
def FormatterRef.reader : Reader FormatterRef :=
  Reader.variant [
    ("Named", .value (Reader.string.map .named)),
    ("DateTimeFormat", .value ((Reader.option Reader.string).map .dateTimeFormat)),
    ("DateTimeParse", .value ((Reader.option Reader.string).map .dateTimeParse))]

/-- A property, given how its node is read. -/
def PropertyNode.reader (node : Reader Node) : Reader (PropertyNode Node) :=
  Reader.record
    { fields := [
        ("source_name", Reader.string.set fun v p ↦ { p with sourceName := v }),
        ("encoded_name", Reader.string.set fun v p ↦ { p with encodedName := v }),
        ("accessor", PropertyAccessor.reader.set fun v p ↦ { p with accessor := v }),
        ("formatters", (Reader.list FormatterRef.reader).set fun v p ↦ { p with formatters := v }),
        ("node", node.set fun v p ↦ { p with node := v })]
      required := ["source_name", "encoded_name", "accessor", "formatters", "node"] }
    ⟨"", "", .computed, [], .null⟩

/-- A candidate, given how its node is read. -/
def Candidate.reader (node : Reader Node) : Reader (Candidate Node) :=
  Reader.record
    { fields := [
        ("key", Reader.string.set fun v c ↦ { c with key := v }),
        ("shape", (Reader.option Reader.string).set fun v c ↦ { c with shape := v }),
        ("node", node.set fun v c ↦ { c with node := v })]
      required := ["key", "node"]
      listed := ["key", "shape", "node"] }
    ⟨"", none, .null⟩

/-- A union without its name, given how nodes are read. -/
def Node.unionReader (node : Reader Node) : Reader Node :=
  (Reader.record
    { fields := [
        ("candidates", (Reader.list (Candidate.reader node)).set fun v d ↦ (v, d.2)),
        ("discriminator", (Reader.option Reader.string).set fun v d ↦ (d.1, v))]
      required := ["candidates"]
      listed := ["candidates", "discriminator"] }
    (([], none) : List (Candidate Node) × Option String)).map
    fun (candidates, discriminator) ↦ .union candidates discriminator

/-- A point in time without its name. -/
def Node.dateTimeReader : Reader Node :=
  (Reader.record
    { fields := [("format", (Reader.option Reader.string).set fun v _ ↦ v)]
      required := []
      listed := ["format"] }
    (none : Option String)).map .dateTime

/-- A node with at most `fuel` nodes inside each other. -/
def Node.readerAt : Nat → Reader Node
  | 0 => fun _ path _ ↦ .error path
  | fuel + 1 =>
    let node := Node.readerAt fuel
    Reader.variant [
      ("Scalar", .value (ScalarKind.reader.map .scalar)),
      ("Null", .bare .null),
      ("Mixed", .bare .mixed),
      ("Nullable", .value (node.map .nullable)),
      ("List", .value (node.map .list)),
      ("Dict", .value ((Reader.pair "key" ScalarKind.reader .int "item" node .null).map
        fun (key, item) ↦ .dict key item)),
      ("Object", .value ((Reader.pair "class" Reader.string "" "properties"
        (Reader.list (PropertyNode.reader node)) []).map
        fun (className, properties) ↦ .object className properties)),
      ("Union", .value (Node.unionReader node)),
      ("Enum", .value ((Reader.pair "class" Reader.string "" "backing" ScalarKind.reader .int).map
        fun (className, backing) ↦ .enum className backing)),
      ("DateTime", .value Node.dateTimeReader)]

/-- A node. -/
def Node.reader : Reader Node := Node.readerAt (Json.nesting + 1)

end TypedJson
