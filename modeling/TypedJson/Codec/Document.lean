import TypedJson.Codec.Instruction
import TypedJson.Model.Document

/-!
# Artifacts as JSON

Artifacts are stored as JSON documents. A document that is not an artifact, in whatever way, is not
read at all.
-/

namespace TypedJson

open Json (Reader)

/-! ## Writing -/

/-- The JSON value of an accessor. -/
def Accessor.toJson : Accessor → Json
  | slot n => .dict [("Local", .nat n)]
  | property base name =>
    .dict [("Property", .dict [("base", base.toJson), ("name", .string name)])]

/-- The JSON value of a way of writing. -/
def WriteKind.toJson : WriteKind → Json
  | scalar kind => .dict [("Scalar", .string kind.name)]
  | enum backing => .dict [("Enum", .string backing.name)]
  | mixed => .string "Mixed"

/-- The name of what a loop runs over. -/
def LoopKind.name : LoopKind → String
  | list => "List"
  | dict => "Dict"

/-- The JSON value of a selector. -/
def Selector.toJson : Selector → Json
  | null => .string "Null"
  | discriminator name => .dict [("Discriminator", .string name)]
  | kind => .string "Kind"

mutual

/-- The JSON value of an instruction. -/
def Instruction.toJson : Instruction → Json
  | .writeLiteral text => .dict [("WriteLiteral", .string text)]
  | .writeValue accessor kind =>
    .dict [("WriteValue", .dict [("accessor", accessor.toJson), ("kind", kind.toJson)])]
  | .writeKey accessor => .dict [("WriteKey", .dict [("accessor", accessor.toJson)])]
  | .call formatter argument bind body =>
    .dict [("Call",
      .dict [
        ("formatter", formatter.toJson),
        ("argument", argument.toJson),
        ("bind", .nat bind),
        ("body", .list (instructionsToJson body))])]
  | .loop iterable kind slots separator body =>
    .dict [("Loop",
      .dict [
        ("iterable", iterable.toJson),
        ("kind", .string kind.name),
        ("locals", .list (slots.map .nat)),
        ("separator", .string separator),
        ("body", .list (instructionsToJson body))])]
  | .branch accessor selector cases =>
    .dict [("Branch",
      .dict [
        ("accessor", accessor.toJson),
        ("selector", selector.toJson),
        ("cases", .list (casesToJson cases))])]
  | .block body => .dict [("Block", .list (instructionsToJson body))]
termination_by structural instruction => instruction

/-- The JSON values of instructions. -/
def instructionsToJson : List Instruction → List Json
  | [] => []
  | instruction :: instructions => instruction.toJson :: instructionsToJson instructions
termination_by structural instructions => instructions

/-- The JSON values of cases. -/
def casesToJson : List (BranchCase Instruction) → List Json
  | [] => []
  | ⟨key, body⟩ :: cases =>
    .dict [("key", .string key), ("body", .list (instructionsToJson body))] :: casesToJson cases
termination_by structural cases => cases

end

/-- The JSON value of an encoder. -/
def Codec.toJson (codec : Codec) : Json :=
  .dict [
    ("instructions", .list (instructionsToJson codec.instructions)),
    ("locals", .nat codec.slots)]

/-- The JSON value of an artifact. -/
def Artifact.toJson : Artifact → Json
  | encoder codec => .dict [("Encoder", codec.toJson)]
  | decoder root => .dict [("Decoder", .dict [("root", root.toJson)])]

/-! ## Reading -/

/-- A number of 64 bits. -/
def Json.Reader.word : Reader Nat := Reader.natural (UInt64.size - 1)

/-- A record of one value. -/
def Json.Reader.single {α : Type} (name : String) (r : Reader α) (a : α) : Reader α :=
  Reader.record { fields := [(name, r.set fun v _ ↦ v)], required := [name] } a

/-- An accessor with at most `fuel` accessors inside each other. -/
def Accessor.readerAt : Nat → Reader Accessor
  | 0 => fun _ path _ ↦ .error path
  | fuel + 1 =>
    Reader.variant [
      ("Local", .value (Reader.word.map .slot)),
      ("Property", .value
        ((Reader.pair "base" (Accessor.readerAt fuel) .root "name" Reader.string "").map
          fun (base, name) ↦ .property base name))]

/-- An accessor. -/
def Accessor.reader : Reader Accessor := Accessor.readerAt (Json.nesting + 1)

/-- A way of writing. -/
def WriteKind.reader : Reader WriteKind :=
  Reader.variant [
    ("Scalar", .value (ScalarKind.reader.map .scalar)),
    ("Enum", .value (ScalarKind.reader.map .enum)),
    ("Mixed", .bare .mixed)]

/-- What a loop runs over. -/
def LoopKind.reader : Reader LoopKind :=
  Reader.variant [("List", .bare .list), ("Dict", .bare .dict)]

/-- A selector. -/
def Selector.reader : Reader Selector :=
  Reader.variant [
    ("Null", .bare .null),
    ("Discriminator", .value (Reader.string.map .discriminator)),
    ("Kind", .bare .kind)]

/-- The parts of a formatter call. -/
structure CallParts where
  formatter : FormatterRef
  argument : Accessor
  bind : Nat
  body : List Instruction

/-- A formatter call without its name, given how bodies are read. -/
def CallParts.reader (body : Reader (List Instruction)) : Reader CallParts :=
  Reader.record
    { fields := [
        ("formatter", FormatterRef.reader.set fun v c ↦ { c with formatter := v }),
        ("argument", Accessor.reader.set fun v c ↦ { c with argument := v }),
        ("bind", Reader.word.set fun v c ↦ { c with bind := v }),
        ("body", body.set fun v c ↦ { c with body := v })]
      required := ["formatter", "argument", "bind", "body"] }
    ⟨.named "", .root, 0, []⟩

/-- The parts of a loop. -/
structure LoopParts where
  iterable : Accessor
  kind : LoopKind
  slots : List Nat
  separator : String
  body : List Instruction

/-- A loop without its name, given how bodies are read. -/
def LoopParts.reader (body : Reader (List Instruction)) : Reader LoopParts :=
  Reader.record
    { fields := [
        ("iterable", Accessor.reader.set fun v l ↦ { l with iterable := v }),
        ("kind", LoopKind.reader.set fun v l ↦ { l with kind := v }),
        ("locals", (Reader.list Reader.word).set fun v l ↦ { l with slots := v }),
        ("separator", Reader.string.set fun v l ↦ { l with separator := v }),
        ("body", body.set fun v l ↦ { l with body := v })]
      required := ["iterable", "kind", "locals", "separator", "body"] }
    ⟨.root, .list, [], "", []⟩

/-- The parts of a branch. -/
structure BranchParts where
  accessor : Accessor
  selector : Selector
  cases : List (BranchCase Instruction)

/-- A branch without its name, given how bodies are read. -/
def BranchParts.reader (body : Reader (List Instruction)) : Reader BranchParts :=
  Reader.record
    { fields := [
        ("accessor", Accessor.reader.set fun v b ↦ { b with accessor := v }),
        ("selector", Selector.reader.set fun v b ↦ { b with selector := v }),
        ("cases",
          (Reader.list ((Reader.pair "key" Reader.string "" "body" body []).map
            fun (key, body) ↦ BranchCase.mk key body)).set fun v b ↦ { b with cases := v })]
      required := ["accessor", "selector", "cases"] }
    ⟨.root, .null, []⟩

/-- An instruction with at most `fuel` instructions inside each other. -/
def Instruction.readerAt : Nat → Reader Instruction
  | 0 => fun _ path _ ↦ .error path
  | fuel + 1 =>
    let body := Reader.list (Instruction.readerAt fuel)
    Reader.variant [
      ("WriteLiteral", .value (Reader.string.map .writeLiteral)),
      ("WriteValue", .value
        ((Reader.pair "accessor" Accessor.reader .root "kind" WriteKind.reader .mixed).map
          fun (accessor, kind) ↦ .writeValue accessor kind)),
      ("WriteKey", .value ((Reader.single "accessor" Accessor.reader .root).map .writeKey)),
      ("Call", .value ((CallParts.reader body).map
        fun c ↦ .call c.formatter c.argument c.bind c.body)),
      ("Loop", .value ((LoopParts.reader body).map
        fun l ↦ .loop l.iterable l.kind l.slots l.separator l.body)),
      ("Branch", .value ((BranchParts.reader body).map
        fun b ↦ .branch b.accessor b.selector b.cases)),
      ("Block", .value (body.map .block))]

/-- An instruction. -/
def Instruction.reader : Reader Instruction := Instruction.readerAt (Json.nesting + 1)

/-- An encoder. -/
def Codec.reader : Reader Codec :=
  (Reader.pair "instructions" (Reader.list Instruction.reader) [] "locals" Reader.word 0).map
    fun (instructions, slots) ↦ ⟨instructions, slots⟩

/-- An artifact. -/
def Artifact.reader : Reader Artifact :=
  Reader.variant [
    ("Encoder", .value (Codec.reader.map .encoder)),
    ("Decoder", .value ((Reader.single "root" Node.reader .null).map .decoder))]

/-- The artifact that is stored in a file. -/
def Artifact.ofBytes? (bytes : List UInt8) : Option Artifact := Artifact.reader.runAll? bytes

/-- The bytes of the file that stores an artifact. -/
def Artifact.toBytes (artifact : Artifact) : List UInt8 := Utf8.encode artifact.toJson.compact

end TypedJson
