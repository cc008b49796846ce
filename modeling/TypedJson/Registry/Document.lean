import TypedJson.DataType.Document
import TypedJson.Json.Document
import TypedJson.Json.Printer
import TypedJson.Registry.Basic

/-!
# Registries as documents

Classes and enumerations can be given as a JSON document. The same form, written without blanks, is
what a registry feeds to a hash, together with its formatters and discriminators.
-/

namespace TypedJson

open Json (Reader)

/-! ## Reading -/

/-- The greatest depth of a directive. -/
def Directive.maxDepthReader : Reader (Nat × Option String) :=
  Reader.record
    { fields := [
        ("max", (Reader.natural (UInt64.size - 1)).set fun v d ↦ (v, d.2)),
        ("formatter", (Reader.option Reader.string).set fun v d ↦ (d.1, v))]
      required := ["max"]
      listed := ["max", "formatter"] }
    (0, none)

/-- A directive. -/
def Directive.reader : Reader Directive :=
  Reader.variant [
    ("Rename", .value (Reader.string.map .rename)),
    ("EncodeFormatter", .value (Reader.string.map .encodeFormatter)),
    ("DecodeFormatter", .value (Reader.string.map .decodeFormatter)),
    ("Groups", .value ((Reader.list Reader.string).map .groups)),
    ("MaxDepth", .value (maxDepthReader.map fun (max, formatter) ↦ .maxDepth max formatter)),
    ("Warmable", .bare .warmable)]

/-- A declared property. -/
def PropertyDescriptor.reader : Reader PropertyDescriptor :=
  Reader.record
    { fields := [
        ("ty", Reader.string.set fun v p ↦ { p with type := v }),
        ("directives", (Reader.list Directive.reader).set fun v p ↦ { p with directives := v })]
      required := ["ty"] }
    ⟨"", []⟩

/-- A class. -/
def ClassDescriptor.reader : Reader ClassDescriptor :=
  Reader.record
    { fields := [
        ("name", Reader.string.set fun v c ↦ { c with name := v }),
        ("templates", (Reader.list Reader.string).set fun v c ↦ { c with templates := v }),
        ("properties",
          (Reader.dict PropertyDescriptor.reader).set fun v c ↦ { c with properties := v }),
        ("directives", (Reader.list Directive.reader).set fun v c ↦ { c with directives := v })]
      required := ["name"] }
    ⟨"", [], [], []⟩

/-- An enumeration. -/
def EnumDescriptor.reader : Reader EnumDescriptor :=
  Reader.record
    { fields := [
        ("name", Reader.string.set fun v e ↦ { e with name := v }),
        ("backing", ScalarKind.reader.set fun v e ↦ { e with backing := v }),
        ("cases", (Reader.dict Reader.json).set fun v e ↦ { e with cases := v })]
      required := ["name", "backing", "cases"] }
    ⟨"", .int, []⟩

/-- The classes and enumerations of a document, as far as their form goes. -/
def Registry.reader : Reader (List ClassDescriptor × List EnumDescriptor) :=
  Reader.record
    { fields := [
        ("classes", (Reader.list ClassDescriptor.reader).set fun v d ↦ (v, d.2)),
        ("enums", (Reader.list EnumDescriptor.reader).set fun v d ↦ (d.1, v))]
      required := []
      strict := true }
    ([], [])

/-- The registry of a document at the start of a text. -/
def Registry.ofText (text : String) : Except ConfigError Registry :=
  match Registry.reader.run text with
  | .ok (classes, enums) => .ok (enums.foldl addEnum (classes.foldl addClass {}))
  | .error path => .error (.unreadable path.text)

/-! ## Writing -/

/-- The JSON value of a directive. -/
def Directive.toJson : Directive → Json
  | rename name => .dict [("Rename", .string name)]
  | encodeFormatter name => .dict [("EncodeFormatter", .string name)]
  | decodeFormatter name => .dict [("DecodeFormatter", .string name)]
  | groups names => .dict [("Groups", .strings names)]
  | maxDepth max formatter =>
    .dict [("MaxDepth",
      .dict [("max", .nat max), ("formatter", .ofOption .string formatter)])]
  | warmable => .string "Warmable"

/-- The JSON value of several directives. -/
def Directive.allToJson (directives : List Directive) : Json := .list (directives.map toJson)

/-- The JSON value of a declared property. -/
def PropertyDescriptor.toJson (p : PropertyDescriptor) : Json :=
  .dict [("ty", .string p.type), ("directives", Directive.allToJson p.directives)]

/-- The JSON value of a class. -/
def ClassDescriptor.toJson (c : ClassDescriptor) : Json :=
  .dict [
    ("name", .string c.name),
    ("templates", .strings c.templates),
    ("properties", .dict (c.properties.map fun (name, p) ↦ (name, p.toJson))),
    ("directives", Directive.allToJson c.directives)]

/-- The JSON value of an enumeration. -/
def EnumDescriptor.toJson (e : EnumDescriptor) : Json :=
  .dict [("name", .string e.name), ("backing", .string e.backing.name), ("cases", .dict e.cases)]

/-- The JSON value of a parameter or a result. -/
def SignatureType.toJson : SignatureType → Json
  | value type => .dict [("Value", type.toJson)]
  | void => .string "Void"
  | never => .string "Never"

/-- The JSON value of a signature. -/
def Signature.toJson (s : Signature) : Json :=
  let receiver :=
    match s.receiver with
    | .static => "Static"
    | .bound => "Bound"
  .dict [
    ("receiver", .string receiver),
    ("params", .list (s.params.map SignatureType.toJson)),
    ("returns", s.returns.toJson)]

namespace Registry

/-- The bytes that a registry feeds to a hash. -/
def feed (r : Registry) : List UInt8 :=
  r.classes.flatMap (fun (_, c) ↦ Fingerprint.text c.toJson.compact) ++
    r.enums.flatMap (fun (_, e) ↦ Fingerprint.text e.toJson.compact) ++
    r.formatters.flatMap (fun (_, f) ↦
      Fingerprint.text f.name ++ Fingerprint.text f.signature.toJson.compact) ++
    r.discriminators.flatMap fun (union, d) ↦
      Fingerprint.text union ++ Fingerprint.text d.name

/-- The hash of every definition that can change an artifact. -/
def fingerprint (r : Registry) : UInt64 := Fingerprint.hash r.feed

end Registry

end TypedJson
