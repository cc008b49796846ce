import TypedJson.Decimal.Integer
import TypedJson.Decode.State
import TypedJson.Json.Printer
import TypedJson.Json.Tree
import TypedJson.Model.Node
import TypedJson.Registry.Basic
import TypedJson.Split.Scan

/-!
# Leaves

A window that is not split is read as one JSON value. Which kind of value a window holds can be told
from its first byte, numbers apart, which are integers unless they are written with a fraction or an
exponent.
-/

namespace TypedJson

/-- The kind of a JSON value, as errors name it. -/
def Json.kindName : Json → String
  | null => "null"
  | bool _ => "bool"
  | number (.float _) => "float"
  | number _ => "int"
  | string _ => "string"
  | list _ => "array"
  | dict _ => "object"

namespace Window

/-- How many characters of a text are shown in an error. -/
def excerptSize : Nat := 32

/-- The text of a window as errors show it. -/
def excerpt (w : Window) : String :=
  let text := Text.trimChars (Utf8.decodeLossy w.bytes).toList
  if text.length ≤ excerptSize then String.ofList text
  else String.ofList (text.take excerptSize) ++ "..."

/-- A byte of a number with a fraction or an exponent. -/
def isFractional (b : UInt8) : Bool := b == 0x2E || b == 0x65 || b == 0x45

/-- A byte that starts a number. -/
def startsNumber (b : UInt8) : Bool := b == 0x2D || (0x30 ≤ b && b ≤ 0x39)

/-- The kind of JSON value that a window holds, going by its looks. -/
def shape (w : Window) : Except Failure String :=
  match w.trimStart.bytes with
  | [] => .error (.invalidResource w.offset "empty member")
  | b :: _ =>
    if b = 0x6E then .ok "null"
    else if b = 0x74 || b = 0x66 then .ok "bool"
    else if b = Byte.quote then .ok "string"
    else if b = Byte.openList then .ok "array"
    else if b = Byte.openDict then .ok "object"
    else if startsNumber b then .ok (if w.bytes.any isFractional then "float" else "int")
    else .error (.unexpectedToken w.offset (String.singleton (Char.ofNat b.toNat)))

/-- Whether the first byte is that of `null`. -/
def looksNull (w : Window) : Bool := w.trimStart.bytes.head? = some 0x6E

/-- The JSON value that fills a window. -/
def json (w : Window) : Except Failure Json :=
  match Json.read? w.bytes with
  | some value => .ok value
  | none => .error (.unexpectedToken w.offset w.excerpt)

end Window

/-- The scalar of a kind that a JSON value is. An integer may stand for a float, and not the other
way round. -/
def ScalarKind.ofJson (kind : ScalarKind) (value : Json) : Except Failure Value :=
  let mismatch : Except Failure Value := .error (.unexpectedValue kind.name value.kindName)
  match kind, value with
  | .int, .number (.float _) => mismatch
  | .int, .number n =>
    match n.toInt64? with
    | some i => .ok (.int i)
    | none => .error (.unexpectedValue "int within 64-bit range" n.text)
  | .float, .number n => .ok (.float n.toFloat)
  | .bool, .bool b => .ok (.bool b)
  | .string, .string s => .ok (.string s)
  | _, _ => mismatch

/-- The key of a dictionary whose keys are of a kind. -/
def DictKey.ofText (kind : ScalarKind) (text : String) : Except Failure DictKey :=
  match kind with
  | .int =>
    match Decimal.int64? text with
    | some i => .ok (.int i)
    | none => .error (.unexpectedValue "int key" text)
  | _ => .ok (.string text)

namespace Decode

/-- The JSON value that fills a window. -/
def json (w : Window) : Decode Json := do
  look w
  found w.json

/-- The scalar of a kind that fills a window. -/
def scalar (kind : ScalarKind) (w : Window) : Decode Value := do
  found (kind.ofJson (← json w))

/-- The case of an enumeration that fills a window. -/
def enumCase (registry : Registry) (className : String) (backing : ScalarKind) (w : Window) :
    Decode Value :=
  match Entries.find? registry.enums className with
  | none => throw (.configuration (.unknownClass className))
  | some e => do
    let case ← scalar backing w
    let value ←
      match case with
      | .int i => pure (Json.int i)
      | .string s => pure (.string s)
      | other => throw (.unexpectedValue backing.name other.kindName)
    if e.accepts value then return .enum className case
    else throw (.unexpectedValue s!"case of {className}" value.compact)

/-- The member of a union that is in a window. -/
def choose {ν : Type} (registry : Registry) (candidates : List (Candidate ν))
    (discriminator : Option String) (w : Window) : Decode (Candidate ν) := do
  let refuse (expected : List String) (seen : String) : Decode (Candidate ν) :=
    throw (.unexpectedValue ("|".intercalate expected) seen)
  match discriminator with
  | some name =>
    match registry.discriminators.byName? name with
    | none => throw (.configuration (.unknownDiscriminator name))
    | some d => do
      let raw := Value.ofJson (← json w)
      match (d.select raw []).1 with
      | none => refuse (candidates.map (·.key)) raw.kindName
      | some key =>
        match candidates.find? fun c ↦ decide (c.key = key) with
        | some c => return c
        | none => refuse (candidates.map (·.key)) key
  | none => do
    look w
    let shape ← found w.shape
    let ofShape (shape : String) := candidates.find? fun c ↦ decide (c.shape = some shape)
    match ofShape shape <|> (if shape = "int" then ofShape "float" else none) with
    | some c => return c
    | none => refuse (candidates.filterMap (·.shape)) shape

end Decode

end TypedJson
