import TypedJson.Config.Basic
import TypedJson.DateTime.Parser
import TypedJson.Value.Access

/-!
# Formatters

A formatter transforms a value between a property and its text. It is registered under a name with
a signature, and codecs refer to it by name, so that they can be stored. Points in time are written
and read by two formatters of their own.
-/

namespace TypedJson

/-- Whether a formatter stands alone or belongs to an object. -/
inductive Receiver where
  | static
  | bound
  deriving DecidableEq

/-- A parameter or a result. -/
inductive SignatureType where
  | value (type : DataType)
  | void
  | never

/-- The type of the values in a position that holds values. -/
def SignatureType.type? : SignatureType → Option DataType
  | value type => some type
  | _ => none

/-- The signature of a formatter. -/
structure Signature where
  receiver : Receiver
  params : List SignatureType
  returns : SignatureType

/-- A formatter. -/
structure Formatter where
  name : String
  signature : Signature
  /-- What it makes of a value, or what is wrong with the value. -/
  body : Value → Config → Traced (Except String Value)

/-- The input and output types of a formatter that can be used for properties. -/
def Formatter.types (f : Formatter) : Except ConfigError (DataType × DataType) :=
  let invalid (reason : String) : ConfigError := .invalidFormatter f.name reason
  match f.signature.receiver, f.signature.params with
  | .bound, _ => .error (invalid "formatter must be static")
  | .static, [] => .error (invalid "formatter must take the value as first parameter")
  | .static, first :: _ =>
    match first.type?, f.signature.returns.type? with
    | none, _ => .error (invalid "value parameter cannot be void or never")
    | some _, none => .error (invalid "return type cannot be void or never")
    | some input, some output => .ok (input, output)

/-- Formatters by name, in the order of their registration. -/
abbrev Formatters : Type := Entries String Formatter

namespace Formatters

/-- The formatter of a name. -/
def find (formatters : Formatters) (name : String) : Except ConfigError Formatter :=
  match Entries.find? formatters name with
  | some f => .ok f
  | none => .error (.unknownFormatter name)

/-- The input and output types of the formatter of a name. -/
def types (formatters : Formatters) (name : String) : Except ConfigError (DataType × DataType) := do
  (← formatters.find name).types

end Formatters

/-- The text of a point in time. -/
def DateTime.write (t : DateTime) (pattern : Option String) : Except String String :=
  match t.format? pattern with
  | some text => .ok text
  | none =>
    let p := pattern.getD ""
    .error s!"cannot format a date-time with `{p}`"

/-- The point in time of a text. The messages end with the text or the pattern; the reason why the
one does not match the other, which a reader of points in time would append, is left out. -/
def DateTime.read (text : String) (pattern : Option String) : Except String DateTime :=
  match DateTime.parse? text pattern, pattern with
  | some t, _ => .ok t
  | none, none => .error s!"`{text}`"
  | none, some p => .error s!"`{text}` does not match `{p}`"

/-- What a formatter makes of a value. -/
def FormatterRef.apply (ref : FormatterRef) (formatters : Formatters) (config : Config)
    (value : Value) : Traced (Except Failure Value) := do
  let refused : Except String Value → Except Failure Value :=
    Except.mapError (Failure.formatter ref.name)
  match ref, value with
  | .named name, value =>
    match formatters.find name with
    | .error error => return .error (.configuration error)
    | .ok f => return refused (← f.body value config)
  | .dateTimeFormat pattern, .dateTime t => return refused ((t.write pattern).map .string)
  | .dateTimeFormat _, .null => return .ok .null
  | .dateTimeFormat _, other =>
    return refused (.error s!"expected a date-time, found {other.kindName}")
  | .dateTimeParse pattern, .string text =>
    return refused ((DateTime.read text pattern).map .dateTime)
  | .dateTimeParse _, .null => return .ok .null
  | .dateTimeParse _, other => return refused (.error s!"expected a string, found {other.kindName}")

end TypedJson
