import TypedJson.DataType.Basic
import TypedJson.Entries
import TypedJson.Json.Basic

/-!
# Properties

A `Property` says how one property of a class is written or read: its name in the text, its type
there, and the formatters between the two sides. The same property may look different in the two
directions.
-/

namespace TypedJson

/-- Whether values are written or read. -/
inductive Direction where
  | encode
  | decode
  deriving DecidableEq

/-- The name of a direction. -/
def Direction.name : Direction → String
  | encode => "encode"
  | decode => "decode"

/-- A formatter as codecs refer to it. -/
inductive FormatterRef where
  /-- A registered formatter. -/
  | named (name : String)
  /-- Writes a point in time by a pattern, or as RFC 3339 demands. -/
  | dateTimeFormat (pattern : Option String)
  /-- Reads a point in time by a pattern, or as RFC 3339 demands. -/
  | dateTimeParse (pattern : Option String)
  deriving DecidableEq

/-- The name of a formatter. -/
def FormatterRef.name : FormatterRef → String
  | named name => name
  | dateTimeFormat _ => "datetime.format"
  | dateTimeParse _ => "datetime.parse"

/-- Where an encoder takes a property from. -/
inductive PropertyAccessor where
  /-- A field of the object. -/
  | field (name : String)
  /-- A formatter makes it from the object itself. -/
  | computed
  deriving DecidableEq

/-- A property in one direction. -/
structure Property where
  /-- The name in the class. -/
  sourceName : String
  /-- The name in the text. -/
  encodedName : String
  /-- The type in the text. -/
  type : DataType
  /-- The formatters, from the class to the text. -/
  formatters : List FormatterRef
  accessor : PropertyAccessor

/-- A property that is written as it is declared. -/
def Property.plain (name : String) (type : DataType) : Property :=
  ⟨name, name, type, [], .field name⟩

/-- The properties of a class by name, in the order of declaration. -/
abbrev PropertyMap : Type := Entries String Property

end TypedJson
