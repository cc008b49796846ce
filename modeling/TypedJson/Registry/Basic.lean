import TypedJson.DataType.Resolve
import TypedJson.Formatter

/-!
# Registries

A registry holds the definitions that types refer to: classes with the type strings of their
properties, enumerations, formatters, and discriminators, which choose among the members of a
union. Definitions keep the order in which they were registered; a definition of a known name
replaces the earlier one in its place.
-/

namespace TypedJson

/-- An annotation of a class or a property. -/
inductive Directive where
  /-- Another name in the text. -/
  | rename (name : String)
  | encodeFormatter (name : String)
  | decodeFormatter (name : String)
  /-- The property belongs to groups. -/
  | groups (names : List String)
  /-- A greatest depth, with the formatter that replaces the property beyond it. -/
  | maxDepth (max : Nat) (formatter : Option String)
  /-- The class is compiled in advance. -/
  | warmable
  deriving DecidableEq

/-- A declared property. -/
structure PropertyDescriptor where
  /-- The type string, in the scope of the class's template parameters. -/
  type : String
  directives : List Directive
  deriving DecidableEq

/-- A class. -/
structure ClassDescriptor where
  name : String
  templates : List String
  properties : Entries String PropertyDescriptor
  directives : List Directive
  deriving DecidableEq

/-- An enumeration. -/
structure EnumDescriptor where
  name : String
  backing : ScalarKind
  /-- The values of the cases, by name. -/
  cases : Entries String Json

/-- Whether a value is a case; without any case every value is one. -/
def EnumDescriptor.accepts (e : EnumDescriptor) (value : Json) : Bool :=
  e.cases.isEmpty || e.cases.any fun (_, case) ↦ case.same value

/-- A function that chooses a member of a union, by the canonical text of its type. -/
structure Discriminator where
  name : String
  select : Value → Traced (Option String)

/-- Discriminators by the unions that they are for. -/
abbrev Discriminators : Type := Entries String Discriminator

namespace Discriminators

/-- Members of a union as a key, whatever their order. -/
def joinMembers (members : List String) : String :=
  "|".intercalate (members.mergeSort fun a b ↦ !decide (b < a))

/-- The key of a union given as a text. `null` does not count. -/
def keyOfText (union : String) : Except ConfigError String := do
  let parts ← TypeText.splitTop '|' union.toList
  let members := parts.map fun part ↦ String.ofList (Text.trimChars part)
  return joinMembers (members.filter fun member ↦ decide (member ≠ "null"))

/-- The key of a union. `null` does not count. -/
def keyOfType (union : DataType) : String :=
  joinMembers ((union.members.filter fun member ↦ !member.isNull).map DataType.text)

/-- Registers a discriminator for a union. -/
def register (discriminators : Discriminators) (union : String) (d : Discriminator) :
    Except ConfigError Discriminators := do
  return Entries.put discriminators (← keyOfText union) d

/-- The discriminator for a union. -/
def forUnion? (discriminators : Discriminators) (union : DataType) : Option Discriminator :=
  Entries.find? discriminators (keyOfType union)

/-- The first discriminator of a name. -/
def byName? (discriminators : Discriminators) (name : String) : Option Discriminator :=
  (discriminators.map (·.2)).find? fun d ↦ decide (d.name = name)

end Discriminators

/-- The definitions that types refer to. -/
structure Registry where
  classes : Entries String ClassDescriptor := []
  enums : Entries String EnumDescriptor := []
  formatters : Formatters := []
  discriminators : Discriminators := []

namespace Registry

/-! ## Registering -/

/-- The registry with a class. -/
def addClass (r : Registry) (c : ClassDescriptor) : Registry :=
  { r with classes := Entries.put r.classes c.name c }

/-- The registry with an enumeration. -/
def addEnum (r : Registry) (e : EnumDescriptor) : Registry :=
  { r with enums := Entries.put r.enums e.name e }

/-- The registry with a formatter. -/
def addFormatter (r : Registry) (f : Formatter) : Registry :=
  { r with formatters := Entries.put r.formatters f.name f }

/-- The registry with a discriminator for a union. -/
def addDiscriminator (r : Registry) (union : String) (d : Discriminator) :
    Except ConfigError Registry := do
  return { r with discriminators := ← r.discriminators.register union d }

/-! ## Looking up -/

/-- The class of a name. -/
def findClass (r : Registry) (name : String) : Except ConfigError ClassDescriptor :=
  match Entries.find? r.classes name with
  | some c => .ok c
  | none => .error (.unknownClass name)

/-- The enumeration of a name. -/
def findEnum (r : Registry) (name : String) : Except ConfigError EnumDescriptor :=
  match Entries.find? r.enums name with
  | some e => .ok e
  | none => .error (.unknownClass name)

/-- What a name in a type string refers to; classes come first. -/
def lookup (r : Registry) : NameLookup := fun name ↦
  match Entries.find? r.classes name with
  | some c => some (.className c.templates.length)
  | none => (Entries.find? r.enums name).map fun e ↦ .enum e.backing

/-- The type of a type string, with template parameters in scope. -/
def resolve (r : Registry) (text : String) (templates : List String) :
    Except ConfigError DataType :=
  TypeText.resolve ⟨r.lookup, templates⟩ text

/-- The names of the properties of a class. -/
def propertyNames (r : Registry) (className : String) : Except ConfigError (List String) := do
  return (← r.findClass className).properties.map (·.1)

/-- The type of a property. -/
def propertyType (r : Registry) (className property : String) : Except ConfigError DataType := do
  let c ← r.findClass className
  match Entries.find? c.properties property with
  | none => throw (.unresolvedPropertyType className property "no such property")
  | some p =>
    match r.resolve p.type c.templates with
    | .ok t => return t
    | .error error => throw (.unresolvedPropertyType className property error.message)

/-- The type of a parameter of a formatter, if there are values in that position. -/
def parameterType? (r : Registry) (formatter : String) (i : Nat) :
    Except ConfigError (Option DataType) := do
  return (← r.formatters.find formatter).signature.params[i]?.bind SignatureType.type?

/-- The type of the result of a formatter, if it has one. -/
def returnType? (r : Registry) (formatter : String) : Except ConfigError (Option DataType) := do
  return (← r.formatters.find formatter).signature.returns.type?

/-- The template parameters of a class. -/
def templates (r : Registry) (className : String) : Except ConfigError (List String) := do
  return (← r.findClass className).templates

/-- The directives of a class; an unknown class has none. -/
def classDirectives (r : Registry) (className : String) : List Directive :=
  match Entries.find? r.classes className with
  | some c => c.directives
  | none => []

/-- The directives of a property; an unknown property has none. -/
def propertyDirectives (r : Registry) (className property : String) : List Directive :=
  match Entries.find? r.classes className with
  | some c =>
    match Entries.find? c.properties property with
    | some p => p.directives
    | none => []
  | none => []

end Registry

end TypedJson
