import TypedJson.DataType.Generics

/-!
# Resolving type strings

A type string is a union of members, a member is an atom with an optional `?` in front, and an atom
is a name with optional parameters, which are type strings again. Names are looked up in this
order: built-in names, template parameters in scope, date-time classes, then classes and
enumerations.
-/

namespace TypedJson

/-- What a name that is not built in refers to. -/
inductive NameKind where
  /-- A class with a number of template parameters. -/
  | className (templates : Nat)
  /-- An enumeration. -/
  | enum (backing : ScalarKind)
  deriving DecidableEq

/-- What names refer to. -/
abbrev NameLookup := String → Option NameKind

namespace TypeText

/-- A character that can start a part of a name. -/
def isNameStart (c : Char) : Bool := c.isAlpha || c == '_'

/-- A character that can stand inside a part of a name. -/
def isNameRest (c : Char) : Bool := c.isAlphanum || c == '_'

/-- Where a scan of a name stands. -/
inductive NameState where
  /-- A part has to start. -/
  | start
  /-- Inside a part. -/
  | inside
  /-- After the first of two colons. -/
  | colon
  deriving DecidableEq

/-- Whether the characters complete a name: ASCII words joined by a backslash or two colons. -/
def completesName : NameState → List Char → Bool
  | .inside, [] => true
  | _, [] => false
  | .start, c :: cs => isNameStart c && completesName .inside cs
  | .colon, c :: cs => c == ':' && completesName .start cs
  | .inside, c :: cs =>
    if isNameRest c then completesName .inside cs
    else if c == '\\' then completesName .start cs
    else c == ':' && completesName .colon cs

/-- Whether a text is a name, with an optional backslash in front. -/
def isName : List Char → Bool
  | '\\' :: cs => completesName .start cs
  | cs => completesName .start cs

/-- The scope in which a type string is resolved. -/
structure Scope where
  /-- What names refer to. -/
  lookup : NameLookup
  /-- The template parameters. -/
  templates : List String

/-- The type of a name that is not built in. -/
def resolveName (scope : Scope) (atom : List Char) (name : String) (params : List DataType) :
    Except ConfigError DataType :=
  if scope.templates.contains name then
    if params.isEmpty then .ok (.template name)
    else .error (invalid atom "template parameters take no parameters")
  else if DataType.dateTimeClasses.contains name then
    if params.isEmpty then .ok (.object name [])
    else .error (invalid atom "type takes no parameters")
  else
    match scope.lookup name with
    | some (.className templates) =>
      if templates = params.length then .ok (.object name params)
      else .error (.genericsMismatch name templates params.length)
    | some (.enum backing) =>
      if params.isEmpty then .ok (.enum name backing)
      else .error (invalid atom "enums take no parameters")
    | none => .error (invalid atom s!"unknown class `{name}`")

/-- A built-in type without parameters. -/
def plainBuiltin? (name : String) : Option DataType :=
  match name with
  | "int" | "integer" => some (.scalar .int)
  | "float" | "double" => some (.scalar .float)
  | "bool" | "boolean" => some (.scalar .bool)
  | "string" => some (.scalar .string)
  | "null" => some .null
  | "mixed" => some .mixed
  | _ => none

/-- The type of a dictionary with the given key and value types. -/
def resolveDict (atom : List Char) (key value : DataType) : Except ConfigError DataType :=
  if key == .scalar .int || key == .scalar .string then .ok (.dict key value)
  else .error (invalid atom "dict keys must be int or string")

/-- The type of an atom whose parameters are resolved. -/
def resolveBase (scope : Scope) (atom : List Char) (name : String) (params : List DataType) :
    Except ConfigError DataType :=
  match plainBuiltin? name with
  | some t => if params.isEmpty then .ok t else .error (invalid atom "type takes no parameters")
  | none =>
    if name = "list" then
      match params with
      | [] => .ok (.list .mixed)
      | [item] => .ok (.list item)
      | _ => .error (invalid atom "list takes one parameter")
    else if name = "array" then
      match params with
      | [] => .ok (.list .mixed)
      | [item] => .ok (.list item)
      | [key, value] => resolveDict atom key value
      | _ => .error (invalid atom "dict takes at most two parameters")
    else if name = "dict" then
      match params with
      | [] => .ok (.dict (.scalar .string) .mixed)
      | [value] => .ok (.dict (.scalar .string) value)
      | [key, value] => resolveDict atom key value
      | _ => .error (invalid atom "dict takes at most two parameters")
    else resolveName scope atom name params

/-- Each text resolved, up to the first error. -/
def resolveEach (resolve : List Char → Except ConfigError DataType) :
    List (List Char) → Except ConfigError (List DataType)
  | [] => .ok []
  | text :: texts => do
    let t ← resolve text
    let types ← resolveEach resolve texts
    return t :: types

/-- The type of an atom, given how its parameters are resolved. -/
def resolveAtom (scope : Scope) (resolve : List Char → Except ConfigError DataType)
    (atom : List Char) : Except ConfigError DataType := do
  let (base, texts) ← extractGenerics atom
  if isName base then
    let params ← resolveEach resolve texts
    resolveBase scope atom (String.ofList base) params
  else throw (invalid atom "invalid identifier")

/-- The type of a member, given how parameters are resolved. -/
def resolveMember (scope : Scope) (resolve : List Char → Except ConfigError DataType)
    (text : List Char) : Except ConfigError DataType :=
  match Text.trimChars text with
  | '?' :: atom => (resolveAtom scope resolve (Text.trimChars atom)).map DataType.orNull
  | atom => resolveAtom scope resolve atom

/-- The type of one member of several. -/
def resolveUnionMember (scope : Scope) (resolve : List Char → Except ConfigError DataType)
    (input text : List Char) : Except ConfigError DataType :=
  if (Text.trimChars text).head? = some '?' then
    .error (invalid input "`?` cannot be combined with a union")
  else resolveMember scope resolve text

/-- Why a union is refused that has fewer than two distinct members. -/
def tooFewMembers : String := "a union needs at least two distinct members"

/-- The type of a text with at most `fuel` levels of brackets. -/
def resolveAt (scope : Scope) (fuel : Nat) (text : List Char) : Except ConfigError DataType :=
  match fuel with
  | 0 => .error (unbalanced text)
  | fuel + 1 =>
    let input := Text.trimChars text
    if input.isEmpty then .error (invalid input "empty type")
    else do
      match ← splitTop '|' input with
      | [member] => resolveMember scope (resolveAt scope fuel) member
      | members =>
        let types ← resolveEach (resolveUnionMember scope (resolveAt scope fuel) input) members
        match DataType.union? types with
        | some t => return t
        | none => throw (invalid input tooFewMembers)

/-- The type that a text denotes. A parameter is shorter than the text it stands in, so the length
of the text bounds how deep parameters nest. -/
def resolve (scope : Scope) (text : String) : Except ConfigError DataType :=
  resolveAt scope (text.length + 1) text.toList

end TypeText

/-- The union of types, which needs two distinct members. -/
def DataType.union (members : List DataType) : Except ConfigError DataType :=
  match union? members with
  | some t => .ok t
  | none =>
    let texts := (flatten members).map DataType.text
    .error (.invalidType ("|".intercalate texts) TypeText.tooFewMembers)

end TypedJson
