import TypedJson.DataType.Basic
import TypedJson.Entries
import TypedJson.Error
import TypedJson.Text.Blank

/-!
# Generic parameters

Type strings nest by angle brackets. `splitTop` cuts a text at the separators outside all brackets;
`extractGenerics` takes a text `Base<p, q>` apart. `substitute` puts bound types in the place of
template parameters.
-/

namespace TypedJson

namespace TypeText

/-- A character in front of the first part. -/
def consHead (c : Char) : List (List Char) → List (List Char)
  | [] => [[c]]
  | part :: parts => (c :: part) :: parts

/-- The parts of a text between the separators outside all brackets, `depth` brackets being open
in front of it; `none` if the brackets do not match. The depth is a number of any size: that fewer
than `2 ^ 31` brackets are open at a time is not checked. -/
def splitFrom (sep : Char) (depth : Nat) : List Char → Option (List (List Char))
  | [] => if depth = 0 then some [[]] else none
  | c :: cs =>
    if c = '<' then (splitFrom sep (depth + 1) cs).map (consHead c)
    else if c = '>' then
      match depth with
      | 0 => none
      | depth + 1 => (splitFrom sep depth cs).map (consHead c)
    else if c = sep ∧ depth = 0 then (splitFrom sep 0 cs).map ([] :: ·)
    else (splitFrom sep depth cs).map (consHead c)

/-- An error about a type string. -/
def invalid (input : List Char) (reason : String) : ConfigError :=
  .invalidType (String.ofList input) reason

/-- The error for brackets that do not match. -/
def unbalanced (input : List Char) : ConfigError := invalid input "unbalanced angle brackets"

/-- The parts of a text between the separators outside all brackets. -/
def splitTop (sep : Char) (cs : List Char) : Except ConfigError (List (List Char)) :=
  match splitFrom sep 0 cs with
  | some parts => .ok parts
  | none => .error (unbalanced cs)

/-- The base and the parameters of a type string, trimmed. -/
def extractGenerics (text : List Char) : Except ConfigError (List Char × List (List Char)) :=
  let input := Text.trimChars text
  match input.dropWhile (· ≠ '<') with
  | [] => if input.contains '>' then .error (unbalanced input) else .ok (input, [])
  | _ :: inner =>
    if input.getLast? ≠ some '>' then
      .error (invalid input "unexpected characters after generic parameters")
    else
      match splitFrom ',' 0 inner.dropLast with
      | none => .error (unbalanced input)
      | some parts =>
        let params := parts.map Text.trimChars
        if params.any List.isEmpty then .error (invalid input "empty generic parameter")
        else .ok (Text.trimChars (input.takeWhile (· ≠ '<')), params)

end TypeText

namespace DataType

/-- What a name is bound to, if it is bound. -/
def bound (bindings : Entries String DataType) (name : String) (nullable : Bool)
    (unbound : DataType) : DataType :=
  match Entries.find? bindings name with
  | some t => t.nullableIf nullable
  | none => unbound

mutual

/-- The type with every bound name replaced. A class without parameters may be a template parameter
in disguise, so its name is looked up too. -/
def substituteIn (bindings : Entries String DataType) : DataType → DataType
  | mk (.template name) nullable => bound bindings name nullable (mk (.template name) nullable)
  | mk (.object className []) nullable =>
    bound bindings className nullable (mk (.object className []) nullable)
  | mk (.object className (t :: types)) nullable =>
    (object className (substituteIn bindings t :: substituteInAll bindings types)).nullableIf
      nullable
  | mk (.list item) nullable => (list (substituteIn bindings item)).nullableIf nullable
  | mk (.dict key value) nullable =>
    (dict (substituteIn bindings key) (substituteIn bindings value)).nullableIf nullable
  | mk (.union members) _ => unionOrMember (substituteInAll bindings members)
  | mk kind nullable => mk kind nullable

/-- The types with every bound name replaced. -/
def substituteInAll (bindings : Entries String DataType) : List DataType → List DataType
  | [] => []
  | t :: types => substituteIn bindings t :: substituteInAll bindings types

end

/-- The type with every bound name replaced; without bindings it stays exactly as it is. -/
def substitute (t : DataType) (bindings : Entries String DataType) : DataType :=
  if bindings.isEmpty then t else substituteIn bindings t

end DataType

end TypedJson
