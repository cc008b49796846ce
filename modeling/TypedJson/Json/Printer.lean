import TypedJson.Json.Quoted
import TypedJson.Json.Basic

/-!
# Printing JSON

Stored artifacts, the command line and fingerprints write JSON values with the entries in order.
Strings escape what the grammar demands and nothing else. `Json.compact` has no blanks;
`Json.pretty` indents by two spaces and writes empty containers in one piece.
-/

namespace TypedJson.Json

/-- A character as it stands in a string literal. -/
def plainEscape (c : Char) : List Char :=
  if c = '"' then ['\\', '"']
  else if c = '\\' then ['\\', '\\']
  else if c = '\n' then ['\\', 'n']
  else if c = '\r' then ['\\', 'r']
  else if c = '\t' then ['\\', 't']
  else if c.toNat = 0x08 then ['\\', 'b']
  else if c.toNat = 0x0C then ['\\', 'f']
  else if c.toNat < 0x20 then unitEscape c.toNat
  else [c]

/-- A string literal. -/
def plainQuote (s : String) : String :=
  String.ofList ('"' :: (s.toList.flatMap plainEscape ++ ['"']))

mutual

/-- A value without blanks. -/
def compact : Json → String
  | null => "null"
  | bool b => if b then "true" else "false"
  | number n => n.text
  | string s => plainQuote s
  | list items => "[" ++ ",".intercalate (compactItems items) ++ "]"
  | dict entries => "\x7b" ++ ",".intercalate (compactEntries entries) ++ "\x7d"

/-- The items of a list. -/
def compactItems : List Json → List String
  | [] => []
  | item :: items => compact item :: compactItems items

/-- The entries of a dictionary. -/
def compactEntries : List (String × Json) → List String
  | [] => []
  | (key, value) :: entries => (plainQuote key ++ ":" ++ compact value) :: compactEntries entries

end

/-- A line break and the indentation of `depth` levels. -/
def newline (depth : Nat) : String := "\n" ++ String.ofList (List.replicate (2 * depth) ' ')

/-- Pieces on lines of their own, one level below `depth`. -/
def lines (depth : Nat) (pieces : List String) : String :=
  newline (depth + 1) ++ ("," ++ newline (depth + 1)).intercalate pieces ++ newline depth

mutual

/-- A value whose container's content is indented below `depth`. -/
def prettyAt (depth : Nat) : Json → String
  | null => "null"
  | bool b => if b then "true" else "false"
  | number n => n.text
  | string s => plainQuote s
  | list [] => "[]"
  | list (item :: items) =>
    "[" ++ lines depth (prettyAt (depth + 1) item :: prettyItems (depth + 1) items) ++ "]"
  | dict [] => "\x7b\x7d"
  | dict ((key, value) :: entries) =>
    "\x7b" ++ lines depth
      ((plainQuote key ++ ": " ++ prettyAt (depth + 1) value) ::
        prettyEntries (depth + 1) entries) ++ "\x7d"

/-- The items of a list, each at `depth`. -/
def prettyItems (depth : Nat) : List Json → List String
  | [] => []
  | item :: items => prettyAt depth item :: prettyItems depth items

/-- The entries of a dictionary, each at `depth`. -/
def prettyEntries (depth : Nat) : List (String × Json) → List String
  | [] => []
  | (key, value) :: entries =>
    (plainQuote key ++ ": " ++ prettyAt depth value) :: prettyEntries depth entries

end

/-- A value on several lines. -/
def pretty (value : Json) : String := prettyAt 0 value

end TypedJson.Json
