import TypedJson.Decimal.Literal
import TypedJson.Text.Blank
import TypedJson.Text.Utf8

/-!
# What a reader sees of a JSON text

A JSON text is scanned once, into a tree that also says where the text stops being JSON. A reader
that walks the tree from the left meets the same failures in the same order as one that reads the
text piece by piece, so that the first failure of a typed reader is the first one of the text.

* `Tree.scan` reads one value and answers what follows it.
* `Json.read?` is the strict reader: one complete value with blanks around it, strings that decode,
  numbers in range and at most `Json.nesting` containers open at a time.
-/

namespace TypedJson.Json

/-- A scanned value. The text ends for its reader at a `broken` or `absent` value, or behind the
members of a container that is not `closed` and ends in no such value. -/
inductive Tree where
  /-- No value starts here. -/
  | broken
  /-- No value, because the colon that announces it is missing. -/
  | absent
  | null
  | bool (b : Bool)
  /-- A number; `none` beyond the largest double. -/
  | number (n : Option Number)
  /-- A string; `none` if it holds an unpaired surrogate or bytes that are not UTF-8. -/
  | string (s : Option String)
  | list (items : List Tree) (closed : Bool)
  | dict (entries : List (Option String × Tree)) (closed : Bool)

/-! ## Strings -/

/-- The value of a hexadecimal digit. -/
def hexValue? (b : UInt8) : Option Nat :=
  if 0x30 ≤ b && b ≤ 0x39 then some (b.toNat - 0x30)
  else if 0x41 ≤ b && b ≤ 0x46 then some (b.toNat - 0x37)
  else if 0x61 ≤ b && b ≤ 0x66 then some (b.toNat - 0x57)
  else none

/-- The code unit of four hexadecimal digits. -/
def unit? (a b c d : UInt8) : Option Nat := do
  return (← hexValue? a) * 0x1000 + (← hexValue? b) * 0x100 + (← hexValue? c) * 0x10 +
    (← hexValue? d)

/-- The character of an escape of one letter. -/
def escaped? (b : UInt8) : Option UInt8 :=
  if b == 0x22 || b == 0x5C || b == 0x2F then some b
  else if b == 0x62 then some 0x08
  else if b == 0x66 then some 0x0C
  else if b == 0x6E then some 0x0A
  else if b == 0x72 then some 0x0D
  else if b == 0x74 then some 0x09
  else none

/-- Bytes in front of what the rest of a string decodes to. -/
def pushBytes (bytes : List UInt8) :
    Option (Option (List UInt8) × List UInt8) → Option (Option (List UInt8) × List UInt8)
  | none => none
  | some (decoded, rest) => some (decoded.map (bytes ++ ·), rest)

/-- A string whose escapes do not all decode. -/
def dropBytes :
    Option (Option (List UInt8) × List UInt8) → Option (Option (List UInt8) × List UInt8)
  | none => none
  | some (_, rest) => some (none, rest)

/-- The bytes of a code point. -/
def codePointBytes (n : Nat) : List UInt8 := String.utf8EncodeChar (Char.ofNat n)

/-- A string body after its opening quote, and what follows its closing quote. The inner `none`
marks an unpaired surrogate, the outer one a body that is not a string body at all. -/
def scanString : List UInt8 → Option (Option (List UInt8) × List UInt8)
  | [] => none
  | a :: rest =>
    if a = 0x22 then some (some [], rest)
    else if a < 0x20 then none
    else if a ≠ 0x5C then pushBytes [a] (scanString rest)
    else match rest with
      | [] => none
      | b :: rest =>
        if b ≠ 0x75 then
          match escaped? b with
          | none => none
          | some c => pushBytes [c] (scanString rest)
        else match rest with
          | c :: d :: e :: f :: rest =>
            match unit? c d e f with
            | none => none
            | some unit =>
              if unit < 0xD800 ∨ 0xE000 ≤ unit then
                pushBytes (codePointBytes unit) (scanString rest)
              else if 0xDC00 ≤ unit then dropBytes (scanString rest)
              else match rest with
                | 0x5C :: 0x75 :: g :: h :: i :: j :: after =>
                  match unit? g h i j with
                  | none => none
                  | some low =>
                    if 0xDC00 ≤ low ∧ low < 0xE000 then
                      pushBytes
                        (codePointBytes (0x10000 + (unit - 0xD800) * 0x400 + (low - 0xDC00)))
                        (scanString after)
                    else dropBytes (scanString (0x5C :: 0x75 :: g :: h :: i :: j :: after))
                | rest => dropBytes (scanString rest)
          | _ => none

/-- The text of a string body that decodes. -/
def bodyText? (decoded : Option (List UInt8)) : Option String := decoded.bind Utf8.decode?

/-! ## Values -/

/-- The bytes after the blanks at the front. -/
def skipBlanks : List UInt8 → List UInt8
  | [] => []
  | b :: rest => if Text.isJsonBlank b then skipBlanks rest else b :: rest

/-- The bytes after `word`, if it stands at the front. -/
def afterWord? : List UInt8 → List UInt8 → Option (List UInt8)
  | [], bytes => some bytes
  | w :: word, b :: bytes => if w = b then afterWord? word bytes else none
  | _ :: _, [] => none

/-- A value whose letters are `word`, or a broken one. -/
def scanWord (word bytes : List UInt8) (value : Tree) : Tree × List UInt8 :=
  match afterWord? word bytes with
  | some rest => (value, rest)
  | none => (.broken, bytes)

/-- A number, or a broken value. -/
def scanNumber (bytes : List UInt8) : Tree × List UInt8 :=
  match Decimal.Literal.scan bytes with
  | some (l, rest) => (.number l.value?, rest)
  | none => (.broken, bytes)

/-- Whether the text ends for a reader within this value. -/
def Tree.isOpen : Tree → Bool
  | .broken | .absent => true
  | .list _ closed | .dict _ closed => !closed
  | _ => false

mutual

/-- The value at the front and what follows it, for a text of at most `fuel` bytes. -/
def Tree.scanAt (fuel : Nat) (bytes : List UInt8) : Tree × List UInt8 :=
  match fuel with
  | 0 => (.broken, bytes)
  | fuel + 1 =>
    match skipBlanks bytes with
    | [] => (.broken, [])
    | b :: rest =>
      if b = 0x22 then
        match scanString rest with
        | some (decoded, rest) => (.string (bodyText? decoded), rest)
        | none => (.broken, rest)
      else if b = 0x5B then
        match skipBlanks rest with
        | 0x5D :: after => (.list [] true, after)
        | rest =>
          let (items, closed, rest) := Tree.scanItems fuel rest
          (.list items closed, rest)
      else if b = 0x7B then
        match skipBlanks rest with
        | 0x7D :: after => (.dict [] true, after)
        | rest =>
          let (entries, closed, rest) := Tree.scanEntries fuel rest
          (.dict entries closed, rest)
      else if b = 0x6E then scanWord [0x75, 0x6C, 0x6C] rest .null
      else if b = 0x74 then scanWord [0x72, 0x75, 0x65] rest (.bool true)
      else if b = 0x66 then scanWord [0x61, 0x6C, 0x73, 0x65] rest (.bool false)
      else if b = 0x2D || (0x30 ≤ b && b ≤ 0x39) then scanNumber (b :: rest)
      else (.broken, b :: rest)

/-- The items of a list that is not empty, whether it is closed, and what follows. Where the text or
the list ends instead of an item, there is none. -/
def Tree.scanItems (fuel : Nat) (bytes : List UInt8) : List Tree × Bool × List UInt8 :=
  match fuel with
  | 0 => ([], false, bytes)
  | fuel + 1 =>
    match skipBlanks bytes with
    | [] | 0x5D :: _ => ([], false, bytes)
    | bytes =>
      let (item, rest) := Tree.scanAt fuel bytes
      if item.isOpen then ([item], false, rest)
      else match skipBlanks rest with
        | 0x2C :: after =>
          let (items, closed, rest) := Tree.scanItems fuel after
          (item :: items, closed, rest)
        | 0x5D :: after => ([item], true, after)
        | rest => ([item], false, rest)

/-- The entries of a dictionary that has at least one, whether it is closed, and what follows. -/
def Tree.scanEntries (fuel : Nat) (bytes : List UInt8) :
    List (Option String × Tree) × Bool × List UInt8 :=
  match fuel with
  | 0 => ([], false, bytes)
  | fuel + 1 =>
    match skipBlanks bytes with
    | 0x22 :: rest =>
      match scanString rest with
      | none => ([], false, rest)
      | some (decoded, rest) =>
        match skipBlanks rest with
        | 0x3A :: rest =>
          let (value, rest) := Tree.scanAt fuel rest
          let entry := (bodyText? decoded, value)
          if value.isOpen then ([entry], false, rest)
          else match skipBlanks rest with
            | 0x2C :: after =>
              let (entries, closed, rest) := Tree.scanEntries fuel after
              (entry :: entries, closed, rest)
            | 0x7D :: after => ([entry], true, after)
            | rest => ([entry], false, rest)
        | rest => ([(bodyText? decoded, .absent)], false, rest)
    | rest => ([], false, rest)

end

theorem Tree.scanAt_nil {fuel : Nat} {bytes : List UInt8} (h : skipBlanks bytes = []) :
    Tree.scanAt (fuel + 1) bytes = (.broken, []) := by
  rw [Tree.scanAt, h]

/-- The value at the front of a text and what follows it. -/
def Tree.scan (bytes : List UInt8) : Tree × List UInt8 := Tree.scanAt (2 * bytes.length + 2) bytes

mutual

/-- Whether the text of a value is JSON, whatever its strings and numbers stand for. -/
def Tree.wellFormed : Tree → Bool
  | .broken | .absent => false
  | .list items closed => closed && wellFormedItems items
  | .dict entries closed => closed && wellFormedEntries entries
  | _ => true

/-- Whether the text of every item is JSON. -/
def Tree.wellFormedItems : List Tree → Bool
  | [] => true
  | item :: items => item.wellFormed && wellFormedItems items

/-- Whether the text of every entry is JSON. -/
def Tree.wellFormedEntries : List (Option String × Tree) → Bool
  | [] => true
  | (_, value) :: entries => value.wellFormed && wellFormedEntries entries

end

/-! ## The strict reader -/

mutual

/-- The value of a complete tree in which at most `depth` containers are open at a time. -/
def Tree.toJson? (depth : Nat) : Tree → Option Json
  | .broken | .absent => none
  | .null => some .null
  | .bool b => some (.bool b)
  | .number n => n.map .number
  | .string s => s.map .string
  | .list items closed =>
    match depth with
    | 0 => none
    | depth + 1 => if closed then (itemsToJson? depth items).map .list else none
  | .dict entries closed =>
    match depth with
    | 0 => none
    | depth + 1 => if closed then (entriesToJson? depth entries []).map .dict else none

/-- The values of the items. -/
def Tree.itemsToJson? (depth : Nat) : List Tree → Option (List Json)
  | [] => some []
  | item :: items =>
    match item.toJson? depth with
    | none => none
    | some value => (itemsToJson? depth items).map (value :: ·)

/-- The values of the entries, put after those that are already read. -/
def Tree.entriesToJson? (depth : Nat) :
    List (Option String × Tree) → Entries String Json → Option (Entries String Json)
  | [], done => some done
  | (key, value) :: entries, done =>
    match key, value.toJson? depth with
    | some key, some value => entriesToJson? depth entries (done.put key value)
    | _, _ => none

end

/-- How many containers may be open at a time. -/
def nesting : Nat := 127

/-- One value with blanks around it and at most `depth` containers open at a time. -/
def readWithin? (depth : Nat) (bytes : List UInt8) : Option Json :=
  let (tree, rest) := Tree.scan bytes
  if (skipBlanks rest).isEmpty then tree.toJson? depth else none

/-- The strict reader. -/
def read? (bytes : List UInt8) : Option Json := readWithin? nesting bytes

/-- A string literal that fills the bytes. -/
def readString? (bytes : List UInt8) : Option String :=
  match read? bytes with
  | some (.string s) => some s
  | _ => none

end TypedJson.Json
