/-!
# Blank characters

`Char.isBlank` is the `White_Space` property of the Unicode character database. Type strings and
date-time patterns are trimmed of it at both ends; JSON knows the four characters of
`isJsonBlank` only.
-/

namespace TypedJson.Text

/-- The `White_Space` property. -/
def isBlank (c : Char) : Bool :=
  let n := c.toNat
  (0x09 ≤ n && n ≤ 0x0D) || n == 0x20 || n == 0x85 || n == 0xA0 || n == 0x1680 ||
    (0x2000 ≤ n && n ≤ 0x200A) || n == 0x2028 || n == 0x2029 || n == 0x202F || n == 0x205F ||
    n == 0x3000

/-- The characters without leading blanks. -/
def trimLeft (cs : List Char) : List Char := cs.dropWhile isBlank

/-- The characters without blanks at either end. -/
def trimChars (cs : List Char) : List Char :=
  (trimLeft (trimLeft cs).reverse).reverse

/-- The string without blanks at either end. -/
def trim (s : String) : String := String.ofList (trimChars s.toList)

/-- The four bytes that may stand between the tokens of a JSON text. -/
def isJsonBlank (b : UInt8) : Bool := b == 0x20 || b == 0x09 || b == 0x0A || b == 0x0D

end TypedJson.Text
