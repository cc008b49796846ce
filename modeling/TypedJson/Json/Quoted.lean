import TypedJson.Fingerprint

/-!
# Quoted strings

How encoders write a string. Slashes and characters beyond ASCII are escaped unless a flag says
otherwise; control characters and the line terminators U+2028 and U+2029 are always escaped, so
that the output can stand inside a script.
-/

namespace TypedJson

/-- The bits that relax how JSON scalars are written. -/
structure JsonFlags where
  /-- The bit set; unknown bits are carried along. -/
  bits : UInt32
  deriving DecidableEq

namespace JsonFlags

/-- No flag. -/
def none : JsonFlags := ⟨0⟩

/-- Slashes are written as they are. -/
def unescapedSlashes : JsonFlags := ⟨64⟩

/-- Characters beyond ASCII are written as they are. -/
def unescapedUnicode : JsonFlags := ⟨256⟩

/-- A float without a fraction keeps `.0`. -/
def preserveZeroFraction : JsonFlags := ⟨1024⟩

/-- Whether every bit of `flag` is set. -/
def has (flags flag : JsonFlags) : Bool := flags.bits &&& flag.bits == flag.bits

end JsonFlags

namespace Json

/-- A code unit as `\uXXXX`. -/
def unitEscape (unit : Nat) : List Char := '\\' :: 'u' :: (Fingerprint.hex 4 unit).toList

/-- The UTF-16 code units of a character: one, or a surrogate pair. -/
def codeUnits (c : Char) : List Nat :=
  if c.toNat < 0x10000 then [c.toNat]
  else [0xD800 + (c.toNat - 0x10000) / 0x400, 0xDC00 + (c.toNat - 0x10000) % 0x400]

/-- A character as it stands between the quotes. -/
def escapeChar (flags : JsonFlags) (c : Char) : List Char :=
  if c = '"' then ['\\', '"']
  else if c = '\\' then ['\\', '\\']
  else if c = '\n' then ['\\', 'n']
  else if c = '\r' then ['\\', 'r']
  else if c = '\t' then ['\\', 't']
  else if c.toNat = 0x08 then ['\\', 'b']
  else if c.toNat = 0x0C then ['\\', 'f']
  else if c = '/' then (if flags.has .unescapedSlashes then ['/'] else ['\\', '/'])
  else if c.toNat < 0x20 then unitEscape c.toNat
  else if c.toNat = 0x2028 ∨ c.toNat = 0x2029 then unitEscape c.toNat
  else if 0x80 ≤ c.toNat ∧ flags.has .unescapedUnicode = false then
    (codeUnits c).flatMap unitEscape
  else [c]

/-- The characters of a quoted string. -/
def quoteChars (flags : JsonFlags) (cs : List Char) : List Char :=
  '"' :: (cs.flatMap (escapeChar flags) ++ ['"'])

/-- A string as a JSON string literal. -/
def quote (flags : JsonFlags) (s : String) : String := String.ofList (quoteChars flags s.toList)

end Json

end TypedJson
