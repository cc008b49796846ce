import TypedJson.Text.Utf8

/-!
# Fingerprints

Cache keys are 64-bit hashes of a byte stream. The stream is built first, from strings that carry
an end mark, from eight-byte integers and from flags, and is hashed last. Two definitions can thus
be told apart by comparing their streams, whatever the hash does to them.
-/

namespace TypedJson.Fingerprint

/-- A string and the byte `0xFF`, which no UTF-8 text contains. -/
def text (s : String) : List UInt8 := Utf8.encode s ++ [0xFF]

/-- The eight bytes of an integer, the lowest first. -/
def word (n : UInt64) : List UInt8 :=
  (List.range 8).map fun i ↦ (n.toNat / Nat.pow 256 i % 256).toUInt8

/-- A flag as one byte. -/
def flag (b : Bool) : List UInt8 := [if b then 1 else 0]

/-- One step of the FNV-1a hash. -/
def step (state : UInt64) (b : UInt8) : UInt64 := (state ^^^ b.toUInt64) * 0x100000001b3

/-- The 64-bit FNV-1a hash of a stream. -/
def hash (stream : List UInt8) : UInt64 := stream.foldl step 0xcbf29ce484222325

/-- The hash of the bytes of a string, without an end mark. -/
def hashText (s : String) : UInt64 := hash (Utf8.encode s)

/-- The lower-case hexadecimal digit of a number below sixteen. -/
def hexDigit (n : Nat) : Char := Char.ofNat (if n < 10 then 0x30 + n else 0x57 + n)

/-- The lowest `width` hexadecimal digits of a number, the highest first. -/
def hex (width n : Nat) : String :=
  String.ofList ((List.range width).reverse.map fun i ↦ hexDigit (n / Nat.pow 16 i % 16))

/-- A hash as sixteen hexadecimal digits. -/
def hex64 (n : UInt64) : String := hex 16 n.toNat

end TypedJson.Fingerprint
