import TypedJson.DataType.Basic
import TypedJson.Fingerprint

/-!
# Hashing types

What a type writes to a hasher. Equal types have to write the same, although equality ignores the
order of union members, so a union writes the sum of its members' own hashes. A hasher is only known
by what is written to it, one write after the other; `finish` is the hash that members get, made of
all they write.
-/

namespace TypedJson

/-- One write to a hasher. -/
inductive HashWrite where
  | byte (b : UInt8)
  | word (n : UInt64)
  /-- Which of its constructors a value is made of. -/
  | variant (n : Nat)
  /-- How many items follow. -/
  | size (n : Nat)
  | text (s : String)
  deriving DecidableEq

namespace HashWrite

/-- The bytes of a write, for hashers of byte streams. -/
def bytes : HashWrite → List UInt8
  | byte b => [b]
  | word n => Fingerprint.word n
  | variant n | size n => Fingerprint.word (UInt64.ofNat n)
  | text s => Fingerprint.text s

/-- The hash of several writes. -/
def hash (writes : List HashWrite) : UInt64 := Fingerprint.hash (writes.flatMap bytes)

end HashWrite

/-- The place of a scalar kind among its siblings. -/
def ScalarKind.variant : ScalarKind → Nat
  | int => 0
  | float => 1
  | bool => 2
  | string => 3

namespace DataType

mutual

/-- What a type writes to a hasher. -/
def feed (finish : List HashWrite → UInt64) : DataType → List HashWrite
  | mk kind nullable => .byte (if nullable then 1 else 0) :: feedKind finish kind

/-- What a kind writes to a hasher. -/
def feedKind (finish : List HashWrite → UInt64) : TypeKind DataType → List HashWrite
  | .scalar kind => [.variant 0, .variant kind.variant]
  | .null => [.variant 1]
  | .mixed => [.variant 2]
  | .list item => .variant 3 :: feed finish item
  | .dict key value => .variant 4 :: (feed finish key ++ feed finish value)
  | .object className generics =>
    .variant 5 :: .text className :: .size generics.length :: feedAll finish generics
  | .enum className backing => [.variant 6, .text className, .variant backing.variant]
  | .union members => [.variant 7, .word (sumOfAll finish members)]
  | .template name => [.variant 8, .text name]

/-- What several types write to a hasher. -/
def feedAll (finish : List HashWrite → UInt64) : List DataType → List HashWrite
  | [] => []
  | t :: types => feed finish t ++ feedAll finish types

/-- The sum of the hashes of several types. -/
def sumOfAll (finish : List HashWrite → UInt64) : List DataType → UInt64
  | [] => 0
  | t :: types => finish (feed finish t) + sumOfAll finish types

end

/-- The hash of a type. -/
def hash (t : DataType) : UInt64 := HashWrite.hash (feed HashWrite.hash t)

end DataType

end TypedJson
