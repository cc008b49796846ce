import TypedJson.Entries
import TypedJson.Decimal.Shortest

/-!
# JSON values

A number keeps the form it was written in: a natural number of 64 bits, a negative integer of 64
bits, or a double. Numbers of different forms are different, also where their values agree, so
that `1` is no case of an enumeration that registers `1.0`.
-/

namespace TypedJson

/-- A number of a JSON text. -/
inductive Number where
  /-- Written without sign, fraction and exponent, and below `2 ^ 64`. -/
  | natural (n : UInt64)
  /-- A negative integer from `-2 ^ 63` on. -/
  | negative (n : Int64)
  /-- Anything else, as the double it is read as. -/
  | float (f : Float)

namespace Number

/-- The number as a signed integer of 64 bits, if it is one. -/
def toInt64? : Number → Option Int64
  | natural n => if n.toNat < Nat.pow 2 63 then some (Int64.ofNat n.toNat) else none
  | negative n => some n
  | float _ => none

/-- The double nearest to the number. -/
def toFloat : Number → Float
  | natural n => Float.ofNat n.toNat
  | negative n => Float.ofInt n.toInt
  | float f => f

/-- The number of a signed integer. -/
def ofInt64 (i : Int64) : Number :=
  if i.toInt < 0 then negative i else natural (UInt64.ofNat i.toInt.toNat)

/-- Equality of numbers of the same form; doubles are compared as numbers. -/
def same : Number → Number → Bool
  | natural a, natural b => a == b
  | negative a, negative b => a == b
  | float a, float b => a == b
  | _, _ => false

/-- The text of a number. A double that is no number, which no text is read as, is `null`. -/
def text : Number → String
  | natural n => toString n.toNat
  | negative n => toString n.toInt
  | float f => (Decimal.floatText? f).getD "null"

end Number

/-- A JSON value. The entries of a dictionary have distinct keys, in the order of their first
occurrence. -/
inductive Json where
  | null
  | bool (b : Bool)
  | number (n : Number)
  | string (s : String)
  | list (items : List Json)
  | dict (entries : List (String × Json))

instance : Inhabited Json := ⟨.null⟩

namespace Json

/-- The number of a natural number below `2 ^ 64`. -/
def nat (n : Nat) : Json := number (.natural (UInt64.ofNat n))

/-- The number of an integer of 64 bits. -/
def int (i : Int64) : Json := number (.ofInt64 i)

/-- `null` for nothing. -/
def ofOption (f : α → Json) : Option α → Json
  | none => null
  | some a => f a

/-- A list of strings. -/
def strings (items : List String) : Json := list (items.map string)

/-- The value of a field, for a dictionary that has it. -/
def field? : Json → String → Option Json
  | dict entries, key => Entries.find? entries key
  | _, _ => none

mutual

/-- Equality of values. The order of the entries of a dictionary does not count. -/
def same : Json → Json → Bool
  | null, null => true
  | bool a, bool b => a == b
  | number a, number b => a.same b
  | string a, string b => a == b
  | list as, list bs => sameItems as bs
  | dict as, dict bs => as.length == bs.length && sameEntries as bs
  | _, _ => false

/-- Equality of lists, item by item. -/
def sameItems : List Json → List Json → Bool
  | [], [] => true
  | a :: as, b :: bs => same a b && sameItems as bs
  | _, _ => false

/-- Whether every entry has an equal value under the same key. -/
def sameEntries : List (String × Json) → List (String × Json) → Bool
  | [], _ => true
  | (key, a) :: as, bs =>
    (match Entries.find? bs key with
      | some b => same a b
      | none => false) && sameEntries as bs

end

end Json

end TypedJson
