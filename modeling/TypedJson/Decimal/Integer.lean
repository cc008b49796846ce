/-!
# Integers of 64 bits

An integer is written as ASCII digits with an optional sign of either kind; leading zeros are
allowed.
-/

namespace TypedJson.Decimal

/-- The value of an ASCII digit. -/
def charDigit? (c : Char) : Option Nat := if c.isDigit then some (c.toNat - 0x30) else none

/-- The number that digits continue. -/
def natFrom? (n : Nat) : List Char → Option Nat
  | [] => some n
  | c :: cs => do natFrom? (10 * n + (← charDigit? c)) cs

/-- The number of one or more digits. -/
def nat? (cs : List Char) : Option Nat := if cs.isEmpty then none else natFrom? 0 cs

/-- The integer of a text. -/
def int? : List Char → Option Int
  | '-' :: cs => (nat? cs).map fun n ↦ -(n : Int)
  | '+' :: cs => (nat? cs).map Int.ofNat
  | cs => (nat? cs).map Int.ofNat

/-- The integer of a text, if it fits in 64 bits. -/
def int64? (text : String) : Option Int64 := do
  let i ← int? text.toList
  if Int64.minValue.toInt ≤ i ∧ i ≤ Int64.maxValue.toInt then some (Int64.ofInt i) else none

end TypedJson.Decimal
