import TypedJson.Json.Basic

/-!
# Number literals

A literal is scanned into its parts first and valued second. An integer without fraction and
exponent keeps its exact value as long as 64 bits hold it. Everything else becomes a double: the
leading digits that fit 64 bits, taken as one integer and rounded to a double, are scaled by a
power of ten in double arithmetic, and the digits after them only move the point. The result is
the nearest double for literals of up to fifteen digits and small exponents, and close to it
otherwise. A literal beyond the largest double has no value.
-/

namespace TypedJson.Decimal

/-- The parts of a number literal; the digits are numbers below ten. -/
structure Literal where
  /-- Whether a minus sign stands in front. -/
  negative : Bool
  /-- The digits before the point, at least one. -/
  whole : List Nat
  /-- The digits after the point, if there is one. -/
  fraction : Option (List Nat)
  /-- The sign and the digits of the exponent, if there is one. -/
  exponent : Option (Bool × List Nat)

/-- The number that a byte stands for as a digit. -/
def digit? (b : UInt8) : Option Nat :=
  if 0x30 ≤ b && b ≤ 0x39 then some (b.toNat - 0x30) else none

/-- The digits at the front and what follows them. -/
def digits : List UInt8 → List Nat × List UInt8
  | [] => ([], [])
  | b :: rest =>
    match digit? b with
    | none => ([], b :: rest)
    | some d => let (ds, rest) := digits rest; (d :: ds, rest)

/-- The exponent at the front, if there is one; `none` if its digits are missing. -/
def scanExponent : List UInt8 → Option (Option (Bool × List Nat) × List UInt8)
  | b :: rest =>
    if b == 0x65 || b == 0x45 then
      let (down, rest) :=
        match rest with
        | 0x2B :: after => (false, after)
        | 0x2D :: after => (true, after)
        | _ => (false, rest)
      match digits rest with
      | ([], _) => none
      | (ds, after) => some (some (down, ds), after)
    else some (none, b :: rest)
  | [] => some (none, [])

/-- The fraction at the front, if there is one; `none` if its digits are missing. -/
def scanFraction : List UInt8 → Option (Option (List Nat) × List UInt8)
  | 0x2E :: rest =>
    match digits rest with
    | ([], _) => none
    | (ds, after) => some (some ds, after)
  | rest => some (none, rest)

/-- The literal at the front and what follows it. A leading zero stands alone. -/
def Literal.scan (bytes : List UInt8) : Option (Literal × List UInt8) := do
  let (negative, bytes) :=
    match bytes with
    | 0x2D :: rest => (true, rest)
    | _ => (false, bytes)
  let (whole, rest) := digits bytes
  if whole.isEmpty || (whole.head? == some 0 && 1 < whole.length) then none
  let (fraction, rest) ← scanFraction rest
  let (exponent, rest) ← scanExponent rest
  return (⟨negative, whole, fraction, exponent⟩, rest)

/-- Digits appended to a number as long as it stays below `2 ^ 64`, and the digits left over. -/
def absorb (n : Nat) : List Nat → Nat × List Nat
  | [] => (n, [])
  | d :: ds => if n * 10 + d < UInt64.size then absorb (n * 10 + d) ds else (n, d :: ds)

/-- The power of ten as a double. -/
def ten (e : Nat) : Float := Float.ofScientific 1 false e

/-- A double divided by a power of ten, in steps of the largest power a double holds. -/
def shrink (f : Float) (e : Nat) : Float :=
  if e ≤ 308 then f / ten e
  else if f == 0 then f
  else shrink (f / ten 308) (e - 308)
termination_by e
decreasing_by omega

/-- An integer scaled by a power of ten; `none` beyond the largest double. -/
def scale? (n : Nat) (e : Int) : Option Float :=
  let f := Float.ofNat n
  if e < 0 then some (shrink f e.natAbs)
  else if e ≤ 308 then
    let scaled := f * ten e.natAbs
    if scaled.isInf then none else some scaled
  else if n = 0 then some f
  else none

/-- The bounds between which exponents are computed; beyond them they stay at the bound. -/
def clampExponent (e : Int) : Int :=
  max Int32.minValue.toInt (min Int32.maxValue.toInt e)

/-- The double of a literal with a fraction, an exponent or too many digits. -/
def Literal.toFloat? (l : Literal) : Option Float := do
  let (whole, rest) := absorb 0 l.whole
  let ds := l.fraction.getD []
  let (n, left) := absorb whole ds
  let point : Int := (rest.length : Int) - ((ds.length - left.length : Nat) : Int)
  let size ←
    match l.exponent with
    | none => scale? n point
    | some (down, ds) =>
      let e : Nat := ds.foldl (fun e d ↦ e * 10 + d) 0
      if e < Nat.pow 2 31 then
        scale? n (clampExponent (if down then point - e else point + e))
      else if n ≠ 0 ∧ down = false then none
      else some 0
  return if l.negative then -size else size

/-- The number that a literal denotes; `none` beyond the largest double. Minus zero is a double. -/
def Literal.value? (l : Literal) : Option Number :=
  let (n, rest) := absorb 0 l.whole
  if l.fraction.isNone && l.exponent.isNone && rest.isEmpty then
    if l.negative then
      if 0 < n ∧ n ≤ Nat.pow 2 63 then some (.negative (Int64.ofInt (-n)))
      else some (.float (-(Float.ofNat n)))
    else some (.natural (UInt64.ofNat n))
  else l.toFloat?.map .float

end TypedJson.Decimal
