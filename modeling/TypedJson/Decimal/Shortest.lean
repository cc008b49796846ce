/-!
# The shortest decimal of a binary float

A finite double is `significand * 2 ^ exponent`. The decimals that read back as it form an
interval around it, which contains its ends exactly if the significand is even. Among all decimals
in the interval `shortest` takes one with the fewest digits, and of those the nearest. A decimal
grid meets the interval exactly if one of the value's two neighbours on the grid lies in it, so two
candidates for each number of digits are enough.
-/

namespace TypedJson

/-- A positive decimal: `coefficient * 10 ^ exponent`. -/
structure Decimal where
  coefficient : Nat
  exponent : Int
  deriving DecidableEq

namespace Decimal

/-- A positive binary float: `significand * 2 ^ exponent`. `lowest` says that the float below lies
half as far away as the float above, as it does at the powers of two. -/
structure Binary where
  significand : Nat
  exponent : Int
  lowest : Bool

/-- The binary float of the lower 63 bits of a finite double other than zero. -/
def Binary.ofBits (bits : Nat) : Binary :=
  let fraction := bits % Nat.pow 2 52
  let biased := bits / Nat.pow 2 52 % 2048
  if biased = 0 then ⟨fraction, -1074, false⟩
  else ⟨Nat.pow 2 52 + fraction, (biased : Int) - 1075, fraction == 0 && biased != 1⟩

/-- The power of a base, one for a negative exponent. -/
def above (base : Nat) (e : Int) : Nat := base.pow e.toNat

/-- The largest `e` with `10 ^ e ≤ num / den`, sought around the estimate that the bit lengths of
the two numbers give. -/
def magnitude (num den : Nat) : Int :=
  let estimate := ((Nat.log2 num : Int) - Nat.log2 den) * 1233 / 4096
  let holds (e : Int) : Bool := den * above 10 e ≤ num * above 10 (-e)
  if holds (estimate + 2) then estimate + 2
  else if holds (estimate + 1) then estimate + 1
  else if holds estimate then estimate
  else if holds (estimate - 1) then estimate - 1
  else estimate - 2

/-- A neighbour of `b` on the decimal grid with unit `10 ^ (-p)` that reads back as `b`; the nearer
one if both do, and the even one if they are equally near. -/
def onGrid? (b : Binary) (p : Int) : Option Nat :=
  let up := above 2 (b.exponent - 2) * above 10 p
  let down := above 2 (2 - b.exponent) * above 10 (-p)
  let middle := 4 * b.significand * up
  let low := (4 * b.significand - (if b.lowest then 1 else 2)) * up
  let high := (4 * b.significand + 2) * up
  let inside (c : Nat) : Bool :=
    if b.significand % 2 = 0 then low ≤ c * down && c * down ≤ high
    else low < c * down && c * down < high
  let below := middle / down
  let beyond := below + 1
  if inside below then
    if inside beyond then
      let far := 2 * (middle % down)
      if far < down || (far == down && below % 2 == 0) then some below else some beyond
    else some below
  else if inside beyond then some beyond
  else none

/-- The decimal without trailing zeros among its digits. -/
def normalize (fuel : Nat) (d : Decimal) : Decimal :=
  match fuel with
  | 0 => d
  | fuel + 1 =>
    if d.coefficient % 10 = 0 ∧ d.coefficient ≠ 0 then
      normalize fuel ⟨d.coefficient / 10, d.exponent + 1⟩
    else d

/-- The shortest decimal that reads back as `b`. Seventeen digits are always enough. -/
def shortest (b : Binary) : Decimal :=
  let num := b.significand * above 2 b.exponent
  let den := above 2 (-b.exponent)
  let e := magnitude num den
  let found := (List.range 18).findSome? fun (n : Nat) ↦
    (onGrid? b ((n : Int) - e)).map fun c ↦ Decimal.mk c (e - n)
  (found.getD ⟨0, 0⟩).normalize 20

/-- The digits of a number, the highest first. -/
def digitsOf (n : Nat) : List Char := Nat.toDigits 10 n

/-- A positive decimal as text. Up to `10 ^ 16` and down to `10 ^ (-5)` it is written plainly, with
at least one digit after the point; beyond, with one digit before the point and a signed
exponent. -/
def text (d : Decimal) : List Char :=
  let ds := digitsOf d.coefficient
  let length := ds.length
  let point : Int := length + d.exponent
  if 0 ≤ d.exponent ∧ point ≤ 16 then
    ds ++ List.replicate d.exponent.toNat '0' ++ ['.', '0']
  else if 0 < point ∧ point ≤ 16 then
    ds.take point.toNat ++ '.' :: ds.drop point.toNat
  else if -5 < point ∧ point ≤ 0 then
    '0' :: '.' :: (List.replicate (-point).toNat '0' ++ ds)
  else
    let e := point - 1
    let sign := if e < 0 then '-' else '+'
    let mantissa := if length = 1 then ds else ds.take 1 ++ '.' :: ds.drop 1
    mantissa ++ 'e' :: sign :: digitsOf e.natAbs

/-- Whether the sign bit of a double is set, and the other bits. -/
def signAndSize (f : Float) : Bool × Nat :=
  let bits := f.toBits.toNat
  (Nat.pow 2 63 ≤ bits, bits % Nat.pow 2 63)

/-- A finite double as JSON text, the sign of zero included; `none` for infinities and NaN. -/
def floatText? (f : Float) : Option String :=
  let (negative, size) := signAndSize f
  let sign := if negative then ['-'] else []
  if 2047 * Nat.pow 2 52 ≤ size then none
  else if size = 0 then some (String.ofList (sign ++ ['0', '.', '0']))
  else some (String.ofList (sign ++ (shortest (.ofBits size)).text))

end Decimal

end TypedJson
