import TypedJson.Decimal.Shortest
import TypedJson.Json.Quoted

/-!
# Doubles in encoded text

A double is written with the fewest digits that read back. A whole number loses its `.0` unless a
flag keeps it.
-/

namespace TypedJson.Json

/-- Characters without a final `.0`. -/
def withoutZeroFraction : List Char → List Char
  | ['.', '0'] => []
  | c :: cs => c :: withoutZeroFraction cs
  | [] => []

/-- The text of a double; there is none for NaN and the infinities. -/
def floatText? (flags : JsonFlags) (f : Float) : Option String :=
  (Decimal.floatText? f).map fun text ↦
    if flags.has .preserveZeroFraction then text
    else String.ofList (withoutZeroFraction text.toList)

end TypedJson.Json
