import TypedJson.Decimal.Literal

/-!
# Whole literals

A number literal without fraction and exponent is *whole*. It stands for an integer, and as long as
64 bits hold that integer with its sign, the literal is read as the integer. Minus zero is the one
exception: 64 bits hold zero, but the literal `-0` is read as a double.
-/

namespace TypedJson.Decimal

/-! ## Digits -/

/-- The number that digits continue. -/
def fromDigits (n : Nat) (ds : List Nat) : Nat := ds.foldl (fun n d ↦ n * 10 + d) n

theorem fromDigits_cons (n d : Nat) (ds : List Nat) :
    fromDigits n (d :: ds) = fromDigits (n * 10 + d) ds := rfl

theorem le_fromDigits (n : Nat) (ds : List Nat) : n ≤ fromDigits n ds := by
  induction ds generalizing n with
  | nil => exact Nat.le_refl n
  | cons d ds ih => exact Nat.le_trans (by omega) (ih (n * 10 + d))

theorem absorb_of_lt {n : Nat} {ds : List Nat} (h : fromDigits n ds < UInt64.size) :
    absorb n ds = (fromDigits n ds, []) := by
  induction ds generalizing n with
  | nil => rfl
  | cons d ds ih =>
    have hlt : n * 10 + d < UInt64.size := Nat.lt_of_le_of_lt (le_fromDigits _ ds) h
    rw [absorb, if_pos hlt, fromDigits_cons]
    exact ih h

/-- Some digits are left over if the number does not stay below `2 ^ 64`. -/
theorem absorb_of_le {n : Nat} {ds : List Nat} (hn : n < UInt64.size)
    (h : UInt64.size ≤ fromDigits n ds) : (absorb n ds).2 ≠ [] := by
  induction ds generalizing n with
  | nil => exact absurd hn (Nat.not_lt_of_le h)
  | cons d ds ih =>
    rw [absorb]
    by_cases hlt : n * 10 + d < UInt64.size
    · rw [if_pos hlt]
      exact ih hlt h
    · rw [if_neg hlt]
      exact List.cons_ne_nil d ds

/-! ## Values -/

namespace Literal

/-- Neither a fraction nor an exponent is written. -/
def IsWhole (l : Literal) : Prop := l.fraction = none ∧ l.exponent = none

instance (l : Literal) : Decidable l.IsWhole :=
  inferInstanceAs (Decidable (l.fraction = none ∧ l.exponent = none))

/-- The number of the digits before the point. -/
def natural (l : Literal) : Nat := fromDigits 0 l.whole

/-- The integer that a whole literal stands for. -/
def integer (l : Literal) : Int := if l.negative then -(l.natural : Int) else l.natural

/-- A zero with a minus sign. -/
def IsMinusZero (l : Literal) : Prop := l.negative = true ∧ l.natural = 0

instance (l : Literal) : Decidable l.IsMinusZero :=
  inferInstanceAs (Decidable (l.negative = true ∧ l.natural = 0))

/-- The integer of a whole literal fits in 64 bits with a sign. -/
def FitsInt64 (l : Literal) : Prop :=
  Int64.minValue.toInt ≤ l.integer ∧ l.integer ≤ Int64.maxValue.toInt

instance (l : Literal) : Decidable l.FitsInt64 :=
  inferInstanceAs (Decidable (Int64.minValue.toInt ≤ l.integer ∧ l.integer ≤ Int64.maxValue.toInt))

variable {l : Literal} {i : Int64}

theorem fitsInt64_iff :
    l.FitsInt64 ↔ -9223372036854775808 ≤ l.integer ∧ l.integer ≤ 9223372036854775807 := Iff.rfl

theorem fitsInt64_of_toInt_eq (h : i.toInt = l.integer) : l.FitsInt64 := by
  have hlow := Int64.le_toInt i
  have hhigh := Int64.toInt_lt i
  rw [fitsInt64_iff, ← h]
  omega

theorem FitsInt64.toInt_ofInt (h : l.FitsInt64) : (Int64.ofInt l.integer).toInt = l.integer := by
  rw [fitsInt64_iff] at h
  exact Int64.toInt_ofInt_of_le (by omega) (by omega)

/-- There is one integer of 64 bits for each literal that fits. -/
theorem FitsInt64.ofInt_eq_iff (h : l.FitsInt64) :
    some (Int64.ofInt l.integer) = some i ↔ i.toInt = l.integer := by
  rw [Option.some.injEq, ← Int64.toInt_inj, h.toInt_ofInt, eq_comm]

/-! ## Reading -/

theorem value?_of_isWhole (h : l.IsWhole) (hlt : l.natural < UInt64.size) :
    l.value? =
      if l.negative then
        if 0 < l.natural ∧ l.natural ≤ Nat.pow 2 63 then
          some (.negative (Int64.ofInt (-l.natural)))
        else some (.float (-(Float.ofNat l.natural)))
      else some (.natural (UInt64.ofNat l.natural)) := by
  have hall : absorb 0 l.whole = (l.natural, []) := absorb_of_lt hlt
  rw [value?, hall, h.1, h.2]
  rfl

/-- What is not whole, or has too many digits, is read as a double, or not at all. -/
theorem value?_of_rest (h : ¬ (l.IsWhole ∧ (absorb 0 l.whole).2 = [])) :
    l.value? = l.toFloat?.map .float := by
  have hcond :
      ¬ (l.fraction.isNone && l.exponent.isNone && (absorb 0 l.whole).2.isEmpty) = true := by
    simpa [IsWhole] using h
  rw [value?]
  exact if_neg hcond

theorem bind_toInt64?_of_rest (h : ¬ (l.IsWhole ∧ (absorb 0 l.whole).2 = [])) :
    l.value?.bind Number.toInt64? = none := by
  rw [value?_of_rest h]
  cases l.toFloat? <;> rfl

theorem bind_toInt64?_of_negative (hwhole : l.IsWhole) (hlt : l.natural < UInt64.size)
    (hnegative : l.negative = true) :
    l.value?.bind Number.toInt64? = some i ↔ ¬ l.IsMinusZero ∧ i.toInt = l.integer := by
  have hhalf : Nat.pow 2 63 = 9223372036854775808 := rfl
  have hinteger : l.integer = -(l.natural : Int) := if_pos hnegative
  rw [value?_of_isWhole hwhole hlt, if_pos hnegative]
  by_cases hrange : 0 < l.natural ∧ l.natural ≤ Nat.pow 2 63
  · have hfits : l.FitsInt64 := by
      rw [fitsInt64_iff, hinteger]
      omega
    have hzero : ¬ l.IsMinusZero := fun hzero ↦ Nat.ne_of_gt hrange.1 hzero.2
    rw [if_pos hrange, ← hinteger, Option.bind_some, Number.toInt64?, hfits.ofInt_eq_iff]
    exact (and_iff_right hzero).symm
  · rw [if_neg hrange, Option.bind_some, Number.toInt64?]
    refine iff_of_false (Option.some_ne_none i).symm ?_
    rintro ⟨hzero, hi⟩
    have hlow := Int64.le_toInt i
    have hpos : 0 < l.natural := Nat.pos_of_ne_zero fun hnil ↦ hzero ⟨hnegative, hnil⟩
    omega

theorem bind_toInt64?_of_not_negative (hwhole : l.IsWhole) (hlt : l.natural < UInt64.size)
    (hnegative : ¬ l.negative = true) :
    l.value?.bind Number.toInt64? = some i ↔ i.toInt = l.integer := by
  have hhalf : Nat.pow 2 63 = 9223372036854775808 := rfl
  have hinteger : l.integer = (l.natural : Int) := if_neg hnegative
  rw [value?_of_isWhole hwhole hlt, if_neg hnegative, Option.bind_some, Number.toInt64?,
    UInt64.toNat_ofNat_of_lt' hlt]
  by_cases hrange : l.natural < Nat.pow 2 63
  · have hfits : l.FitsInt64 := by
      rw [fitsInt64_iff, hinteger]
      omega
    rw [if_pos hrange, ← Int64.ofInt_eq_ofNat, ← hinteger, hfits.ofInt_eq_iff]
  · have hhigh := Int64.toInt_lt i
    rw [if_neg hrange]
    refine iff_of_false (Option.some_ne_none i).symm fun hi ↦ ?_
    omega

/-- What is read as an integer, and as which. -/
theorem bind_toInt64?_eq_some_iff :
    l.value?.bind Number.toInt64? = some i ↔
      l.IsWhole ∧ ¬ l.IsMinusZero ∧ i.toInt = l.integer := by
  by_cases hwhole : l.IsWhole
  · rw [and_iff_right hwhole]
    by_cases hlt : l.natural < UInt64.size
    · by_cases hnegative : l.negative = true
      · exact bind_toInt64?_of_negative hwhole hlt hnegative
      · have hzero : ¬ l.IsMinusZero := fun hzero ↦ hnegative hzero.1
        rw [and_iff_right hzero]
        exact bind_toInt64?_of_not_negative hwhole hlt hnegative
    · have hrest : (absorb 0 l.whole).2 ≠ [] := absorb_of_le (by decide) (Nat.le_of_not_lt hlt)
      rw [bind_toInt64?_of_rest fun h ↦ hrest h.2]
      refine iff_of_false (Option.some_ne_none i).symm ?_
      rintro ⟨-, hi⟩
      -- More than 64 bits are out of range with either sign.
      have hfits := fitsInt64_iff.mp (fitsInt64_of_toInt_eq hi)
      have hsize : UInt64.size = 18446744073709551616 := rfl
      rw [integer] at hfits
      split at hfits
      · omega
      · omega
  · rw [bind_toInt64?_of_rest fun h ↦ hwhole h.1]
    exact iff_of_false (Option.some_ne_none i).symm fun h ↦ hwhole h.1

/-- Minus zero is read as a double. -/
theorem value?_of_isMinusZero (hwhole : l.IsWhole) (hzero : l.IsMinusZero) :
    l.value? = some (.float (-(Float.ofNat 0))) := by
  have hlt : l.natural < UInt64.size := by
    rw [hzero.2]
    decide
  have hrange : ¬ (0 < l.natural ∧ l.natural ≤ Nat.pow 2 63) := fun h ↦ Nat.ne_of_gt h.1 hzero.2
  rw [value?_of_isWhole hwhole hlt, if_pos hzero.1, if_neg hrange, hzero.2]

end Literal

end TypedJson.Decimal
