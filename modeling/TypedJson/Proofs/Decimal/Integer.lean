import TypedJson.Decimal.Integer
import TypedJson.Proofs.Json.Numbers
import TypedJson.Proofs.Text.Utf8

/-!
# Reading integers back

The text of an integer of 64 bits is a number literal with the value of the integer, and it is the
text of a dictionary key that is read as the integer.
-/

namespace TypedJson.Decimal

/-! ## Digits -/

theorem toNat_of_isDigit {c : Char} (h : c.isDigit = true) :
    0x30 ≤ c.toNat ∧ c.toNat ≤ 0x39 := by
  simpa [Char.isDigit, UInt32.le_iff_toNat_le] using h

theorem encodeChar_of_isDigit {c : Char} (h : c.isDigit = true) :
    String.utf8EncodeChar c = [UInt8.ofNat c.toNat] := by
  have hc := toNat_of_isDigit h
  have hle : c.val.toNat ≤ 0x7F := Nat.le_trans hc.2 (by decide)
  simp only [String.utf8EncodeChar, if_pos hle]
  rfl

theorem digit?_of_isDigit {c : Char} (h : c.isDigit = true) :
    digit? (UInt8.ofNat c.toNat) = some (c.toNat - 0x30) := by
  have hc := toNat_of_isDigit h
  have hbyte : (UInt8.ofNat c.toNat).toNat = c.toNat := Utf8.toNat_ofNat (by omega)
  simp [digit?, UInt8.le_iff_toNat_le, hbyte, hc]

/-- The numbers of digits. -/
def digitValues (cs : List Char) : List Nat := cs.map fun c ↦ c.toNat - 0x30

theorem isDigits_encode {cs : List Char} (h : ∀ c ∈ cs, c.isDigit = true) :
    IsDigits (cs.flatMap String.utf8EncodeChar) (digitValues cs) := by
  induction cs with
  | nil => exact .nil
  | cons c cs ih =>
    have hc := h c List.mem_cons_self
    rw [List.flatMap_cons, encodeChar_of_isDigit hc]
    exact .cons (digit?_of_isDigit hc) (ih fun d hd ↦ h d (List.mem_cons_of_mem c hd))

theorem le_ofDigitChars (cs : List Char) (m : Nat) : m ≤ Nat.ofDigitChars 10 cs m := by
  induction cs generalizing m with
  | nil => simp
  | cons c cs ih =>
    rw [Nat.ofDigitChars_cons]
    exact Nat.le_trans (by omega) (ih _)

/-- Digits whose number stays below `2 ^ 64` are all absorbed. -/
theorem absorb_digitValues {cs : List Char} {m : Nat}
    (h : Nat.ofDigitChars 10 cs m < UInt64.size) :
    absorb m (digitValues cs) = (Nat.ofDigitChars 10 cs m, []) := by
  induction cs generalizing m with
  | nil => simp [digitValues, absorb]
  | cons c cs ih =>
    rw [Nat.ofDigitChars_cons, Nat.mul_comm 10 m] at h ⊢
    have hlt : m * 10 + (c.toNat - 0x30) < UInt64.size :=
      Nat.lt_of_le_of_lt (le_ofDigitChars cs _) h
    rw [digitValues, List.map_cons, absorb, if_pos hlt]
    exact ih h

theorem natFrom?_eq_some {cs : List Char} (h : ∀ c ∈ cs, c.isDigit = true) (m : Nat) :
    natFrom? m cs = some (Nat.ofDigitChars 10 cs m) := by
  induction cs generalizing m with
  | nil => simp [natFrom?]
  | cons c cs ih =>
    rw [natFrom?, charDigit?, if_pos (h c List.mem_cons_self), Nat.ofDigitChars_cons]
    exact ih (fun d hd ↦ h d (List.mem_cons_of_mem c hd)) _

/-! ## Natural numbers -/

theorem isDigit_of_mem_digits {n : Nat} {c : Char} (h : c ∈ Nat.toDigits 10 n) :
    c.isDigit = true :=
  Nat.isDigit_of_mem_toDigits (by decide) (by decide) h

theorem nat?_toDigits (n : Nat) : nat? (Nat.toDigits 10 n) = some n := by
  have hne : (Nat.toDigits 10 n).isEmpty = false :=
    List.isEmpty_eq_false_iff.mpr Nat.toDigits_ne_nil
  rw [nat?, hne, if_neg Bool.false_ne_true, natFrom?_eq_some fun c ↦ isDigit_of_mem_digits,
    Nat.ofDigitChars_ten_toDigits]

/-- Only zero starts with a zero. -/
theorem head?_toDigits {n : Nat} (h : 0 < n) : (Nat.toDigits 10 n).head? ≠ some '0' := by
  induction n using Nat.strongRecOn with
  | _ n ih =>
    by_cases hlt : n < 10
    · rw [Nat.toDigits_of_lt_base hlt, List.head?_cons]
      intro hzero
      exact Nat.ne_of_gt h (Nat.digitChar_eq_zero.mp (Option.some.inj hzero))
    · have hpos : 0 < n / 10 := by omega
      have hfront := ih (n / 10) (by omega) hpos
      rw [Nat.toDigits_of_base_le (by decide) (Nat.le_of_not_lt hlt), List.head?_append]
      cases hhead : (Nat.toDigits 10 (n / 10)).head? with
      | none => exact absurd (List.head?_eq_none_iff.mp hhead) Nat.toDigits_ne_nil
      | some c =>
        rw [hhead] at hfront
        exact hfront

/-- The literal of an integer with a sign. -/
def integerLiteral (negative : Bool) (n : Nat) : Literal :=
  ⟨negative, digitValues (Nat.toDigits 10 n), none, none⟩

theorem isLiteral_digits {sign : List UInt8} {negative : Bool} (hsign : IsSign sign negative)
    (n : Nat) :
    IsLiteral (sign ++ (Nat.toDigits 10 n).flatMap String.utf8EncodeChar)
      (integerLiteral negative n) := by
  have hne : digitValues (Nat.toDigits 10 n) ≠ [] := by
    rw [digitValues, ne_eq, List.map_eq_nil_iff]
    exact Nat.toDigits_ne_nil
  have hzero : (digitValues (Nat.toDigits 10 n)).head? = some 0 →
      (digitValues (Nat.toDigits 10 n)).length = 1 := by
    intro h
    rcases Nat.eq_zero_or_pos n with rfl | hpos
    · rw [Nat.toDigits_zero]
      rfl
    · rw [digitValues, List.head?_map, Option.map_eq_some_iff] at h
      obtain ⟨c, hc, hvalue⟩ := h
      have hdigit := toNat_of_isDigit (isDigit_of_mem_digits (List.mem_of_head? hc))
      have hchar : c = '0' := Char.toNat_inj.mp (show c.toNat = 0x30 by omega)
      exact absurd (hchar ▸ hc) (head?_toDigits hpos)
  have h := IsLiteral.mk (l := integerLiteral negative n) hsign
    (isDigits_encode fun c ↦ isDigit_of_mem_digits) hne hzero .missing .missing
  rwa [List.append_nil, List.append_nil] at h

/-! ## Integers of 64 bits -/

theorem absorb_integer {n : Nat} (h : n < UInt64.size) :
    absorb 0 (digitValues (Nat.toDigits 10 n)) = (n, []) := by
  have hvalue : Nat.ofDigitChars 10 (Nat.toDigits 10 n) 0 = n := Nat.ofDigitChars_ten_toDigits
  rw [absorb_digitValues (by rwa [hvalue]), hvalue]

theorem toList_toString (i : Int) :
    (toString i).toList = if 0 ≤ i then Nat.toDigits 10 i.toNat
      else '-' :: Nat.toDigits 10 (-i).toNat := by
  rw [Int.toString_eq_repr, Int.repr_eq_if]
  split
  · exact Nat.toList_repr
  · simp

/-- The text of an integer is a literal with the value of the integer, and without fraction and
exponent. -/
theorem isLiteral_int (i : Int64) :
    ∃ l, IsLiteral (Utf8.encode (toString i.toInt)) l ∧ l.value? = some (.ofInt64 i) ∧
      l.fraction = none ∧ l.exponent = none := by
  have hlow := Int64.le_toInt i
  have hhigh := Int64.toInt_lt i
  unfold Utf8.encode
  rw [toList_toString]
  by_cases hsign : 0 ≤ i.toInt
  · refine ⟨integerLiteral false i.toInt.toNat, ?_, ?_, rfl, rfl⟩
    · rw [if_pos hsign]
      exact isLiteral_digits .missing _
    · have hsize : i.toInt.toNat < UInt64.size := by
        have : UInt64.size = 18446744073709551616 := rfl
        omega
      rw [Literal.value?, integerLiteral]
      simp only [absorb_integer hsize]
      simp [Number.ofInt64, hsign]
  · refine ⟨integerLiteral true (-i.toInt).toNat, ?_, ?_, rfl, rfl⟩
    · rw [if_neg hsign, List.flatMap_cons]
      exact isLiteral_digits .minus _
    · have hsize : (-i.toInt).toNat < UInt64.size := by
        have : UInt64.size = 18446744073709551616 := rfl
        omega
      have hback : Int64.ofInt (-((-i.toInt).toNat : Int)) = i := by
        rw [Int.toNat_of_nonneg (by omega), Int.neg_neg, Int64.ofInt_toInt]
      have hrange : 0 < (-i.toInt).toNat ∧ (-i.toInt).toNat ≤ Nat.pow 2 63 := by
        have : Nat.pow 2 63 = 9223372036854775808 := rfl
        omega
      have hnegative : i.toInt < 0 := Int.not_le.mp hsign
      rw [Literal.value?, integerLiteral]
      simp only [absorb_integer hsize]
      rw [Number.ofInt64, if_pos hnegative, hback]
      simp only [if_pos hrange]
      rfl

/-! ## Keys -/

theorem int?_of_isDigit {c : Char} {cs : List Char} (h : c.isDigit = true) :
    int? (c :: cs) = (nat? (c :: cs)).map Int.ofNat := by
  unfold int?
  split
  · next heq =>
    obtain ⟨rfl, rfl⟩ := List.cons.inj heq
    exact absurd h (by decide)
  · next heq =>
    obtain ⟨rfl, rfl⟩ := List.cons.inj heq
    exact absurd h (by decide)
  · rfl

theorem int?_toString (i : Int) : int? (toString i).toList = some i := by
  rw [toList_toString]
  split
  · next hsign =>
    obtain ⟨c, cs, hcs⟩ := List.exists_cons_of_ne_nil (Nat.toDigits_ne_nil (n := i.toNat) (b := 10))
    have hc : c.isDigit = true := isDigit_of_mem_digits (n := i.toNat) (by simp [hcs])
    rw [hcs, int?_of_isDigit hc, ← hcs, nat?_toDigits]
    exact congrArg some (Int.toNat_of_nonneg hsign)
  · next hsign =>
    rw [int?, nat?_toDigits]
    show some (-((-i).toNat : Int)) = some i
    rw [Int.toNat_of_nonneg (by omega), Int.neg_neg]

/-- The text of an integer of 64 bits is read as the integer. -/
theorem int64?_toString (i : Int64) : int64? (toString i.toInt) = some i := by
  have hlow := Int64.le_toInt i
  have hhigh := Int64.toInt_lt i
  have hrange : Int64.minValue.toInt ≤ i.toInt ∧ i.toInt ≤ Int64.maxValue.toInt := by
    have hmin : Int64.minValue.toInt = -9223372036854775808 := rfl
    have hmax : Int64.maxValue.toInt = 9223372036854775807 := rfl
    omega
  rw [int64?, int?_toString]
  show (if Int64.minValue.toInt ≤ i.toInt ∧ i.toInt ≤ Int64.maxValue.toInt then
    some (Int64.ofInt i.toInt) else none) = some i
  rw [if_pos hrange, Int64.ofInt_toInt]

end TypedJson.Decimal
