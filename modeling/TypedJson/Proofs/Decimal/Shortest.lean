import TypedJson.Json.Scalar
import TypedJson.Proofs.Decimal.Integer

/-!
# Texts of doubles

The text of a finite double is a number literal, also after it has lost its `.0`. Nothing has to be
known about which decimal is the shortest: it is enough that its digits do not start with a zero,
and they do not, since no decimal near a double other than zero has the coefficient zero.
-/

namespace TypedJson.Decimal

/-! ## Coefficients -/

/-- A decimal that is zero is `0 * 10 ^ 0`, so that it is written as `0.0`. -/
def IsProper (d : Decimal) : Prop := d.coefficient = 0 → d.exponent = 0

theorem above_pos {base : Nat} (h : 0 < base) (e : Int) : 0 < above base e := Nat.pow_pos h

/-- Zero does not read back as another number. -/
theorem ne_zero_of_onGrid? {b : Binary} {p : Int} {c : Nat} (hb : 0 < b.significand)
    (h : onGrid? b p = some c) : c ≠ 0 := by
  unfold onGrid? at h
  extract_lets up down middle low high inside below beyond at h
  have hup : 0 < up := Nat.mul_pos (above_pos (by decide) _) (above_pos (by decide) _)
  have hsize : 0 < 4 * b.significand - (if b.lowest then 1 else 2) := by
    split <;> omega
  have hlow : 0 < low := Nat.mul_pos hsize hup
  -- The interval of what reads back as the number begins at `low`, so zero is not inside.
  have hzero : inside 0 = false := by
    simp only [inside, Nat.zero_mul]
    split
    · rw [decide_eq_false (Nat.not_le.mpr hlow), Bool.false_and]
    · rw [decide_eq_false (Nat.not_lt_zero low), Bool.false_and]
  have hbelow : inside below = true → below ≠ 0 := by
    rintro hinside hb
    rw [hb, hzero] at hinside
    exact Bool.false_ne_true hinside
  split at h
  · next hinside =>
    split at h
    · split at h
      · exact Option.some.inj h ▸ hbelow hinside
      · exact Option.some.inj h ▸ Nat.succ_ne_zero below
    · exact Option.some.inj h ▸ hbelow hinside
  · split at h
    · exact Option.some.inj h ▸ Nat.succ_ne_zero below
    · exact nomatch h

theorem IsProper.normalize {d : Decimal} (h : d.IsProper) (fuel : Nat) :
    (d.normalize fuel).IsProper := by
  induction fuel generalizing d with
  | zero => exact h
  | succ fuel ih =>
    rw [Decimal.normalize]
    split
    · next hdivides =>
      refine ih fun hzero ↦ ?_
      have hzero : d.coefficient / 10 = 0 := hzero
      omega
    · exact h

theorem isProper_shortest {b : Binary} (hb : 0 < b.significand) : (shortest b).IsProper := by
  refine IsProper.normalize ?_ 20
  generalize hfound : List.findSome? _ (List.range 18) = found
  cases found with
  | none => exact fun _ ↦ rfl
  | some d =>
    obtain ⟨n, -, hn⟩ := List.exists_of_findSome?_eq_some hfound
    obtain ⟨c, hc, rfl⟩ := Option.map_eq_some_iff.mp hn
    exact fun hzero ↦ absurd hzero (ne_zero_of_onGrid? hb hc)

theorem significand_ofBits {size : Nat} (h : size ≠ 0) (hfinite : size < 2047 * Nat.pow 2 52) :
    0 < (Binary.ofBits size).significand := by
  have hpow : Nat.pow 2 52 = 4503599627370496 := rfl
  unfold Binary.ofBits
  simp only [hpow] at hfinite ⊢
  split
  · next hbiased =>
    show 0 < size % 4503599627370496
    omega
  · exact Nat.lt_of_lt_of_le (by decide) (Nat.le_add_right _ _)

/-! ## Characters of literals -/

/-- Digits, at least one. -/
structure AreDigits (cs : List Char) : Prop where
  isDigit : ∀ c ∈ cs, c.isDigit = true
  ne_nil : cs ≠ []

/-- The characters of a fraction, which may be missing. -/
inductive FractionText : List Char → Prop
  | missing : FractionText []
  | digits {ds : List Char} (h : AreDigits ds) : FractionText ('.' :: ds)

/-- The characters of an exponent with a sign, which may be missing. -/
inductive ExponentText : List Char → Prop
  | missing : ExponentText []
  | digits {sign : Char} {ds : List Char} (hsign : sign = '+' ∨ sign = '-') (h : AreDigits ds) :
      ExponentText ('e' :: sign :: ds)

/-- The characters of a literal without a minus sign in front. -/
inductive SizeText : List Char → Prop
  | mk {whole fraction exponent : List Char} (hwhole : AreDigits whole)
      (hzero : whole.head? = some '0' → whole.length = 1) (hfraction : FractionText fraction)
      (hexponent : ExponentText exponent) : SizeText (whole ++ (fraction ++ exponent))

theorem AreDigits.toDigits (n : Nat) : AreDigits (Nat.toDigits 10 n) :=
  ⟨fun _ ↦ isDigit_of_mem_digits, Nat.toDigits_ne_nil⟩

theorem AreDigits.append {cs ds : List Char} (hcs : AreDigits cs)
    (hds : ∀ c ∈ ds, c.isDigit = true) : AreDigits (cs ++ ds) :=
  ⟨fun c hc ↦ (List.mem_append.mp hc).elim (hcs.isDigit c) (hds c),
    List.append_ne_nil_of_left_ne_nil hcs.ne_nil ds⟩

theorem AreDigits.zero : AreDigits ['0'] :=
  ⟨List.forall_mem_singleton.mpr rfl, List.cons_ne_nil _ _⟩

theorem AreDigits.take {cs : List Char} {n : Nat} (h : AreDigits cs) (hn : 0 < n) :
    AreDigits (cs.take n) := by
  refine ⟨fun c hc ↦ h.isDigit c (List.mem_of_mem_take hc), fun hnil ↦ ?_⟩
  obtain hzero | hnone := List.take_eq_nil_iff.mp hnil
  · exact Nat.ne_of_gt hn hzero
  · exact h.ne_nil hnone

theorem AreDigits.drop {cs : List Char} {n : Nat} (h : AreDigits cs) (hn : n < cs.length) :
    AreDigits (cs.drop n) := by
  refine ⟨fun c hc ↦ h.isDigit c (List.mem_of_mem_drop hc), fun hnil ↦ ?_⟩
  exact Nat.not_le.mpr hn (List.drop_eq_nil_iff.mp hnil)

theorem isDigit_of_mem_zeros {n : Nat} {c : Char} (h : c ∈ List.replicate n '0') :
    c.isDigit = true := by
  rw [List.eq_of_mem_replicate h]
  rfl

/-- A decimal with a zero at its front is zero. -/
theorem IsProper.digits {d : Decimal} (h : d.IsProper)
    (hzero : (digitsOf d.coefficient).head? = some '0') :
    (digitsOf d.coefficient).length = 1 ∧ d.exponent = 0 := by
  obtain hnone | hpos := Nat.eq_zero_or_pos d.coefficient
  · rw [hnone]
    exact ⟨rfl, h hnone⟩
  · exact absurd hzero (head?_toDigits hpos)

theorem IsProper.sizeText {d : Decimal} (h : d.IsProper) : SizeText d.text := by
  have hdigits : AreDigits (digitsOf d.coefficient) := .toDigits _
  have hzero := h.digits
  unfold text
  extract_lets ds length point e sign mantissa
  have hpoint : point = length + d.exponent := rfl
  have hlength : 0 < length := List.length_pos_iff.mpr hdigits.ne_nil
  split
  · next hplain =>
    have hwhole : AreDigits (ds ++ List.replicate d.exponent.toNat '0') :=
      hdigits.append fun _ ↦ isDigit_of_mem_zeros
    refine .mk hwhole (fun hhead ↦ ?_) (.digits .zero) .missing
    -- A zero at the front is all of the digits, and no zeros follow it.
    rw [List.head?_append, List.head?_eq_some_head hdigits.ne_nil, Option.some_or] at hhead
    rw [← List.head?_eq_some_head hdigits.ne_nil] at hhead
    obtain ⟨hone, hexponent⟩ := hzero hhead
    rw [hexponent, Int.toNat_zero, List.replicate_zero, List.append_nil]
    exact hone
  split
  · next hnot hplain =>
    have hwhole : AreDigits (ds.take point.toNat) := hdigits.take (by omega)
    have hrest : AreDigits (ds.drop point.toNat) :=
      hdigits.drop (show point.toNat < length by omega)
    rw [← List.append_nil (ds.drop point.toNat)]
    refine .mk hwhole (fun hhead ↦ ?_) (.digits hrest) .missing
    -- A zero would have been written with its exponent, and this exponent is negative.
    rw [List.head?_take, if_neg (by omega)] at hhead
    have hexponent := (hzero hhead).2
    omega
  split
  · next hsmall =>
    -- All digits stand behind the point, with zeros in front.
    have hrest : AreDigits (List.replicate (-point).toNat '0' ++ ds) :=
      ⟨fun c hc ↦ (List.mem_append.mp hc).elim isDigit_of_mem_zeros (hdigits.isDigit c),
        List.append_ne_nil_of_right_ne_nil _ hdigits.ne_nil⟩
    rw [← List.append_nil (List.replicate (-point).toNat '0' ++ ds)]
    exact .mk .zero (fun _ ↦ rfl) (.digits hrest) .missing
  · have hexponent : ExponentText ('e' :: sign :: digitsOf e.natAbs) := by
      refine .digits ?_ (.toDigits _)
      by_cases he : e < 0
      · exact .inr (if_pos he)
      · exact .inl (if_neg he)
    -- One digit alone has no point behind it; of more, the first one stands before the point.
    by_cases hone : length = 1
    · have hmantissa : mantissa = ds := if_pos hone
      rw [hmantissa]
      exact .mk hdigits (fun _ ↦ hone) .missing hexponent
    · have hmantissa : mantissa = ds.take 1 ++ '.' :: ds.drop 1 := if_neg hone
      have hrest : AreDigits (ds.drop 1) := hdigits.drop (show 1 < length by omega)
      rw [hmantissa, List.append_assoc]
      refine .mk (hdigits.take Nat.one_pos) (fun _ ↦ ?_) (.digits hrest) hexponent
      rw [List.length_take]
      omega

/-! ## Literals -/

theorem AreDigits.exists_isDigits {cs : List Char} (h : AreDigits cs) :
    ∃ ds, IsDigits (cs.flatMap String.utf8EncodeChar) ds ∧ ds ≠ [] ∧
      ds.length = cs.length ∧ (ds.head? = some 0 → cs.head? = some '0') := by
  refine ⟨digitValues cs, isDigits_encode h.isDigit, ?_, List.length_map _, fun hzero ↦ ?_⟩
  · rw [digitValues, ne_eq, List.map_eq_nil_iff]
    exact h.ne_nil
  · rw [digitValues, List.head?_map, Option.map_eq_some_iff] at hzero
    obtain ⟨c, hc, hvalue⟩ := hzero
    have hdigit := toNat_of_isDigit (h.isDigit c (List.mem_of_head? hc))
    have hchar : c = '0' := Char.toNat_inj.mp (show c.toNat = 0x30 by omega)
    rw [hc, hchar]

theorem FractionText.exists_isFraction {cs : List Char} (h : FractionText cs) :
    ∃ fraction, IsFraction (cs.flatMap String.utf8EncodeChar) fraction := by
  cases h with
  | missing => exact ⟨none, .missing⟩
  | digits h =>
    obtain ⟨ds, hds, hne, -, -⟩ := h.exists_isDigits
    exact ⟨some ds, .digits hds hne⟩

theorem ExponentText.exists_isExponent {cs : List Char} (h : ExponentText cs) :
    ∃ exponent, IsExponent (cs.flatMap String.utf8EncodeChar) exponent := by
  cases h with
  | missing => exact ⟨none, .missing⟩
  | digits hsign h =>
    obtain ⟨ds, hds, hne, -, -⟩ := h.exists_isDigits
    obtain rfl | rfl := hsign
    · exact ⟨some (false, ds), @IsExponent.digits _ [0x2B] _ _ _ (.inl rfl) .plus hds hne⟩
    · exact ⟨some (true, ds), @IsExponent.digits _ [0x2D] _ _ _ (.inl rfl) .minus hds hne⟩

/-- A literal is the characters of a size behind a sign. -/
theorem SizeText.exists_isLiteral {cs : List Char} (h : SizeText cs) (negative : Bool) :
    ∃ l, IsLiteral (((if negative then ['-'] else []) ++ cs).flatMap String.utf8EncodeChar) l := by
  obtain ⟨hwhole, hzero, hfraction, hexponent⟩ := h
  obtain ⟨whole, hwhole', hne, hlength, hhead⟩ := hwhole.exists_isDigits
  obtain ⟨fraction, hfraction'⟩ := hfraction.exists_isFraction
  obtain ⟨exponent, hexponent'⟩ := hexponent.exists_isExponent
  have hsign : IsSign ((if negative then ['-'] else []).flatMap String.utf8EncodeChar)
      negative := by
    cases negative with
    | false => exact .missing
    | true => exact .minus
  refine ⟨⟨negative, whole, fraction, exponent⟩, ?_⟩
  rw [List.flatMap_append, List.flatMap_append, List.flatMap_append]
  exact .mk hsign hwhole' hne (fun h ↦ hlength ▸ hzero (hhead h)) hfraction' hexponent'

/-! ## Texts without a zero fraction -/

theorem withoutZeroFraction_append {cs : List Char} (h : '.' ∉ cs) (rest : List Char) :
    Json.withoutZeroFraction (cs ++ rest) = cs ++ Json.withoutZeroFraction rest := by
  induction cs with
  | nil => rfl
  | cons c cs ih =>
    obtain ⟨hc, hcs⟩ := not_or.mp (mt List.mem_cons.mpr h)
    rw [List.cons_append, Json.withoutZeroFraction, ih hcs, List.cons_append]
    rintro rfl
    exact (hc rfl).elim

theorem AreDigits.not_point {cs : List Char} (h : AreDigits cs) : '.' ∉ cs :=
  fun hmem ↦ absurd (h.isDigit _ hmem) (by decide)

theorem ExponentText.not_point {cs : List Char} (h : ExponentText cs) : '.' ∉ cs := by
  cases h with
  | missing => exact List.not_mem_nil
  | digits hsign h =>
    rw [List.mem_cons, List.mem_cons]
    rintro (he | hs | hmem)
    · exact absurd he (by decide)
    · obtain rfl | rfl := hsign <;> exact absurd hs (by decide)
    · exact h.not_point hmem

/-- A literal that loses its `.0` is a literal: the zero is all of its fraction. -/
theorem SizeText.withoutZeroFraction {cs : List Char} (h : SizeText cs) :
    SizeText (Json.withoutZeroFraction cs) := by
  obtain @⟨whole, fraction, exponent, hwhole, hzero, hfraction, hexponent⟩ := h
  have hplain : ∀ {cs : List Char}, '.' ∉ cs → Json.withoutZeroFraction cs = cs := by
    intro cs hcs
    rw [← List.append_nil cs, withoutZeroFraction_append hcs]
    rfl
  -- Only what stands behind the point matters, and there is one in the fraction only.
  rw [withoutZeroFraction_append hwhole.not_point]
  cases hfraction with
  | missing =>
    rw [List.nil_append, hplain hexponent.not_point]
    exact .mk hwhole hzero .missing hexponent
  | @digits ds h =>
    rw [List.cons_append]
    by_cases hdrop : ds ++ exponent = ['0']
    · rw [hdrop]
      exact .mk hwhole hzero .missing .missing
    · rw [Json.withoutZeroFraction, hplain]
      · exact .mk hwhole hzero (.digits h) hexponent
      · rw [List.mem_append]
        exact not_or.mpr ⟨h.not_point, hexponent.not_point⟩
      · exact fun _ ↦ hdrop

/-- **The text of a double is a number literal.** -/
theorem exists_isLiteral_of_floatText? {flags : JsonFlags} {f : Float} {text : String}
    (h : Json.floatText? flags f = some text) : ∃ l, IsLiteral (Utf8.encode text) l := by
  obtain ⟨full, hfull, htext⟩ := Option.map_eq_some_iff.mp h
  obtain ⟨negative, cs, rfl, hcs⟩ : ∃ (negative : Bool) (cs : List Char),
      full = String.ofList ((if negative then ['-'] else []) ++ cs) ∧ SizeText cs := by
    unfold floatText? at hfull
    split at hfull
    next negative size _ =>
    simp only at hfull
    split at hfull
    · exact nomatch hfull
    · next hfinite =>
      split at hfull
      · refine ⟨negative, ['0', '.', '0'], (Option.some.inj hfull).symm, ?_⟩
        exact .mk .zero (fun _ ↦ rfl) (.digits .zero) .missing
      · next hsize =>
        refine ⟨negative, _, (Option.some.inj hfull).symm, ?_⟩
        exact (isProper_shortest (significand_ofBits hsize (Nat.not_le.mp hfinite))).sizeText
  by_cases hkeep : flags.has .preserveZeroFraction = true
  · rw [if_pos hkeep] at htext
    rw [← htext, Utf8.encode_ofList]
    exact hcs.exists_isLiteral negative
  · rw [if_neg hkeep, String.toList_ofList, withoutZeroFraction_append] at htext
    · rw [← htext, Utf8.encode_ofList]
      exact hcs.withoutZeroFraction.exists_isLiteral negative
    · cases negative <;> decide

end TypedJson.Decimal
