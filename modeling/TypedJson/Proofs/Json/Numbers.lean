import TypedJson.Decimal.Literal

/-!
# Texts of numbers

`IsLiteral` is the grammar of number literals. `Literal.scan` answers a literal exactly if its text
stands at the front and is not followed by a byte that would continue it.
-/

namespace TypedJson.Decimal

/-! ## The grammar -/

/-- The bytes of digits. -/
inductive IsDigits : List UInt8 → List Nat → Prop
  | nil : IsDigits [] []
  | cons {b : UInt8} {d : Nat} {bytes : List UInt8} {ds : List Nat} (hdigit : digit? b = some d)
      (hdigits : IsDigits bytes ds) : IsDigits (b :: bytes) (d :: ds)

/-- The bytes of a fraction, which may be missing. -/
inductive IsFraction : List UInt8 → Option (List Nat) → Prop
  | missing : IsFraction [] none
  | digits {bytes : List UInt8} {ds : List Nat} (hdigits : IsDigits bytes ds) (hne : ds ≠ []) :
      IsFraction (0x2E :: bytes) (some ds)

/-- The bytes of the sign of an exponent, which may be missing. -/
inductive IsExponentSign : List UInt8 → Bool → Prop
  | missing : IsExponentSign [] false
  | plus : IsExponentSign [0x2B] false
  | minus : IsExponentSign [0x2D] true

/-- The bytes of an exponent, which may be missing. -/
inductive IsExponent : List UInt8 → Option (Bool × List Nat) → Prop
  | missing : IsExponent [] none
  | digits {b : UInt8} {sign bytes : List UInt8} {down : Bool} {ds : List Nat}
      (hletter : b = 0x65 ∨ b = 0x45) (hsign : IsExponentSign sign down)
      (hdigits : IsDigits bytes ds) (hne : ds ≠ []) :
      IsExponent (b :: (sign ++ bytes)) (some (down, ds))

/-- The bytes of a minus sign, which may be missing. -/
inductive IsSign : List UInt8 → Bool → Prop
  | missing : IsSign [] false
  | minus : IsSign [0x2D] true

/-- The bytes of a literal. -/
inductive IsLiteral : List UInt8 → Literal → Prop
  | mk {sign whole fraction exponent : List UInt8} {l : Literal} (hsign : IsSign sign l.negative)
      (hwhole : IsDigits whole l.whole) (hne : l.whole ≠ [])
      (hzero : l.whole.head? = some 0 → l.whole.length = 1)
      (hfraction : IsFraction fraction l.fraction) (hexponent : IsExponent exponent l.exponent) :
      IsLiteral (sign ++ (whole ++ (fraction ++ exponent))) l

/-- What may follow a literal without becoming part of it. -/
def EndsLiteral (rest : List UInt8) : Prop :=
  ∀ b ∈ rest.head?, digit? b = none ∧ b ≠ 0x2E ∧ b ≠ 0x65 ∧ b ≠ 0x45

/-! ## Texts are scanned -/

section

variable {bytes rest : List UInt8}

theorem IsDigits.scan_append {ds : List Nat} (h : IsDigits bytes ds)
    (hrest : ∀ b ∈ rest.head?, digit? b = none) : digits (bytes ++ rest) = (ds, rest) := by
  induction h with
  | nil =>
    cases rest with
    | nil => rfl
    | cons b rest =>
      have hb : digit? b = none := hrest b rfl
      simp [digits, hb]
  | cons hdigit _ ih => simp [digits, hdigit, ih]

theorem IsFraction.scan_append {fraction : Option (List Nat)} (h : IsFraction bytes fraction)
    (hrest : ∀ b ∈ rest.head?, digit? b = none ∧ b ≠ 0x2E) :
    scanFraction (bytes ++ rest) = some (fraction, rest) := by
  cases h with
  | missing =>
    cases rest with
    | nil => rfl
    | cons b rest =>
      have hpoint : b ≠ 0x2E := (hrest b rfl).2
      simp [scanFraction.eq_def, hpoint]
  | @digits bytes ds hdigits hne =>
    rw [List.cons_append, scanFraction, hdigits.scan_append fun b hb ↦ (hrest b hb).1]
    cases ds with
    | nil => exact absurd rfl hne
    | cons d ds => rfl

theorem IsDigits.head {ds : List Nat} (h : IsDigits bytes ds) (hne : ds ≠ []) :
    ∃ b d tail, bytes = b :: tail ∧ digit? b = some d := by
  cases h with
  | nil => exact absurd rfl hne
  | cons hdigit _ => exact ⟨_, _, _, rfl, hdigit⟩

theorem scanExponent_sign {b : UInt8} {sign : List UInt8} {down : Bool} {d : Nat} {ds : List Nat}
    (hletter : b = 0x65 ∨ b = 0x45) (hsign : IsExponentSign sign down)
    (hhead : ∃ c tail, bytes = c :: tail ∧ digit? c = some d)
    (hdigits : digits bytes = (d :: ds, rest)) :
    scanExponent (b :: (sign ++ bytes)) = some (some (down, d :: ds), rest) := by
  have hb : (b == 0x65 || b == 0x45) = true := by simpa using hletter
  unfold scanExponent
  cases hsign with
  | missing =>
    obtain ⟨c, tail, rfl, hdigit⟩ := hhead
    have hplus : c ≠ 0x2B := by rintro rfl; cases hdigit
    have hminus : c ≠ 0x2D := by rintro rfl; cases hdigit
    simp [hb, hplus, hminus, hdigits]
  | plus => simp [hb, hdigits]
  | minus => simp [hb, hdigits]

theorem IsExponent.scan_append {exponent : Option (Bool × List Nat)}
    (h : IsExponent bytes exponent) (hrest : EndsLiteral rest) :
    scanExponent (bytes ++ rest) = some (exponent, rest) := by
  cases h with
  | missing =>
    cases rest with
    | nil => rfl
    | cons b rest =>
      have hb := hrest b rfl
      simp [scanExponent, hb]
  | @digits b sign bytes down ds hletter hsign hdigits hne =>
    have hscan := hdigits.scan_append fun b hb ↦ (hrest b hb).1
    rw [List.cons_append, List.append_assoc]
    cases hdigits with
    | nil => exact absurd rfl hne
    | cons hdigit _ => exact scanExponent_sign hletter hsign ⟨_, _, rfl, hdigit⟩ hscan

theorem IsFraction.head_append {fraction : Option (List Nat)} (h : IsFraction bytes fraction)
    (hrest : ∀ b ∈ rest.head?, digit? b = none) : ∀ b ∈ (bytes ++ rest).head?, digit? b = none := by
  cases h with
  | missing => exact hrest
  | digits _ _ =>
    rintro b ⟨⟩
    rfl

theorem IsExponent.head_append {exponent : Option (Bool × List Nat)} (h : IsExponent bytes exponent)
    (hrest : EndsLiteral rest) : ∀ b ∈ (bytes ++ rest).head?, digit? b = none ∧ b ≠ 0x2E := by
  cases h with
  | missing => exact fun b hb ↦ ⟨(hrest b hb).1, (hrest b hb).2.1⟩
  | digits hletter _ _ _ =>
    rintro b ⟨⟩
    obtain rfl | rfl := hletter
    · exact ⟨rfl, by decide⟩
    · exact ⟨rfl, by decide⟩

theorem IsSign.split {sign : List UInt8} {negative : Bool} (h : IsSign sign negative)
    (hbytes : ∃ c d tail, bytes = c :: tail ∧ digit? c = some d) :
    (match sign ++ bytes with
      | 0x2D :: rest => (true, rest)
      | _ => (false, sign ++ bytes)) = (negative, bytes) := by
  cases h with
  | missing =>
    obtain ⟨c, d, tail, rfl, hdigit⟩ := hbytes
    have hminus : c ≠ 0x2D := by rintro rfl; cases hdigit
    simp [hminus]
  | minus => rfl

theorem IsLiteral.scan_append {l : Literal} (h : IsLiteral bytes l) (hrest : EndsLiteral rest) :
    Literal.scan (bytes ++ rest) = some (l, rest) := by
  obtain @⟨sign, whole, fraction, exponent, _, hsign, hwhole, hne, hzero, hfraction,
    hexponent⟩ := h
  have hexp := hexponent.scan_append hrest
  have hfrac := hfraction.scan_append (hexponent.head_append hrest)
  have hdigits := hwhole.scan_append
    (hfraction.head_append fun b hb ↦ (hexponent.head_append hrest b hb).1)
  have hhead : ∃ c d tail, whole ++ (fraction ++ (exponent ++ rest)) = c :: tail ∧
      digit? c = some d := by
    obtain ⟨c, d, tail, rfl, hdigit⟩ := hwhole.head hne
    exact ⟨c, d, _, rfl, hdigit⟩
  have hstart : (l.whole.isEmpty || l.whole.head? == some 0 && decide (1 < l.whole.length))
      = false := by
    simp only [Bool.or_eq_false_iff, List.isEmpty_eq_false_iff, Bool.and_eq_false_imp, beq_iff_eq,
      decide_eq_false_iff_not]
    exact ⟨hne, fun hz ↦ by rw [hzero hz]; decide⟩
  rw [List.append_assoc, List.append_assoc, List.append_assoc]
  unfold Literal.scan
  split
  next negative bytes hsplit =>
  cases hsplit.symm.trans (hsign.split hhead)
  simp [hdigits, hstart, hfrac, hexp]

/-! ## What is scanned is a text -/

theorem isDigits_of_digits {ds : List Nat} (h : digits bytes = (ds, rest)) :
    ∃ taken, bytes = taken ++ rest ∧ IsDigits taken ds := by
  fun_induction digits bytes generalizing ds with
  | case1 =>
    obtain ⟨rfl, rfl⟩ := Prod.mk.inj h
    exact ⟨[], rfl, .nil⟩
  | case2 b tail hdigit =>
    obtain ⟨rfl, rfl⟩ := Prod.mk.inj h
    exact ⟨[], rfl, .nil⟩
  | case3 b tail d hdigit ds' rest' htail ih =>
    obtain ⟨rfl, rfl⟩ := Prod.mk.inj h
    obtain ⟨taken, rfl, hdigits⟩ := ih htail
    exact ⟨b :: taken, rfl, .cons hdigit hdigits⟩

theorem isFraction_of_scanFraction {fraction : Option (List Nat)}
    (h : scanFraction bytes = some (fraction, rest)) :
    ∃ taken, bytes = taken ++ rest ∧ IsFraction taken fraction := by
  unfold scanFraction at h
  split at h
  · split at h
    · cases h
    · next ds after hne hdigits =>
      obtain ⟨rfl, rfl⟩ := Prod.mk.inj (Option.some.inj h)
      obtain ⟨taken, rfl, htaken⟩ := isDigits_of_digits hdigits
      exact ⟨_ :: taken, rfl, .digits htaken hne⟩
  · obtain ⟨rfl, rfl⟩ := Prod.mk.inj (Option.some.inj h)
    exact ⟨[], rfl, .missing⟩

theorem isExponent_of_scanExponent {exponent : Option (Bool × List Nat)}
    (h : scanExponent bytes = some (exponent, rest)) :
    ∃ taken, bytes = taken ++ rest ∧ IsExponent taken exponent := by
  unfold scanExponent at h
  split at h
  · next b tail =>
    split at h
    · next hletter =>
      have hletter' : b = 0x65 ∨ b = 0x45 := by simpa using hletter
      simp only at h
      split at h
      · cases h
      · next ds after hne hdigits =>
        obtain ⟨rfl, rfl⟩ := Prod.mk.inj (Option.some.inj h)
        obtain ⟨taken, htaken, hds⟩ := isDigits_of_digits hdigits
        split at htaken
        · simp only at htaken
          subst htaken
          exact ⟨b :: ([0x2B] ++ taken), rfl, .digits hletter' .plus hds hne⟩
        · simp only at htaken
          subst htaken
          exact ⟨b :: ([0x2D] ++ taken), rfl, .digits hletter' .minus hds hne⟩
        · simp only at htaken
          subst htaken
          exact ⟨b :: ([] ++ taken), rfl, .digits hletter' .missing hds hne⟩
    · obtain ⟨rfl, rfl⟩ := Prod.mk.inj (Option.some.inj h)
      exact ⟨[], rfl, .missing⟩
  · obtain ⟨rfl, rfl⟩ := Prod.mk.inj (Option.some.inj h)
    exact ⟨[], rfl, .missing⟩

theorem isLiteral_of_scan {l : Literal} (h : Literal.scan bytes = some (l, rest)) :
    ∃ taken, bytes = taken ++ rest ∧ IsLiteral taken l := by
  unfold Literal.scan at h
  split at h
  next negative tail hsplit =>
  have hsign : ∃ sign, bytes = sign ++ tail ∧ IsSign sign negative := by
    split at hsplit
    · obtain ⟨rfl, rfl⟩ := Prod.mk.inj hsplit
      exact ⟨[0x2D], rfl, .minus⟩
    · obtain ⟨rfl, rfl⟩ := Prod.mk.inj hsplit
      exact ⟨[], rfl, .missing⟩
  rcases hdigits : digits tail with ⟨whole, afterWhole⟩
  simp only [hdigits, bind, Option.bind_none] at h
  split at h
  · cases h
  · next hstart =>
    obtain ⟨⟨fraction, afterFraction⟩, hfraction, h⟩ := Option.bind_eq_some_iff.mp h
    obtain ⟨⟨exponent, afterExponent⟩, hexponent, h⟩ := Option.bind_eq_some_iff.mp h
    obtain ⟨rfl, rfl⟩ := Prod.mk.inj (Option.some.inj h)
    obtain ⟨sign, rfl, hsign⟩ := hsign
    obtain ⟨wholeBytes, rfl, hwhole⟩ := isDigits_of_digits hdigits
    obtain ⟨fractionBytes, rfl, hfrac⟩ := isFraction_of_scanFraction hfraction
    obtain ⟨exponentBytes, rfl, hexp⟩ := isExponent_of_scanExponent hexponent
    simp only [Bool.or_eq_true, List.isEmpty_iff, Bool.and_eq_true, beq_iff_eq, decide_eq_true_eq,
      not_or, not_and, Nat.not_lt] at hstart
    have hlength : whole.head? = some 0 → whole.length = 1 := fun hzero ↦
      Nat.le_antisymm (hstart.2 hzero) (List.length_pos_iff.mpr hstart.1)
    refine ⟨_, ?_, .mk hsign hwhole hstart.1 hlength hfrac hexp⟩
    simp only [List.append_assoc]

/-! ## The bytes of a literal -/

/-- A byte that may stand in a literal. -/
def isLiteralByte (b : UInt8) : Bool :=
  (digit? b).isSome || b == 0x2B || b == 0x2D || b == 0x2E || b == 0x65 || b == 0x45

theorem IsDigits.isLiteralByte {ds : List Nat} (h : IsDigits bytes ds) :
    ∀ b ∈ bytes, isLiteralByte b := by
  induction h with
  | nil => exact fun b hb ↦ absurd hb List.not_mem_nil
  | cons hdigit _ ih =>
    rintro b (_ | ⟨_, hb⟩)
    · simp [Decimal.isLiteralByte, hdigit]
    · exact ih b hb

theorem IsFraction.isLiteralByte {fraction : Option (List Nat)} (h : IsFraction bytes fraction) :
    ∀ b ∈ bytes, isLiteralByte b := by
  cases h with
  | missing => exact fun b hb ↦ absurd hb List.not_mem_nil
  | digits hdigits _ =>
    rintro b (_ | ⟨_, hb⟩)
    · rfl
    · exact hdigits.isLiteralByte b hb

theorem IsExponent.isLiteralByte {exponent : Option (Bool × List Nat)}
    (h : IsExponent bytes exponent) : ∀ b ∈ bytes, isLiteralByte b := by
  cases h with
  | missing => exact fun b hb ↦ absurd hb List.not_mem_nil
  | @digits c sign bytes down ds hletter hsign hdigits _ =>
    have hsignByte : ∀ b ∈ sign, Decimal.isLiteralByte b := by
      cases hsign with
      | missing => exact fun b hb ↦ absurd hb List.not_mem_nil
      | plus | minus => exact fun b hb ↦ by rw [List.mem_singleton.mp hb]; rfl
    rintro b (_ | ⟨_, hb⟩)
    · obtain rfl | rfl := hletter
      · rfl
      · rfl
    · obtain hb | hb := List.mem_append.mp hb
      · exact hsignByte b hb
      · exact hdigits.isLiteralByte b hb

theorem IsLiteral.isLiteralByte {l : Literal} (h : IsLiteral bytes l) :
    ∀ b ∈ bytes, isLiteralByte b := by
  obtain ⟨hsign, hwhole, _, _, hfraction, hexponent⟩ := h
  generalize l.negative = negative at hsign
  intro b hb
  obtain hb | hb := List.mem_append.mp hb
  · cases hsign with
    | missing => exact absurd hb List.not_mem_nil
    | minus =>
      rw [List.mem_singleton.mp hb]
      rfl
  · obtain hb | hb := List.mem_append.mp hb
    · exact hwhole.isLiteralByte b hb
    · obtain hb | hb := List.mem_append.mp hb
      · exact hfraction.isLiteralByte b hb
      · exact hexponent.isLiteralByte b hb

theorem IsLiteral.head {l : Literal} (h : IsLiteral bytes l) :
    ∃ b tail, bytes = b :: tail ∧ (b = 0x2D ∨ 0x30 ≤ b ∧ b ≤ 0x39) := by
  obtain ⟨hsign, hwhole, hne, _, _, _⟩ := h
  generalize l.negative = negative at hsign
  cases hsign with
  | missing =>
    obtain ⟨b, d, tail, rfl, hdigit⟩ := hwhole.head hne
    refine ⟨b, _, rfl, .inr ?_⟩
    unfold digit? at hdigit
    split at hdigit
    · next hrange => simpa using hrange
    · cases hdigit
  | minus => exact ⟨0x2D, _, rfl, .inl rfl⟩

end

end TypedJson.Decimal
