import TypedJson.Text.Utf8

/-!
# Reading UTF-8 back

The bytes of a string are decoded to the string again. Each length of an encoded character has its
own branch in the decoder; the ranges of the lead byte and of the byte after it say which branch is
taken.
-/

namespace TypedJson.Utf8

variable {a b c d : UInt8}

@[simp] theorem encode_append (s t : String) : encode (s ++ t) = encode s ++ encode t := by
  simp [encode]

theorem encode_ofList (cs : List Char) :
    encode (String.ofList cs) = cs.flatMap String.utf8EncodeChar := by
  simp [encode]

theorem toNat_ofNat {n : Nat} (h : n < 256) : (UInt8.ofNat n).toNat = n :=
  UInt8.toNat_ofNat_of_lt' h

/-! ## Branches of the decoder -/

theorem isContinuation_iff : isContinuation b = true ↔ 0x80 ≤ b.toNat ∧ b.toNat ≤ 0xBF := by
  simp [isContinuation, UInt8.le_iff_toNat_le]

theorem isSecond_of_le (ha : 0xC2 ≤ a.toNat ∧ a.toNat ≤ 0xF4)
    (hb : 0x80 ≤ b.toNat ∧ b.toNat ≤ 0xBF) (he0 : a.toNat = 0xE0 → 0xA0 ≤ b.toNat)
    (hed : a.toNat = 0xED → b.toNat ≤ 0x9F) (hf0 : a.toNat = 0xF0 → 0x90 ≤ b.toNat)
    (hf4 : a.toNat = 0xF4 → b.toNat ≤ 0x8F) : isSecond a b = true := by
  simp only [isSecond, isContinuation, UInt8.le_iff_toNat_le, ← UInt8.toNat_inj,
    UInt8.reduceToNat, Bool.and_eq_true, decide_eq_true_eq]
  grind

theorem decode_one (ha : a.toNat < 0x80) (rest : List UInt8) :
    decode (a :: rest) = some (Char.ofNat a.toNat) :: decode rest := by
  rw [decode.eq_def]
  simp [UInt8.lt_iff_toNat_lt, ha]

theorem decode_two (ha : 0xC2 ≤ a.toNat ∧ a.toNat ≤ 0xDF) (hb : isSecond a b = true)
    (rest : List UInt8) :
    decode (a :: b :: rest) =
      some (Char.ofNat (a.toNat % 0x20 * 0x40 + payload b)) :: decode rest := by
  have hlead : ¬ a.toNat < 0x80 := by omega
  rw [decode.eq_def]
  simp [UInt8.lt_iff_toNat_lt, UInt8.le_iff_toNat_le, hlead, hb, ha.2]

theorem decode_three (ha : 0xE0 ≤ a.toNat ∧ a.toNat ≤ 0xEF) (hb : isSecond a b = true)
    (hc : isContinuation c = true) (rest : List UInt8) :
    decode (a :: b :: c :: rest) =
      some (Char.ofNat (a.toNat % 0x10 * 0x1000 + payload b * 0x40 + payload c)) ::
        decode rest := by
  have hlead : ¬ a.toNat < 0x80 := by omega
  have htwo : ¬ a.toNat ≤ 0xDF := by omega
  rw [decode.eq_def]
  simp [UInt8.lt_iff_toNat_lt, UInt8.le_iff_toNat_le, hlead, htwo, hb, hc, ha.2]

theorem decode_four (ha : 0xF0 ≤ a.toNat) (hb : isSecond a b = true)
    (hc : isContinuation c = true) (hd : isContinuation d = true) (rest : List UInt8) :
    decode (a :: b :: c :: d :: rest) =
      some (Char.ofNat (a.toNat % 0x08 * 0x40000 + payload b * 0x1000 + payload c * 0x40 +
        payload d)) :: decode rest := by
  have hlead : ¬ a.toNat < 0x80 := by omega
  have htwo : ¬ a.toNat ≤ 0xDF := by omega
  have hthree : ¬ a.toNat ≤ 0xEF := by omega
  rw [decode.eq_def]
  simp [UInt8.lt_iff_toNat_lt, UInt8.le_iff_toNat_le, hlead, htwo, hthree, hb, hc, hd]

/-! ## Characters and strings -/

/-- A character is decoded from its bytes, whatever follows them. -/
theorem decode_encodeChar (c : Char) (rest : List UInt8) :
    decode (String.utf8EncodeChar c ++ rest) = some c :: decode rest := by
  have hvalid : c.val.toNat < 0xD800 ∨ 0xDFFF < c.val.toNat ∧ c.val.toNat < 0x110000 := c.valid
  have hchar : Char.ofNat c.val.toNat = c := Char.ofNat_toNat c
  unfold String.utf8EncodeChar
  generalize c.val.toNat = v at hvalid hchar ⊢
  have htail : ∀ n, (UInt8.ofNat (n % 0x40 + 0x80)).toNat = n % 0x40 + 0x80 :=
    fun n ↦ toNat_ofNat (by omega)
  have hcont : ∀ n, isContinuation (UInt8.ofNat (n % 0x40 + 0x80)) = true := fun n ↦ by
    rw [isContinuation_iff, htail]
    omega
  have hpay : ∀ n, payload (UInt8.ofNat (n % 0x40 + 0x80)) = n % 0x40 := fun n ↦ by
    rw [payload, htail]
    omega
  dsimp only
  split
  · next hone =>
    have ha : (UInt8.ofNat v).toNat = v := toNat_ofNat (by omega)
    rw [List.singleton_append, decode_one (by omega), ha, hchar]
  split
  · next hone htwo =>
    have ha : (UInt8.ofNat (v / 64 % 0x20 + 0xC0)).toNat = v / 64 % 0x20 + 0xC0 :=
      toNat_ofNat (by omega)
    have hsecond : isSecond (UInt8.ofNat (v / 64 % 0x20 + 0xC0))
        (UInt8.ofNat (v % 0x40 + 0x80)) = true := by
      apply isSecond_of_le <;> simp only [ha, htail] <;> omega
    rw [List.cons_append, List.cons_append, List.nil_append, decode_two (by omega) hsecond, ha,
      hpay, show (v / 64 % 0x20 + 0xC0) % 0x20 * 0x40 + v % 0x40 = v by omega, hchar]
  split
  · next hone htwo hthree =>
    have ha : (UInt8.ofNat (v / 4096 % 0x10 + 0xE0)).toNat = v / 4096 % 0x10 + 0xE0 :=
      toNat_ofNat (by omega)
    have hsecond : isSecond (UInt8.ofNat (v / 4096 % 0x10 + 0xE0))
        (UInt8.ofNat (v / 64 % 0x40 + 0x80)) = true := by
      apply isSecond_of_le <;> simp only [ha, htail] <;> omega
    rw [List.cons_append, List.cons_append, List.cons_append, List.nil_append,
      decode_three (by omega) hsecond (hcont v), ha, hpay, hpay,
      show (v / 4096 % 0x10 + 0xE0) % 0x10 * 0x1000 + v / 64 % 0x40 * 0x40 + v % 0x40 = v by omega,
      hchar]
  · next hone htwo hthree =>
    have ha : (UInt8.ofNat (v / 262144 % 0x08 + 0xF0)).toNat = v / 262144 % 0x08 + 0xF0 :=
      toNat_ofNat (by omega)
    have hsecond : isSecond (UInt8.ofNat (v / 262144 % 0x08 + 0xF0))
        (UInt8.ofNat (v / 4096 % 0x40 + 0x80)) = true := by
      apply isSecond_of_le <;> simp only [ha, htail] <;> omega
    rw [List.cons_append, List.cons_append, List.cons_append, List.cons_append, List.nil_append,
      decode_four (by omega) hsecond (hcont (v / 64)) (hcont v), ha, hpay, hpay, hpay,
      show (v / 262144 % 0x08 + 0xF0) % 0x08 * 0x40000 + v / 4096 % 0x40 * 0x1000 +
        v / 64 % 0x40 * 0x40 + v % 0x40 = v by omega, hchar]

theorem decode_encode (s : String) : decode (encode s) = s.toList.map some := by
  unfold encode
  induction s.toList with
  | nil => rfl
  | cons c cs ih => rw [List.flatMap_cons, decode_encodeChar, ih, List.map_cons]

/-- A string is decoded from its bytes. -/
@[simp] theorem decode?_encode (s : String) : decode? (encode s) = some s := by
  have hall : (s.toList.map some).mapM id = some s.toList := by
    induction s.toList with
    | nil => rfl
    | cons c cs ih =>
      rw [List.map_cons, List.mapM_cons, ih]
      rfl
  rw [decode?, decode_encode, hall]
  simp

end TypedJson.Utf8
