import TypedJson.Json.Quoted
import TypedJson.Proofs.Json.Grammar

/-!
# Reading quoted strings back

Whatever the flags are, the text of a quoted string spells the characters of the string: each of
them is written as it stands, as an escape of one letter, as one code unit or as a surrogate pair
(`spells_quotedBody`). What is written consists of characters that are harmless within a script
(`not_isUnsafe_of_mem_quote`), and of ASCII if no flag says otherwise.
-/

namespace TypedJson.Json

open Grammar (Spells)

variable {body : List UInt8} {cs : List Char} {flags : JsonFlags}

/-! ## Code units -/

theorem encodeChar_hexDigit {d : Nat} (h : d < 16) :
    ∃ b, String.utf8EncodeChar (Fingerprint.hexDigit d) = [b] ∧ hexValue? b = some d := by
  have hall : ∀ d < 16,
      (String.utf8EncodeChar (Fingerprint.hexDigit d)).map hexValue? = [some d] := by decide
  exact List.map_eq_singleton_iff.mp (hall d h)

/-- The escape of a code unit, as bytes. -/
theorem encode_unitEscape {unit : Nat} (h : unit < 0x10000) :
    ∃ p q r s, (unitEscape unit).flatMap String.utf8EncodeChar = [0x5C, 0x75, p, q, r, s] ∧
      unit? p q r s = some unit := by
  obtain ⟨p, hp, hpv⟩ := @encodeChar_hexDigit (unit / 4096 % 16) (by omega)
  obtain ⟨q, hq, hqv⟩ := @encodeChar_hexDigit (unit / 256 % 16) (by omega)
  obtain ⟨r, hr, hrv⟩ := @encodeChar_hexDigit (unit / 16 % 16) (by omega)
  obtain ⟨s, hs, hsv⟩ := @encodeChar_hexDigit (unit % 16) (by omega)
  have hescape : unitEscape unit = ['\\', 'u', Fingerprint.hexDigit (unit / 4096 % 16),
      Fingerprint.hexDigit (unit / 256 % 16), Fingerprint.hexDigit (unit / 16 % 16),
      Fingerprint.hexDigit (unit % 16)] := by
    simp [unitEscape, Fingerprint.hex, List.range, List.range.loop]
  refine ⟨p, q, r, s, ?_, ?_⟩
  · rw [hescape]
    simp only [List.flatMap_cons, List.flatMap_nil, hp, hq, hr, hs]
    rfl
  · simp only [unit?, hpv, hqv, hrv, hsv]
    show some _ = some _
    congr 1
    omega

theorem spells_unitEscape {unit : Nat} (h : unit < 0x10000)
    (hrange : unit < 0xD800 ∨ 0xE000 ≤ unit) (hbody : Spells body cs) :
    Spells ((unitEscape unit).flatMap String.utf8EncodeChar ++ body) (Char.ofNat unit :: cs) := by
  obtain ⟨p, q, r, s, hbytes, hunit⟩ := encode_unitEscape h
  rw [hbytes]
  exact .unit hunit hrange hbody

/-! ## Characters -/

theorem ofNat_eq_of_toNat_eq {c : Char} {n : Nat} (h : c.toNat = n) : Char.ofNat n = c := by
  rw [← h, Char.ofNat_toNat]

/-- A character in code units is read as that character, one beyond the first plane from two
surrogates. -/
theorem spells_codeUnits (c : Char) (hbody : Spells body cs) :
    Spells (((codeUnits c).flatMap unitEscape).flatMap String.utf8EncodeChar ++ body)
      (c :: cs) := by
  have hvalid : c.toNat < 0xD800 ∨ 0xDFFF < c.toNat ∧ c.toNat < 0x110000 := c.valid
  unfold codeUnits
  by_cases hsmall : c.toNat < 0x10000
  · have hunit := spells_unitEscape hsmall (by omega) hbody
    rw [Char.ofNat_toNat] at hunit
    rwa [if_pos hsmall, List.flatMap_singleton]
  · obtain ⟨p, q, r, s, hhigh, hhighUnit⟩ :=
      @encode_unitEscape (0xD800 + (c.toNat - 0x10000) / 0x400) (by omega)
    obtain ⟨t, u, v, w, hlow, hlowUnit⟩ :=
      @encode_unitEscape (0xDC00 + (c.toNat - 0x10000) % 0x400) (by omega)
    have hpair := Spells.pair hhighUnit (by omega) hlowUnit (by omega) hbody
    rw [@ofNat_eq_of_toNat_eq c _ (by omega)] at hpair
    simp only [if_neg hsmall, List.flatMap_cons, List.flatMap_nil, List.flatMap_append,
      List.append_nil, hhigh, hlow]
    exact hpair

/-- A character as it is written between quotes is read as that character. -/
theorem spells_escapeChar (flags : JsonFlags) (c : Char) (hbody : Spells body cs) :
    Spells ((escapeChar flags c).flatMap String.utf8EncodeChar ++ body) (c :: cs) := by
  have hletter : ∀ (b : UInt8) (d : Char) (e : UInt8), escaped? b = some e →
      String.utf8EncodeChar d = [b] → c.toNat = e.toNat →
        Spells (['\\', d].flatMap String.utf8EncodeChar ++ body) (c :: cs) := by
    intro b d e hescaped hd he
    rw [List.flatMap_cons, List.flatMap_cons, List.flatMap_nil, hd, ← ofNat_eq_of_toNat_eq he]
    exact .letter hescaped hbody
  have hunit : c.toNat < 0x10000 → (c.toNat < 0xD800 ∨ 0xE000 ≤ c.toNat) →
      Spells ((unitEscape c.toNat).flatMap String.utf8EncodeChar ++ body) (c :: cs) := by
    intro hsmall hrange
    have hspells := spells_unitEscape hsmall hrange hbody
    rwa [Char.ofNat_toNat] at hspells
  unfold escapeChar
  by_cases hquote : c = '"'
  · rw [if_pos hquote]
    exact hletter 0x22 _ 0x22 rfl rfl (by rw [hquote]; rfl)
  rw [if_neg hquote]
  by_cases hescape : c = '\\'
  · rw [if_pos hescape]
    exact hletter 0x5C _ 0x5C rfl rfl (by rw [hescape]; rfl)
  rw [if_neg hescape]
  have hplain : 0x20 ≤ c.toNat → Spells ([c].flatMap String.utf8EncodeChar ++ body) (c :: cs) := by
    intro hcontrol
    rw [List.flatMap_singleton]
    exact .character hcontrol hquote hescape hbody
  by_cases h : c = '\n'
  · rw [if_pos h]
    exact hletter 0x6E _ 0x0A rfl rfl (by rw [h]; rfl)
  rw [if_neg h]
  by_cases h : c = '\r'
  · rw [if_pos h]
    exact hletter 0x72 _ 0x0D rfl rfl (by rw [h]; rfl)
  rw [if_neg h]
  by_cases h : c = '\t'
  · rw [if_pos h]
    exact hletter 0x74 _ 0x09 rfl rfl (by rw [h]; rfl)
  rw [if_neg h]
  by_cases h : c.toNat = 0x08
  · rw [if_pos h]
    exact hletter 0x62 _ 0x08 rfl rfl h
  rw [if_neg h]
  by_cases h : c.toNat = 0x0C
  · rw [if_pos h]
    exact hletter 0x66 _ 0x0C rfl rfl h
  rw [if_neg h]
  by_cases hslash : c = '/'
  · rw [if_pos hslash]
    by_cases hflag : flags.has .unescapedSlashes = true
    · rw [if_pos hflag, ← hslash]
      exact hplain (by rw [hslash]; decide)
    · rw [if_neg hflag]
      exact hletter 0x2F _ 0x2F rfl rfl (by rw [hslash]; rfl)
  rw [if_neg hslash]
  by_cases hcontrol : c.toNat < 0x20
  · rw [if_pos hcontrol]
    exact hunit (by omega) (by omega)
  rw [if_neg hcontrol]
  by_cases h : c.toNat = 0x2028 ∨ c.toNat = 0x2029
  · rw [if_pos h]
    exact hunit (by omega) (by omega)
  rw [if_neg h]
  by_cases hunicode : 0x80 ≤ c.toNat ∧ flags.has .unescapedUnicode = false
  · rw [if_pos hunicode]
    exact spells_codeUnits c hbody
  · rw [if_neg hunicode]
    exact hplain (Nat.le_of_not_lt hcontrol)

/-! ## Strings -/

/-- The body of a quoted string. -/
def quotedBody (flags : JsonFlags) (s : String) : List UInt8 :=
  (s.toList.flatMap (escapeChar flags) ++ ['"']).flatMap String.utf8EncodeChar

theorem encode_quote (flags : JsonFlags) (s : String) :
    Utf8.encode (quote flags s) = 0x22 :: quotedBody flags s := by
  rw [quote, Utf8.encode_ofList, quoteChars, List.flatMap_cons]
  rfl

/-- A quoted string spells its characters. -/
theorem spells_quotedBody (flags : JsonFlags) (s : String) :
    Spells (quotedBody flags s) s.toList := by
  unfold quotedBody
  induction s.toList with
  | nil => exact .close
  | cons c cs ih =>
    rw [List.flatMap_cons, List.append_assoc, List.flatMap_append]
    exact spells_escapeChar flags c ih

/-- A quoted string decodes to the bytes of the string. -/
theorem isBody_quotedBody (flags : JsonFlags) (s : String) :
    IsBody (quotedBody flags s) (Utf8.encode s) :=
  (spells_quotedBody flags s).isBody

/-! ## What stands between the quotes -/

/-- A character that cannot stand for itself in every script: a control character of the JSON
grammar, or one of the line terminators U+2028 and U+2029. -/
def IsUnsafe (c : Char) : Prop := c.toNat < 0x20 ∨ c.toNat = 0x2028 ∨ c.toNat = 0x2029

/-- What holds of the visible characters of ASCII and of a character that is written as it stands
holds of all that is written for it. -/
theorem forall_mem_escapeChar {p : Char → Prop} {c : Char}
    (hvisible : ∀ d : Char, 0x20 ≤ d.toNat → d.toNat < 0x80 → p d)
    (hself : ¬ IsUnsafe c → (c.toNat < 0x80 ∨ flags.has .unescapedUnicode = true) → p c) :
    ∀ d ∈ escapeChar flags c, p d := by
  have hletter : ∀ d : Char, 0x20 ≤ d.toNat ∧ d.toNat < 0x80 → ∀ e ∈ ['\\', d], p e := by
    intro d hd
    exact List.forall_mem_cons.mpr ⟨hvisible _ (by decide) (by decide),
      List.forall_mem_singleton.mpr (hvisible d hd.1 hd.2)⟩
  have hdigit : ∀ d < 16, 0x20 ≤ (Fingerprint.hexDigit d).toNat ∧
      (Fingerprint.hexDigit d).toNat < 0x80 := by decide
  have hunit : ∀ unit, ∀ d ∈ unitEscape unit, p d := by
    intro unit
    refine List.forall_mem_cons.mpr ⟨hvisible _ (by decide) (by decide),
      List.forall_mem_cons.mpr ⟨hvisible _ (by decide) (by decide), fun d hd ↦ ?_⟩⟩
    simp only [Fingerprint.hex, String.toList_ofList, List.mem_map] at hd
    obtain ⟨i, -, rfl⟩ := hd
    obtain ⟨hlow, hhigh⟩ := hdigit _ (Nat.mod_lt _ (by decide))
    exact hvisible _ hlow hhigh
  have hite : ∀ {q : Prop} [Decidable q] {cs ds : List Char}, (∀ d ∈ cs, p d) →
      (¬ q → ∀ d ∈ ds, p d) → ∀ d ∈ if q then cs else ds, p d := by
    intro q _ cs ds hcs hds
    by_cases hq : q
    · rwa [if_pos hq]
    · rw [if_neg hq]
      exact hds hq
  unfold escapeChar
  refine hite (hletter _ (by decide)) fun _ ↦ hite (hletter _ (by decide)) fun _ ↦
    hite (hletter _ (by decide)) fun _ ↦ hite (hletter _ (by decide)) fun _ ↦
    hite (hletter _ (by decide)) fun _ ↦ hite (hletter _ (by decide)) fun _ ↦
    hite (hletter _ (by decide)) fun _ ↦ hite ?_ fun _ ↦ hite (hunit _) fun hcontrol ↦
    hite (hunit _) fun hterminator ↦ hite ?_ fun hunicode ↦ ?_
  · exact hite (List.forall_mem_singleton.mpr (hvisible _ (by decide) (by decide))) fun _ ↦
      hletter _ (by decide)
  · intro d hd
    obtain ⟨unit, -, hmem⟩ := List.mem_flatMap.mp hd
    exact hunit unit d hmem
  · refine List.forall_mem_singleton.mpr (hself ?_ ?_)
    · rintro (hc | hc)
      · exact hcontrol hc
      · exact hterminator hc
    · by_cases hascii : c.toNat < 0x80
      · exact .inl hascii
      · refine .inr (eq_true_of_ne_false fun hflag ↦ ?_)
        exact hunicode ⟨Nat.le_of_not_lt hascii, hflag⟩

/-- What holds of the visible characters of ASCII and of all characters that are written as they
stand holds of the whole text. -/
theorem forall_mem_quote {p : Char → Prop} {s : String}
    (hvisible : ∀ d : Char, 0x20 ≤ d.toNat → d.toNat < 0x80 → p d)
    (hself : ∀ c : Char, ¬ IsUnsafe c →
      (c.toNat < 0x80 ∨ flags.has .unescapedUnicode = true) → p c) :
    ∀ c ∈ (quote flags s).toList, p c := by
  have hquote : p '"' := hvisible _ (by decide) (by decide)
  rw [quote, String.toList_ofList, quoteChars]
  refine List.forall_mem_cons.mpr ⟨hquote, fun c hc ↦ ?_⟩
  obtain hc | hc := List.mem_append.mp hc
  · obtain ⟨d, -, hmem⟩ := List.mem_flatMap.mp hc
    exact forall_mem_escapeChar hvisible (hself d) c hmem
  · rw [List.mem_singleton.mp hc]
    exact hquote

/-- No text of a string can break the script it stands in. -/
theorem not_isUnsafe_of_mem_quote (flags : JsonFlags) (s : String) :
    ∀ c ∈ (quote flags s).toList, ¬ IsUnsafe c := by
  refine forall_mem_quote (fun d hlow hhigh hunsafe ↦ ?_) fun c hsafe _ ↦ hsafe
  unfold IsUnsafe at hunsafe
  omega

/-- Without the flag for it, nothing beyond ASCII is written. -/
theorem toNat_lt_of_mem_quote (hflag : flags.has .unescapedUnicode = false) (s : String) :
    ∀ c ∈ (quote flags s).toList, c.toNat < 0x80 := by
  refine forall_mem_quote (fun d _ hhigh ↦ hhigh) fun c _ hself ↦ ?_
  exact hself.resolve_right fun htrue ↦ Bool.false_ne_true (hflag.symm.trans htrue)

theorem lt_of_mem_quotedBody (hflag : flags.has .unescapedUnicode = false) (s : String) :
    ∀ b ∈ quotedBody flags s, b < 0x80 := by
  intro b hb
  have hmem : b ∈ Utf8.encode (quote flags s) := by
    rw [encode_quote]
    exact List.mem_cons_of_mem _ hb
  obtain ⟨c, hc, hbc⟩ := List.mem_flatMap.mp hmem
  have hlt := toNat_lt_of_mem_quote hflag s c hc
  have hle : c.val.toNat ≤ 0x7F := Nat.le_of_lt_succ hlt
  rw [String.utf8EncodeChar, if_pos hle, List.mem_singleton] at hbc
  rw [hbc, UInt8.lt_iff_toNat_lt, Utf8.toNat_ofNat (by omega)]
  exact hlt

end TypedJson.Json
