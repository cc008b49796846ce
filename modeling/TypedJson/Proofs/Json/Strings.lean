import TypedJson.Json.Tree
import TypedJson.Proofs.Text.Utf8

/-!
# Texts of strings

`IsBody` is the grammar of what stands behind the opening quote of a string whose escapes decode.
`scanString` answers a decoded string exactly if such a body stands at the front, whatever follows
it.
-/

namespace TypedJson.Json

/-- The bytes of a string after its opening quote, up to and with the closing one, and the bytes
they decode to. -/
inductive IsBody : List UInt8 → List UInt8 → Prop
  | close : IsBody [0x22] []
  | plain {b : UInt8} {body decoded : List UInt8} (hquote : b ≠ 0x22) (hcontrol : ¬ b < 0x20)
      (hescape : b ≠ 0x5C) (hbody : IsBody body decoded) : IsBody (b :: body) (b :: decoded)
  | letter {b c : UInt8} {body decoded : List UInt8} (hletter : escaped? b = some c)
      (hbody : IsBody body decoded) : IsBody (0x5C :: b :: body) (c :: decoded)
  | unit {a b c d : UInt8} {unit : Nat} {body decoded : List UInt8}
      (hunit : unit? a b c d = some unit) (hrange : unit < 0xD800 ∨ 0xE000 ≤ unit)
      (hbody : IsBody body decoded) :
      IsBody (0x5C :: 0x75 :: a :: b :: c :: d :: body) (codePointBytes unit ++ decoded)
  | pair {a b c d e f g h : UInt8} {high low : Nat} {body decoded : List UInt8}
      (hhigh : unit? a b c d = some high) (hhighRange : 0xD800 ≤ high ∧ high < 0xDC00)
      (hlow : unit? e f g h = some low) (hlowRange : 0xDC00 ≤ low ∧ low < 0xE000)
      (hbody : IsBody body decoded) :
      IsBody (0x5C :: 0x75 :: a :: b :: c :: d :: 0x5C :: 0x75 :: e :: f :: g :: h :: body)
        (codePointBytes (0x10000 + (high - 0xD800) * 0x400 + (low - 0xDC00)) ++ decoded)

theorem pushBytes_eq_some {bytes decoded rest : List UInt8}
    {scanned : Option (Option (List UInt8) × List UInt8)} :
    pushBytes bytes scanned = some (some decoded, rest) ↔
      ∃ tail, scanned = some (some tail, rest) ∧ decoded = bytes ++ tail := by
  match scanned with
  | none => simp [pushBytes]
  | some (none, _) => simp [pushBytes]
  | some (some tail, _) =>
    simp only [pushBytes, Option.map_some, Option.some.injEq, Prod.mk.injEq]
    constructor
    · rintro ⟨rfl, rfl⟩
      exact ⟨tail, ⟨rfl, rfl⟩, rfl⟩
    · rintro ⟨_, ⟨rfl, rfl⟩, rfl⟩
      exact ⟨rfl, rfl⟩

theorem dropBytes_ne_some (decoded rest : List UInt8)
    (scanned : Option (Option (List UInt8) × List UInt8)) :
    dropBytes scanned ≠ some (some decoded, rest) := by
  match scanned with
  | none => simp [dropBytes]
  | some (_, _) => simp [dropBytes]

/-! ## Steps of the scan -/

section

variable {a b c d e f g h : UInt8} {rest : List UInt8}

theorem scanString_quote : scanString (0x22 :: rest) = some (some [], rest) := by
  rw [scanString.eq_def]
  simp

theorem scanString_plain (hquote : b ≠ 0x22) (hcontrol : ¬ b < 0x20) (hescape : b ≠ 0x5C) :
    scanString (b :: rest) = pushBytes [b] (scanString rest) := by
  rw [scanString.eq_def]
  simp [hquote, hcontrol, hescape]

theorem ne_of_escaped? (hletter : escaped? b = some c) : b ≠ 0x75 := by
  rintro rfl
  cases hletter

theorem scanString_letter (hletter : escaped? b = some c) :
    scanString (0x5C :: b :: rest) = pushBytes [c] (scanString rest) := by
  rw [scanString.eq_def]
  simp [hletter, ne_of_escaped? hletter]

theorem scanString_unit {unit : Nat} (hunit : unit? a b c d = some unit)
    (hrange : unit < 0xD800 ∨ 0xE000 ≤ unit) :
    scanString (0x5C :: 0x75 :: a :: b :: c :: d :: rest) =
      pushBytes (codePointBytes unit) (scanString rest) := by
  rw [scanString.eq_def]
  simp [hunit, hrange]

theorem scanString_pair {high low : Nat} (hhigh : unit? a b c d = some high)
    (hhighRange : 0xD800 ≤ high ∧ high < 0xDC00) (hlow : unit? e f g h = some low)
    (hlowRange : 0xDC00 ≤ low ∧ low < 0xE000) :
    scanString (0x5C :: 0x75 :: a :: b :: c :: d :: 0x5C :: 0x75 :: e :: f :: g :: h :: rest) =
      pushBytes (codePointBytes (0x10000 + (high - 0xD800) * 0x400 + (low - 0xDC00)))
        (scanString rest) := by
  have hnot : ¬ (high < 0xD800 ∨ 0xE000 ≤ high) := by omega
  rw [scanString.eq_def]
  simp [hhigh, hnot, Nat.not_le.mpr hhighRange.2, hlow, hlowRange]

end

/-! ## Bodies are what is scanned -/

theorem IsBody.scanString_append {body decoded : List UInt8} (h : IsBody body decoded)
    (rest : List UInt8) : scanString (body ++ rest) = some (some decoded, rest) := by
  induction h with
  | close => exact scanString_quote
  | plain hquote hcontrol hescape _ ih =>
    rw [List.cons_append, scanString_plain hquote hcontrol hescape, ih]
    rfl
  | letter hletter _ ih =>
    rw [List.cons_append, List.cons_append, scanString_letter hletter, ih]
    rfl
  | unit hunit hrange _ ih =>
    simp only [List.cons_append, scanString_unit hunit hrange, ih]
    rfl
  | pair hhigh hhighRange hlow hlowRange _ ih =>
    simp only [List.cons_append, scanString_pair hhigh hhighRange hlow hlowRange, ih]
    rfl

theorem isBody_of_scanString {bytes decoded rest : List UInt8}
    (h : scanString bytes = some (some decoded, rest)) :
    ∃ body, bytes = body ++ rest ∧ IsBody body decoded := by
  fun_induction scanString bytes generalizing decoded with
  | case2 rest' =>
    obtain ⟨⟨⟩, rfl⟩ := Prod.mk.inj (Option.some.inj h)
    exact ⟨[0x22], rfl, .close⟩
  | case4 b rest' hquote hcontrol hescape ih =>
    rw [pushBytes_eq_some] at h
    obtain ⟨tail, htail, rfl⟩ := h
    obtain ⟨body, rfl, hbody⟩ := ih htail
    exact ⟨b :: body, rfl, .plain hquote hcontrol hescape hbody⟩
  | case7 _ _ _ hescape b rest' _ c hletter ih =>
    rw [pushBytes_eq_some] at h
    obtain ⟨tail, htail, rfl⟩ := h
    obtain ⟨body, rfl, hbody⟩ := ih htail
    obtain rfl := Decidable.not_not.mp hescape
    exact ⟨_ :: b :: body, rfl, .letter hletter hbody⟩
  | case9 _ _ _ hescape _ hunicode a b c d rest' unit hunit hrange ih =>
    rw [pushBytes_eq_some] at h
    obtain ⟨tail, htail, rfl⟩ := h
    obtain ⟨body, rfl, hbody⟩ := ih htail
    obtain rfl := Decidable.not_not.mp hescape
    obtain rfl := Decidable.not_not.mp hunicode
    exact ⟨_ :: _ :: a :: b :: c :: d :: body, rfl, .unit hunit hrange hbody⟩
  | case12 _ _ _ hescape _ hunicode a b c d high hhigh hnot hhighRange e f g h' rest' low hlow
      hlowRange ih =>
    rw [pushBytes_eq_some] at h
    obtain ⟨tail, htail, hdecoded⟩ := h
    obtain ⟨body, rfl, hbody⟩ := ih htail
    obtain rfl := Decidable.not_not.mp hescape
    obtain rfl := Decidable.not_not.mp hunicode
    have hbetween : 0xD800 ≤ high ∧ high < 0xDC00 := by omega
    rw [hdecoded]
    exact ⟨_, rfl, .pair hhigh hbetween hlow hlowRange hbody⟩
  | case10 | case13 | case14 => exact absurd h (dropBytes_ne_some _ _ _)
  | _ => cases h

/-! ## Characters -/

/-- Bytes that stand for themselves. -/
theorem isBody_plain {bytes body decoded : List UInt8}
    (h : ∀ b ∈ bytes, b ≠ 0x22 ∧ ¬ b < 0x20 ∧ b ≠ 0x5C) (hbody : IsBody body decoded) :
    IsBody (bytes ++ body) (bytes ++ decoded) := by
  induction bytes with
  | nil => exact hbody
  | cons b bytes ih =>
    obtain ⟨hquote, hcontrol, hescape⟩ := h b List.mem_cons_self
    exact .plain hquote hcontrol hescape (ih fun d hd ↦ h d (List.mem_cons_of_mem b hd))

theorem plain_of_mem_encodeChar {c : Char} (hcontrol : 0x20 ≤ c.toNat) (hquote : c ≠ '"')
    (hescape : c ≠ '\\') :
    ∀ b ∈ String.utf8EncodeChar c, b ≠ 0x22 ∧ ¬ b < 0x20 ∧ b ≠ 0x5C := by
  have hq : c.toNat ≠ 0x22 := fun h ↦ hquote (Char.toNat_inj.mp h)
  have he : c.toNat ≠ 0x5C := fun h ↦ hescape (Char.toNat_inj.mp h)
  have key : ∀ n, n < 256 → 0x20 ≤ n → n ≠ 0x22 → n ≠ 0x5C →
      UInt8.ofNat n ≠ 0x22 ∧ ¬ UInt8.ofNat n < 0x20 ∧ UInt8.ofNat n ≠ 0x5C := by
    intro n hn hlow h22 h5c
    have hnat := Utf8.toNat_ofNat hn
    simp only [ne_eq, ← UInt8.toNat_inj, UInt8.lt_iff_toNat_lt, hnat, UInt8.reduceToNat]
    omega
  intro b hb
  unfold String.utf8EncodeChar at hb
  replace hcontrol : 0x20 ≤ c.val.toNat := hcontrol
  replace hq : c.val.toNat ≠ 0x22 := hq
  replace he : c.val.toNat ≠ 0x5C := he
  generalize c.val.toNat = v at hb hcontrol hq he
  dsimp only at hb
  split at hb
  · rw [List.mem_singleton.mp hb]
    exact key v (by omega) hcontrol hq he
  split at hb
  · simp only [List.mem_cons, List.not_mem_nil, or_false] at hb
    rcases hb with rfl | rfl <;> exact key _ (by omega) (by omega) (by omega) (by omega)
  split at hb
  · simp only [List.mem_cons, List.not_mem_nil, or_false] at hb
    rcases hb with rfl | rfl | rfl <;> exact key _ (by omega) (by omega) (by omega) (by omega)
  · simp only [List.mem_cons, List.not_mem_nil, or_false] at hb
    rcases hb with rfl | rfl | rfl | rfl <;>
      exact key _ (by omega) (by omega) (by omega) (by omega)

end TypedJson.Json
