import Mathlib.Algebra.Group.Nat.Defs
import TypedJson.Fingerprint

/-!
# Reading streams apart

Cache keys are compared here by their streams, before they are hashed. A stream is read from its
front: the end mark of a string occurs in no string, and integers have a fixed width. So each part
is determined by the stream, and so is what follows it.
-/

namespace TypedJson.Fingerprint

/-! ## Strings -/

theorem ofNat_ne_mark {n : Nat} (h : n < 255) : UInt8.ofNat n ≠ 0xFF := by
  intro heq
  have hnat : (UInt8.ofNat n).toNat = 255 := congrArg UInt8.toNat heq
  rw [UInt8.toNat_ofNat_of_lt' (Nat.lt_succ_of_lt h)] at hnat
  omega

theorem mark_not_mem_encodeChar (c : Char) : (0xFF : UInt8) ∉ String.utf8EncodeChar c := by
  unfold String.utf8EncodeChar
  intro hmem
  have hne : ∀ n, n < 255 → (0xFF : UInt8) ≠ UInt8.ofNat n := fun n hn ↦ (ofNat_ne_mark hn).symm
  dsimp only at hmem
  split at hmem
  · simp only [List.mem_singleton] at hmem
    exact hne _ (by omega) hmem
  split at hmem
  · simp only [List.mem_cons, List.not_mem_nil, or_false] at hmem
    rcases hmem with hmem | hmem <;> exact hne _ (by omega) hmem
  split at hmem
  · simp only [List.mem_cons, List.not_mem_nil, or_false] at hmem
    rcases hmem with hmem | hmem | hmem <;> exact hne _ (by omega) hmem
  · simp only [List.mem_cons, List.not_mem_nil, or_false] at hmem
    rcases hmem with hmem | hmem | hmem | hmem <;> exact hne _ (by omega) hmem

theorem mark_not_mem_encode (s : String) : (0xFF : UInt8) ∉ Utf8.encode s := by
  intro hmem
  obtain ⟨c, -, hc⟩ := List.mem_flatMap.mp hmem
  exact mark_not_mem_encodeChar c hc

theorem encode_inj {s t : String} (h : Utf8.encode s = Utf8.encode t) : s = t := by
  refine String.toByteArray_inj.mp ?_
  rw [← String.utf8Encode_toList, ← String.utf8Encode_toList]
  exact congrArg List.toByteArray h

/-- The front of a list up to the first mark. -/
theorem append_mark_inj {α : Type} {mark : α} {a b r s : List α} (ha : mark ∉ a) (hb : mark ∉ b)
    (h : a ++ mark :: r = b ++ mark :: s) : a = b ∧ r = s := by
  induction a generalizing b with
  | nil =>
    cases b with
    | nil => exact ⟨rfl, (List.cons.inj h).2⟩
    | cons y b => exact (hb (by simp [(List.cons.inj h).1])).elim
  | cons x a ih =>
    cases b with
    | nil => exact (ha (by simp [← (List.cons.inj h).1])).elim
    | cons y b =>
      obtain ⟨hxy, hrest⟩ := List.cons.inj h
      obtain ⟨hab, hrs⟩ := ih (fun hm ↦ ha (by simp [hm])) (fun hm ↦ hb (by simp [hm])) hrest
      exact ⟨by rw [hxy, hab], hrs⟩

/-- A string is read off the front of a stream. -/
theorem text_append_inj {s t : String} {r r' : List UInt8} (h : text s ++ r = text t ++ r') :
    s = t ∧ r = r' := by
  simp only [text, List.append_assoc, List.singleton_append] at h
  obtain ⟨hst, hr⟩ := append_mark_inj (mark_not_mem_encode s) (mark_not_mem_encode t) h
  exact ⟨encode_inj hst, hr⟩

theorem text_ne_nil (s : String) : text s ≠ [] := by
  simp [text]

/-! ## Integers -/

@[simp] theorem length_word (n : UInt64) : (word n).length = 8 := by
  simp [word]

/-- The lowest digits of a number determine what it leaves when divided by a power of the base. -/
theorem mod_pow_eq_of_digits {base m n k : Nat}
    (h : ∀ i, i < k → m / base ^ i % base = n / base ^ i % base) :
    m % base ^ k = n % base ^ k := by
  induction k with
  | zero => rw [Nat.pow_zero, Nat.mod_one, Nat.mod_one]
  | succ k ih =>
    rw [Nat.mod_pow_succ, Nat.mod_pow_succ, ih fun i hi ↦ h i (by omega), h k (by omega)]

theorem word_inj {m n : UInt64} (h : word m = word n) : m = n := by
  have hdigit : ∀ i, i < 8 → m.toNat / 256 ^ i % 256 = n.toNat / 256 ^ i % 256 := by
    intro i hi
    have hget := congrArg (·[i]?) h
    simp only [word, List.getElem?_map, List.getElem?_range hi, Option.map_some] at hget
    have hnat := congrArg UInt8.toNat (Option.some.inj hget)
    simpa using hnat
  have hmod : m.toNat % 256 ^ 8 = n.toNat % 256 ^ 8 := mod_pow_eq_of_digits hdigit
  rw [show 256 ^ 8 = 2 ^ 64 from rfl, Nat.mod_eq_of_lt m.toNat_lt,
    Nat.mod_eq_of_lt n.toNat_lt] at hmod
  exact UInt64.toNat_inj.mp hmod

/-- An integer is read off the front of a stream. -/
theorem word_append_inj {m n : UInt64} {r r' : List UInt8} (h : word m ++ r = word n ++ r') :
    m = n ∧ r = r' := by
  obtain ⟨hmn, hr⟩ := List.append_inj h (by rw [length_word, length_word])
  exact ⟨word_inj hmn, hr⟩

theorem ofNat_inj {m n : Nat} (hm : m < 2 ^ 64) (hn : n < 2 ^ 64)
    (h : UInt64.ofNat m = UInt64.ofNat n) : m = n := by
  have hnat := congrArg UInt64.toNat h
  rwa [UInt64.toNat_ofNat_of_lt' hm, UInt64.toNat_ofNat_of_lt' hn] at hnat

/-! ## Hexadecimal digits -/

theorem hexDigit_inj {m n : Nat} (hm : m < 16) (hn : n < 16) (h : hexDigit m = hexDigit n) :
    m = n := by
  have key : ∀ m < 16, ∀ n < 16, hexDigit m = hexDigit n → m = n := by decide +kernel
  exact key m hm n hn h

theorem hex64_inj {m n : UInt64} (h : hex64 m = hex64 n) : m = n := by
  have hdigit : ∀ i, i < 16 → m.toNat / 16 ^ i % 16 = n.toNat / 16 ^ i % 16 := by
    intro i hi
    have hmem : i ∈ (List.range 16).reverse := List.mem_reverse.mpr (List.mem_range.mpr hi)
    refine hexDigit_inj (Nat.mod_lt _ (by omega)) (Nat.mod_lt _ (by omega)) ?_
    exact List.map_inj_left.mp (String.ofList_injective h) i hmem
  have hmod : m.toNat % 16 ^ 16 = n.toNat % 16 ^ 16 := mod_pow_eq_of_digits hdigit
  rw [show 16 ^ 16 = 2 ^ 64 from rfl, Nat.mod_eq_of_lt m.toNat_lt,
    Nat.mod_eq_of_lt n.toNat_lt] at hmod
  exact UInt64.toNat_inj.mp hmod

@[simp] theorem length_toList_hex64 (n : UInt64) : (hex64 n).toList.length = 16 := by
  simp [hex64, hex]

/-! ## Lists -/

/-- As many strings as are known to stand there are read off the front of a stream. -/
theorem flatMap_text_append_inj {as bs : List String} {r s : List UInt8}
    (hlen : as.length = bs.length) (h : as.flatMap text ++ r = bs.flatMap text ++ s) :
    as = bs ∧ r = s := by
  induction as generalizing bs with
  | nil =>
    rw [List.eq_nil_of_length_eq_zero hlen.symm] at h ⊢
    exact ⟨rfl, h⟩
  | cons a as ih =>
    cases bs with
    | nil => cases hlen
    | cons b bs =>
      rw [List.flatMap_cons, List.flatMap_cons, List.append_assoc, List.append_assoc] at h
      obtain ⟨rfl, hrest⟩ := text_append_inj h
      obtain ⟨rfl, hr⟩ := ih (Nat.succ.inj hlen) hrest
      exact ⟨rfl, hr⟩

/-- Strings are read off a stream that ends with the last of them. -/
theorem flatMap_text_inj {as bs : List String} (h : as.flatMap text = bs.flatMap text) :
    as = bs := by
  induction as generalizing bs with
  | nil =>
    cases bs with
    | nil => rfl
    | cons b bs =>
      rw [List.flatMap_cons] at h
      exact (text_ne_nil b (List.append_eq_nil_iff.mp h.symm).1).elim
  | cons a as ih =>
    cases bs with
    | nil =>
      rw [List.flatMap_cons] at h
      exact (text_ne_nil a (List.append_eq_nil_iff.mp h).1).elim
    | cons b bs =>
      rw [List.flatMap_cons, List.flatMap_cons] at h
      obtain ⟨rfl, hrest⟩ := text_append_inj h
      rw [ih hrest]

/-- Strings with a number each. -/
def numbered (entries : List (String × Nat)) : List UInt8 :=
  entries.flatMap fun (name, n) ↦ text name ++ word (UInt64.ofNat n)

/-- What the bytes of a string with a number determine. -/
def code (entry : String × Nat) : String × UInt64 := (entry.1, UInt64.ofNat entry.2)

/-- A stream that does not begin with a string of a kind. -/
def Ends (P : String → Prop) (stream : List UInt8) : Prop :=
  ∀ name rest, P name → stream ≠ text name ++ rest

theorem ends_nil (P : String → Prop) : Ends P [] := by
  intro name rest _ h
  exact text_ne_nil name (List.append_eq_nil_iff.mp h.symm).1

/-- Numbered strings of a kind are read off the front of a stream up to where another string
follows. -/
theorem numbered_append_inj {P : String → Prop} {as bs : List (String × Nat)} {r s : List UInt8}
    (has : ∀ entry ∈ as, P entry.1) (hbs : ∀ entry ∈ bs, P entry.1) (hr : Ends P r) (hs : Ends P s)
    (h : numbered as ++ r = numbered bs ++ s) : as.map code = bs.map code ∧ r = s := by
  induction as generalizing bs with
  | nil =>
    cases bs with
    | nil => exact ⟨rfl, h⟩
    | cons b bs =>
      refine (hr b.1 (word (UInt64.ofNat b.2) ++ (numbered bs ++ s)) (hbs b (by simp)) ?_).elim
      simpa [numbered] using h
  | cons a as ih =>
    cases bs with
    | nil =>
      refine (hs a.1 (word (UInt64.ofNat a.2) ++ (numbered as ++ r)) (has a (by simp)) ?_).elim
      simpa [numbered] using h.symm
    | cons b bs =>
      replace h : text a.1 ++ (word (UInt64.ofNat a.2) ++ (numbered as ++ r)) =
          text b.1 ++ (word (UInt64.ofNat b.2) ++ (numbered bs ++ s)) := by
        simpa [numbered] using h
      obtain ⟨hname, h⟩ := text_append_inj h
      obtain ⟨hnumber, h⟩ := word_append_inj h
      obtain ⟨hrest, hrs⟩ :=
        ih (fun e he ↦ has e (by simp [he])) (fun e he ↦ hbs e (by simp [he])) h
      refine ⟨?_, hrs⟩
      rw [List.map_cons, List.map_cons, hrest, code, code, hname, hnumber]

end TypedJson.Fingerprint
