import TypedJson.Proofs.Split.Nesting

/-!
# The grammar of texts

`Grammar.IsValue` is the grammar of JSON by itself: it asks neither that a string decodes nor that a
number is in the range of a double, and sets no limit to the depth. All that has a value is in it
(`Parsed.Stands.isValue`), and more.

A value has no blank outside its brackets and strings, which are nested (`IsValue.isSolid`).
-/

namespace TypedJson

theorem Byte.structural_subset_special : Byte.structural ⊆ Byte.special := by
  intro b hb
  simp only [structural, List.mem_cons, List.not_mem_nil, or_false] at hb
  obtain rfl | rfl | rfl | rfl | rfl := hb <;> exact List.mem_of_elem_eq_true rfl

namespace Grammar

/-- The bytes of a string after its opening quote, up to and with the closing one. An escaped
surrogate need not have a partner. -/
inductive IsString : List UInt8 → Prop
  | close : IsString [Byte.quote]
  | character {b : UInt8} {body : List UInt8} (hquote : b ≠ Byte.quote) (hcontrol : ¬ b < 0x20)
      (hescape : b ≠ Byte.backslash) (h : IsString body) : IsString (b :: body)
  | letter {b c : UInt8} {body : List UInt8} (hletter : Json.escaped? b = some c)
      (h : IsString body) : IsString (Byte.backslash :: b :: body)
  | unit {a b c d : UInt8} {unit : Nat} {body : List UInt8}
      (hunit : Json.unit? a b c d = some unit) (h : IsString body) :
      IsString (Byte.backslash :: 0x75 :: a :: b :: c :: d :: body)

/-- The bytes of a string after its opening quote, and its characters. Each is written as it stands,
as an escape of one letter, as a code unit or as a pair of surrogates. -/
inductive Spells : List UInt8 → List Char → Prop
  | close : Spells [Byte.quote] []
  | character {c : Char} {body : List UInt8} {cs : List Char} (hcontrol : 0x20 ≤ c.toNat)
      (hquote : c ≠ '"') (hescape : c ≠ '\\') (h : Spells body cs) :
      Spells (String.utf8EncodeChar c ++ body) (c :: cs)
  | letter {b c : UInt8} {body : List UInt8} {cs : List Char} (hletter : Json.escaped? b = some c)
      (h : Spells body cs) : Spells (Byte.backslash :: b :: body) (Char.ofNat c.toNat :: cs)
  | unit {a b c d : UInt8} {unit : Nat} {body : List UInt8} {cs : List Char}
      (hunit : Json.unit? a b c d = some unit) (hrange : unit < 0xD800 ∨ 0xE000 ≤ unit)
      (h : Spells body cs) :
      Spells (Byte.backslash :: 0x75 :: a :: b :: c :: d :: body) (Char.ofNat unit :: cs)
  | pair {a b c d e f g i : UInt8} {high low : Nat} {body : List UInt8} {cs : List Char}
      (hhigh : Json.unit? a b c d = some high) (hhighRange : 0xD800 ≤ high ∧ high < 0xDC00)
      (hlow : Json.unit? e f g i = some low) (hlowRange : 0xDC00 ≤ low ∧ low < 0xE000)
      (h : Spells body cs) :
      Spells (Byte.backslash :: 0x75 :: a :: b :: c :: d :: Byte.backslash :: 0x75 :: e :: f :: g ::
        i :: body) (Char.ofNat (0x10000 + (high - 0xD800) * 0x400 + (low - 0xDC00)) :: cs)

/-- Texts in brackets, with commas between them. -/
def enclosed (opener closer : UInt8) (texts : List (List UInt8)) : List UInt8 :=
  opener :: ([Byte.comma].intercalate texts ++ [closer])

mutual

/-- The text of a value, from its first byte to its last. -/
inductive IsValue : List UInt8 → Prop
  | null : IsValue [0x6E, 0x75, 0x6C, 0x6C]
  | true : IsValue [0x74, 0x72, 0x75, 0x65]
  | false : IsValue [0x66, 0x61, 0x6C, 0x73, 0x65]
  | string {body : List UInt8} (h : IsString body) : IsValue (Byte.quote :: body)
  | number {literal : List UInt8} {l : Decimal.Literal} (h : Decimal.IsLiteral literal l) :
      IsValue literal
  | emptyList {blanks : List UInt8} (h : Parsed.IsBlank blanks) :
      IsValue (enclosed Byte.openList Byte.closeList [blanks])
  | list {texts : List (List UInt8)} (hne : texts ≠ []) (h : ∀ text ∈ texts, IsElement text) :
      IsValue (enclosed Byte.openList Byte.closeList texts)
  | emptyDict {blanks : List UInt8} (h : Parsed.IsBlank blanks) :
      IsValue (enclosed Byte.openDict Byte.closeDict [blanks])
  | dict {texts : List (List UInt8)} (hne : texts ≠ []) (h : ∀ text ∈ texts, IsEntry text) :
      IsValue (enclosed Byte.openDict Byte.closeDict texts)

/-- The text of a value with blanks around it. -/
inductive IsElement : List UInt8 → Prop
  | mk {before text after : List UInt8} (hbefore : Parsed.IsBlank before) (h : IsValue text)
      (hafter : Parsed.IsBlank after) : IsElement (before ++ (text ++ after))

/-- The text of a key, a colon and a value, with blanks around each. -/
inductive IsEntry : List UInt8 → Prop
  | mk {before body between text : List UInt8} (hbefore : Parsed.IsBlank before)
      (hkey : IsString body) (hbetween : Parsed.IsBlank between) (h : IsElement text) :
      IsEntry (before ++ Byte.quote :: (body ++ (between ++ Byte.colon :: text)))

end

/-! ## Strings -/

theorem isString_of_isBody {body decoded : List UInt8} (h : Json.IsBody body decoded) :
    IsString body := by
  induction h with
  | close => exact .close
  | plain hquote hcontrol hescape _ ih => exact .character hquote hcontrol hescape ih
  | letter hletter _ ih => exact .letter hletter ih
  | unit hunit _ _ ih => exact .unit hunit ih
  | pair hhigh _ hlow _ _ ih => exact .unit hhigh (.unit hlow ih)

theorem encodeChar_of_escaped? {b c : UInt8} (h : Json.escaped? b = some c) :
    String.utf8EncodeChar (Char.ofNat c.toNat) = [c] := by
  have hmem : c ∈ [(0x22 : UInt8), 0x5C, 0x2F, 0x08, 0x0C, 0x0A, 0x0D, 0x09] := by
    simp only [Json.escaped?, Bool.or_eq_true, beq_iff_eq] at h
    grind
  simp only [List.mem_cons, List.not_mem_nil, or_false] at hmem
  obtain rfl | rfl | rfl | rfl | rfl | rfl | rfl | rfl := hmem <;> rfl

theorem Spells.isBody {body : List UInt8} {cs : List Char} (h : Spells body cs) :
    Json.IsBody body (cs.flatMap String.utf8EncodeChar) := by
  induction h with
  | close => exact .close
  | character hcontrol hquote hescape _ ih =>
    exact Json.isBody_plain (Json.plain_of_mem_encodeChar hcontrol hquote hescape) ih
  | letter hletter _ ih =>
    rw [List.flatMap_cons, encodeChar_of_escaped? hletter]
    exact .letter hletter ih
  | unit hunit hrange _ ih => exact .unit hunit hrange ih
  | pair hhigh hhighRange hlow hlowRange _ ih =>
    exact .pair hhigh hhighRange hlow hlowRange ih

/-- A string that is spelled out is read. -/
theorem Spells.isScalar {body : List UInt8} {s : String} (h : Spells body s.toList) :
    Parsed.IsScalar (Byte.quote :: body) (.string s) :=
  .string h.isBody (Utf8.decode?_encode s)

/-! ## Texts are nested -/

theorem IsString.isQuoted {body : List UInt8} (h : IsString body) : Scan.IsQuoted body := by
  induction h with
  | close => exact .close
  | character hquote _ hescape _ ih => exact .character hquote hescape ih
  | letter _ _ ih => exact .escape ih
  | unit hunit _ ih => exact .unit hunit ih

theorem nested_of_not_special {bytes : List UInt8} (h : ∀ b ∈ bytes, b ∉ Byte.special) :
    Scan.Nested Byte.IsSolid bytes := by
  induction bytes with
  | nil => exact .nil
  | cons b bytes ih =>
    have hb := h b List.mem_cons_self
    refine .byte ?_ ⟨?_, Byte.isJsonBlank_of_not_special hb⟩
      (ih fun c hc ↦ h c (List.mem_cons_of_mem b hc))
    · exact fun hmem ↦ hb (Byte.structural_subset_special hmem)
    · rintro rfl
      exact hb (List.mem_of_elem_eq_true rfl)

theorem nested_of_word {word : List UInt8}
    (h : (word.all fun b ↦ !Byte.special.contains b) = true) : Scan.Nested Byte.IsSolid word := by
  refine nested_of_not_special fun b hb hmem ↦ ?_
  have hnot := List.all_eq_true.mp h b hb
  rw [List.contains_iff_mem.mpr hmem] at hnot
  exact Bool.false_ne_true hnot

theorem nested_of_isLiteral {literal : List UInt8} {l : Decimal.Literal}
    (h : Decimal.IsLiteral literal l) : Scan.Nested Byte.IsSolid literal :=
  nested_of_not_special fun b hb ↦ Parsed.not_mem_of (h.isLiteralByte b hb) rfl

theorem isMember_of_isBlank {blanks : List UInt8} (h : Parsed.IsBlank blanks) :
    Scan.IsMember blanks := by
  refine .of_isBlank h fun b hb ↦ ?_
  rintro rfl
  exact nomatch hb

theorem nested_intercalate {texts : List (List UInt8)} (h : ∀ text ∈ texts, Scan.IsMember text) :
    Scan.Nested (fun _ ↦ True) ([Byte.comma].intercalate texts) := by
  induction texts with
  | nil => exact .nil
  | cons text texts ih =>
    have htext := (h text List.mem_cons_self).mono fun _ _ ↦ trivial
    cases texts with
    | nil =>
      rw [List.intercalate_singleton]
      exact htext
    | cons text' texts =>
      have htexts := ih fun t ht ↦ h t (List.mem_cons_of_mem text ht)
      have hcomma : Byte.comma ∉ Byte.structural := by decide
      rw [List.intercalate_cons_cons, List.append_assoc]
      exact htext.append (.byte hcomma trivial htexts)

/-- A container is nested if all its members are. -/
theorem nested_enclosed {opener closer : UInt8} {texts : List (List UInt8)}
    (hkind : Byte.Enclose opener closer) (h : ∀ text ∈ texts, Scan.IsMember text) :
    Scan.Nested Byte.IsSolid (enclosed opener closer texts) :=
  .of_brackets hkind (nested_intercalate h)

theorem nested_enclosed_blanks {opener closer : UInt8} {blanks : List UInt8}
    (hkind : Byte.Enclose opener closer) (h : Parsed.IsBlank blanks) :
    Scan.Nested Byte.IsSolid (enclosed opener closer [blanks]) := by
  refine nested_enclosed hkind fun text ht ↦ ?_
  rw [List.mem_singleton.mp ht]
  exact isMember_of_isBlank h

mutual

theorem IsValue.nested {text : List UInt8} (h : IsValue text) : Scan.Nested Byte.IsSolid text := by
  match h with
  | .null | .true | .false => exact nested_of_word rfl
  | .string h => exact .of_isQuoted h.isQuoted
  | .number h => exact nested_of_isLiteral h
  | .emptyList h => exact nested_enclosed_blanks (.inl ⟨rfl, rfl⟩) h
  | .list _ h => exact nested_enclosed (.inl ⟨rfl, rfl⟩) fun text ht ↦ (h text ht).isMember
  | .emptyDict h => exact nested_enclosed_blanks (.inr ⟨rfl, rfl⟩) h
  | .dict _ h => exact nested_enclosed (.inr ⟨rfl, rfl⟩) fun text ht ↦ (h text ht).isMember

theorem IsElement.isMember {text : List UInt8} (h : IsElement text) : Scan.IsMember text := by
  match h with
  | .mk hbefore h hafter =>
    exact (isMember_of_isBlank hbefore).append
      ((h.nested.mono fun _ h ↦ h.1).append (isMember_of_isBlank hafter))

theorem IsEntry.isMember {text : List UInt8} (h : IsEntry text) : Scan.IsMember text := by
  match h with
  | .mk hbefore hkey hbetween h =>
    have hcolon : Byte.colon ∉ Byte.structural := by decide
    have hinner : Byte.colon ≠ Byte.comma := by decide
    exact (isMember_of_isBlank hbefore).append (.string hkey.isQuoted
      ((isMember_of_isBlank hbetween).append (.byte hcolon hinner h.isMember)))

end

theorem IsValue.ne_nil {text : List UInt8} (h : IsValue text) : text ≠ [] := by
  cases h with
  | number h =>
    obtain ⟨b, rest, rfl, -⟩ := h.head
    exact List.cons_ne_nil b rest
  | null | true | false | string | emptyList | list | emptyDict | dict => exact List.cons_ne_nil _ _

theorem IsValue.isSolid {text : List UInt8} (h : IsValue text) : Scan.IsSolid text :=
  ⟨h.ne_nil, h.nested⟩

/-! ## Texts of values -/

theorem isValue_of_isScalar {literal : List UInt8} {value : Json}
    (h : Parsed.IsScalar literal value) : IsValue literal := by
  cases h with
  | null => exact .null
  | true => exact .true
  | false => exact .false
  | string hbody _ => exact .string (isString_of_isBody hbody)
  | number hliteral _ => exact .number hliteral

/-- The bytes are texts of a kind with commas between them. -/
def Separates (p : List UInt8 → Prop) (bytes : List UInt8) : Prop :=
  ∃ texts, texts ≠ [] ∧ bytes = [Byte.comma].intercalate texts ∧ ∀ text ∈ texts, p text

theorem Separates.one {p : List UInt8 → Prop} {text : List UInt8} (h : p text) :
    Separates p text := by
  refine ⟨[text], List.cons_ne_nil _ _, List.intercalate_singleton.symm, fun t ht ↦ ?_⟩
  rw [List.mem_singleton.mp ht]
  exact h

theorem Separates.more {p : List UInt8 → Prop} {text bytes : List UInt8} (h : p text)
    (hbytes : Separates p bytes) : Separates p (text ++ Byte.comma :: bytes) := by
  obtain ⟨texts, hne, rfl, htexts⟩ := hbytes
  obtain ⟨text', texts, rfl⟩ := List.exists_cons_of_ne_nil hne
  refine ⟨text :: text' :: texts, List.cons_ne_nil _ _, ?_, List.forall_mem_cons.mpr ⟨h, htexts⟩⟩
  rw [List.intercalate_cons_cons, List.append_assoc]
  rfl

end Grammar

namespace Parsed

open Grammar

mutual

theorem Stands.isValue {tree : Parsed} {text : List UInt8} (h : tree.Stands text) :
    IsValue text := by
  match h with
  | .scalar h => exact isValue_of_isScalar h
  | .emptyList h =>
    have hempty := IsValue.emptyList h
    rwa [enclosed, List.intercalate_singleton] at hempty
  | .list h =>
    obtain ⟨texts, hne, rfl, htexts⟩ := h.separates
    exact .list hne htexts
  | .emptyDict h =>
    have hempty := IsValue.emptyDict h
    rwa [enclosed, List.intercalate_singleton] at hempty
  | .dict h =>
    obtain ⟨texts, hne, rfl, htexts⟩ := h.separates
    exact .dict hne htexts

theorem Fills.isElement {tree : Parsed} {offset : Nat} {text : List UInt8}
    (h : tree.Fills offset text) : IsElement text := by
  match h with
  | .mk _ hbefore h hafter => exact .mk hbefore h.isValue hafter

theorem ItemsStand.separates {items : List Parsed} {offset : Nat} {bytes : List UInt8}
    (h : ItemsStand items offset bytes) : Separates IsElement bytes := by
  match h with
  | .one h => exact .one h.isElement
  | .more h hitems => exact .more h.isElement hitems.separates

theorem EntryFills.isEntry {key : String} {value : Parsed} {offset : Nat} {text : List UInt8}
    (h : EntryFills key value offset text) : IsEntry text := by
  match h with
  | .mk hbefore hbody _ hbetween h =>
    exact .mk hbefore (isString_of_isBody hbody) hbetween h.isElement

theorem EntriesStand.separates {entries : List (String × Parsed)} {offset : Nat}
    {bytes : List UInt8} (h : EntriesStand entries offset bytes) : Separates IsEntry bytes := by
  match h with
  | .one h => exact .one h.isEntry
  | .more h hentries => exact .more h.isEntry hentries.separates

end

end Parsed

end TypedJson
