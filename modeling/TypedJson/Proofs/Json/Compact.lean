import TypedJson.Proofs.Json.Grammar

/-!
# The grammar of compact texts

`Grammar.IsCompact` is the grammar of texts without blanks, over a condition on the bodies of
strings. The conditions of interest are closed under putting texts together, so each of them is one
induction on the grammar: a compact text is the text of a value (`IsCompact.isValue`), it has no
blank outside its strings (`IsCompact.blankFree`), and it is ASCII if its strings are
(`IsCompact.lt_of_mem`).
-/

namespace TypedJson

namespace Scan

/-- Where a scan is with regard to strings after a byte. -/
def Mode.step (mode : Mode) (b : UInt8) : Mode := (State.step ⟨[], mode⟩ b).mode

/-- The bytes of a text outside its strings, together with the quotes that open them. -/
def outsideStrings : Mode → List UInt8 → List UInt8
  | _, [] => []
  | mode, b :: rest =>
    if mode = .plain then b :: outsideStrings (mode.step b) rest
    else outsideStrings (mode.step b) rest

/-- A text that neither has a blank outside its strings nor ends in one of them. -/
def BlankFree (text : List UInt8) : Prop :=
  ∃ seen, (∀ b ∈ seen, Text.isJsonBlank b = false) ∧
    ∀ rest, outsideStrings .plain (text ++ rest) = seen ++ outsideStrings .plain rest

namespace BlankFree

variable {text rest body : List UInt8} {b : UInt8}

theorem nil : BlankFree [] := ⟨[], List.forall_mem_nil _, fun _ ↦ rfl⟩

theorem append (h : BlankFree text) (hrest : BlankFree rest) : BlankFree (text ++ rest) := by
  obtain ⟨seen, hseen, htext⟩ := h
  obtain ⟨seen', hseen', hrest⟩ := hrest
  refine ⟨seen ++ seen', fun b hb ↦ (List.mem_append.mp hb).elim (hseen b) (hseen' b), ?_⟩
  intro after
  rw [List.append_assoc, htext, hrest, List.append_assoc]

theorem cons (hquote : b ≠ Byte.quote) (hblank : Text.isJsonBlank b = false)
    (h : BlankFree text) : BlankFree (b :: text) := by
  obtain ⟨seen, hseen, htext⟩ := h
  refine ⟨b :: seen, List.forall_mem_cons.mpr ⟨hblank, hseen⟩, fun rest ↦ ?_⟩
  -- No byte but a quote leads into a string.
  have hmode : Mode.step .plain b = .plain := by
    simp only [Mode.step, State.step, if_neg hquote]
    split <;> try split <;> try split
    all_goals rfl
  rw [List.cons_append, outsideStrings, if_pos rfl, hmode, htext, List.cons_append]

theorem of_not_special (h : ∀ b ∈ text, b ∉ Byte.special) : BlankFree text := by
  induction text with
  | nil => exact nil
  | cons b text ih =>
    have hb := h b List.mem_cons_self
    refine cons ?_ (Byte.isJsonBlank_of_not_special hb)
      (ih fun c hc ↦ h c (List.mem_cons_of_mem b hc))
    rintro rfl
    exact hb (List.mem_of_elem_eq_true rfl)

theorem of_word (h : (text.all fun b ↦ !Byte.special.contains b) = true) : BlankFree text := by
  refine of_not_special fun b hb hmem ↦ ?_
  have hnot := List.all_eq_true.mp h b hb
  rw [List.contains_iff_mem.mpr hmem] at hnot
  exact Bool.false_ne_true hnot

/-- Nothing between the quotes is outside. -/
theorem string (h : IsQuoted body) : BlankFree (Byte.quote :: body) := by
  refine ⟨[Byte.quote], List.forall_mem_singleton.mpr rfl, fun rest ↦ ?_⟩
  have hbody : outsideStrings .string (body ++ rest) = outsideStrings .plain rest := by
    induction h with
    | close => rfl
    | escape _ ih => exact ih
    | character hquote hescape _ ih =>
      rw [List.cons_append, outsideStrings, if_neg (by decide), Mode.step, State.step]
      simp only [if_neg hquote, if_neg hescape]
      exact ih
  rw [List.cons_append, outsideStrings, if_pos rfl]
  exact congrArg (Byte.quote :: ·) hbody

theorem intercalate {texts : List (List UInt8)} (h : ∀ text ∈ texts, BlankFree text) :
    BlankFree ([Byte.comma].intercalate texts) := by
  induction texts with
  | nil => exact nil
  | cons text texts ih =>
    have htext := h text List.mem_cons_self
    cases texts with
    | nil =>
      rw [List.intercalate_singleton]
      exact htext
    | cons text' texts =>
      rw [List.intercalate_cons_cons, List.append_assoc]
      exact htext.append (cons (by decide) rfl (ih fun t ht ↦ h t (List.mem_cons_of_mem text ht)))

theorem enclosed {opener closer : UInt8} {texts : List (List UInt8)}
    (hkind : Byte.Enclose opener closer) (h : ∀ text ∈ texts, BlankFree text) :
    BlankFree (Grammar.enclosed opener closer texts) := by
  obtain ⟨rfl, rfl⟩ | ⟨rfl, rfl⟩ := hkind <;>
    exact cons (by decide) rfl ((intercalate h).append (cons (by decide) rfl nil))

theorem outside (h : BlankFree text) :
    ∀ b ∈ outsideStrings .plain text, Text.isJsonBlank b = false := by
  obtain ⟨seen, hseen, htext⟩ := h
  have hall := htext []
  rw [List.append_nil, outsideStrings, List.append_nil] at hall
  rwa [hall]

end BlankFree

end Scan

namespace Grammar

/-- Texts with commas between them: each but the first has a comma in front. -/
theorem intercalate_comma (text : List UInt8) (texts : List (List UInt8)) :
    [Byte.comma].intercalate (text :: texts) = text ++ texts.flatMap (Byte.comma :: ·) := by
  induction texts generalizing text with
  | nil => rw [List.intercalate_singleton, List.flatMap_nil, List.append_nil]
  | cons other texts ih =>
    rw [List.intercalate_cons_cons, ih, List.flatMap_cons, List.append_assoc]
    rfl

mutual

/-- The text of a value without blanks, whose strings have bodies of a kind. -/
inductive IsCompact (isBody : List UInt8 → Prop) : List UInt8 → Prop
  | null : IsCompact isBody [0x6E, 0x75, 0x6C, 0x6C]
  | true : IsCompact isBody [0x74, 0x72, 0x75, 0x65]
  | false : IsCompact isBody [0x66, 0x61, 0x6C, 0x73, 0x65]
  | string {body : List UInt8} (h : isBody body) : IsCompact isBody (Byte.quote :: body)
  | number {literal : List UInt8} {l : Decimal.Literal} (h : Decimal.IsLiteral literal l) :
      IsCompact isBody literal
  | list {texts : List (List UInt8)} (h : ∀ text ∈ texts, IsCompact isBody text) :
      IsCompact isBody (enclosed Byte.openList Byte.closeList texts)
  | dict {texts : List (List UInt8)} (h : ∀ text ∈ texts, IsCompactEntry isBody text) :
      IsCompact isBody (enclosed Byte.openDict Byte.closeDict texts)

/-- The text of a key, a colon and a value, without blanks. -/
inductive IsCompactEntry (isBody : List UInt8 → Prop) : List UInt8 → Prop
  | mk {body text : List UInt8} (hkey : isBody body) (h : IsCompact isBody text) :
      IsCompactEntry isBody (Byte.quote :: (body ++ Byte.colon :: text))

end

variable {isBody : List UInt8 → Prop}

/-! ## Compact texts are texts of values -/

theorem IsValue.isElement {text : List UInt8} (h : IsValue text) : IsElement text := by
  have hmk := IsElement.mk Parsed.isBlank_nil h Parsed.isBlank_nil
  rwa [List.nil_append, List.append_nil] at hmk

mutual

theorem IsCompact.isValue {text : List UInt8} (hbody : ∀ body, isBody body → IsString body)
    (h : IsCompact isBody text) : IsValue text := by
  match h with
  | .null => exact .null
  | .true => exact .true
  | .false => exact .false
  | .string h => exact .string (hbody _ h)
  | .number h => exact .number h
  | .list h =>
    rename_i texts
    by_cases hnil : texts = []
    · subst hnil
      exact .emptyList Parsed.isBlank_nil
    · exact .list hnil fun text ht ↦ ((h text ht).isValue hbody).isElement
  | .dict h =>
    rename_i texts
    by_cases hnil : texts = []
    · subst hnil
      exact .emptyDict Parsed.isBlank_nil
    · exact .dict hnil fun text ht ↦ (h text ht).isEntry hbody

theorem IsCompactEntry.isEntry {text : List UInt8} (hbody : ∀ body, isBody body → IsString body)
    (h : IsCompactEntry isBody text) : IsEntry text := by
  match h with
  | .mk hkey h =>
    exact .mk Parsed.isBlank_nil (hbody _ hkey) Parsed.isBlank_nil (h.isValue hbody).isElement

end

/-! ## Compact texts have no blanks -/

mutual

theorem IsCompact.blankFree {text : List UInt8} (hbody : ∀ body, isBody body → IsString body)
    (h : IsCompact isBody text) : Scan.BlankFree text := by
  match h with
  | .null | .true | .false => exact .of_word rfl
  | .string h => exact .string (hbody _ h).isQuoted
  | .number h => exact .of_not_special fun b hb ↦ Parsed.not_mem_of (h.isLiteralByte b hb) rfl
  | .list h => exact .enclosed (.inl ⟨rfl, rfl⟩) fun text ht ↦ (h text ht).blankFree hbody
  | .dict h => exact .enclosed (.inr ⟨rfl, rfl⟩) fun text ht ↦ (h text ht).blankFree hbody

theorem IsCompactEntry.blankFree {text : List UInt8} (hbody : ∀ body, isBody body → IsString body)
    (h : IsCompactEntry isBody text) : Scan.BlankFree text := by
  match h with
  | .mk hkey h =>
    exact (Scan.BlankFree.string (hbody _ hkey).isQuoted).append
      (.cons (by decide) rfl (h.blankFree hbody))

end

/-! ## Compact texts are ASCII if their strings are -/

theorem mem_enclosed {opener closer b : UInt8} {texts : List (List UInt8)}
    (h : b ∈ enclosed opener closer texts) :
    b = opener ∨ b = closer ∨ b = Byte.comma ∨ ∃ text ∈ texts, b ∈ text := by
  obtain rfl | hb := List.mem_cons.mp h
  · exact .inl rfl
  obtain hb | hb := List.mem_append.mp hb
  · refine .inr (.inr ?_)
    cases texts with
    | nil => exact absurd hb List.not_mem_nil
    | cons text texts =>
      rw [intercalate_comma, List.mem_append, List.mem_flatMap] at hb
      obtain hb | ⟨other, hother, hb⟩ := hb
      · exact .inr ⟨text, List.mem_cons_self, hb⟩
      obtain rfl | hb := List.mem_cons.mp hb
      · exact .inl rfl
      · exact .inr ⟨other, List.mem_cons_of_mem text hother, hb⟩
  · exact .inr (.inl (List.mem_singleton.mp hb))

theorem lt_of_mem_enclosed {opener closer : UInt8} {texts : List (List UInt8)}
    (hkind : Byte.Enclose opener closer) (h : ∀ text ∈ texts, ∀ b ∈ text, b < 0x80) :
    ∀ b ∈ enclosed opener closer texts, b < 0x80 := by
  have hbrackets : opener < 0x80 ∧ closer < 0x80 := by
    obtain ⟨rfl, rfl⟩ | ⟨rfl, rfl⟩ := hkind
    · exact ⟨by decide, by decide⟩
    · exact ⟨by decide, by decide⟩
  intro b hb
  obtain rfl | rfl | rfl | ⟨text, ht, hmem⟩ := mem_enclosed hb
  · exact hbrackets.1
  · exact hbrackets.2
  · decide
  · exact h text ht b hmem

theorem lt_of_isLiteralByte {b : UInt8} (h : Decimal.isLiteralByte b = true) : b < 0x80 := by
  simp only [Decimal.isLiteralByte, Decimal.digit?, Bool.or_eq_true, beq_iff_eq,
    Option.isSome_ite, Bool.and_eq_true, decide_eq_true_eq] at h
  obtain ((((⟨-, h⟩ | rfl) | rfl) | rfl) | rfl) | rfl := h
  · exact UInt8.lt_of_le_of_lt h (by decide)
  all_goals decide

theorem lt_of_all {bytes : List UInt8} (h : (bytes.all fun b ↦ decide (b < 0x80)) = true) :
    ∀ b ∈ bytes, b < 0x80 :=
  fun b hb ↦ of_decide_eq_true (List.all_eq_true.mp h b hb)

mutual

theorem IsCompact.lt_of_mem {text : List UInt8}
    (hbody : ∀ body, isBody body → ∀ b ∈ body, b < 0x80) (h : IsCompact isBody text) :
    ∀ b ∈ text, b < 0x80 := by
  match h with
  | .null | .true | .false => exact lt_of_all rfl
  | .string h => exact List.forall_mem_cons.mpr ⟨by decide, hbody _ h⟩
  | .number h => exact fun b hb ↦ lt_of_isLiteralByte (h.isLiteralByte b hb)
  | .list h =>
    exact lt_of_mem_enclosed (.inl ⟨rfl, rfl⟩) fun text ht ↦ (h text ht).lt_of_mem hbody
  | .dict h =>
    exact lt_of_mem_enclosed (.inr ⟨rfl, rfl⟩) fun text ht ↦ (h text ht).lt_of_mem hbody

theorem IsCompactEntry.lt_of_mem {text : List UInt8}
    (hbody : ∀ body, isBody body → ∀ b ∈ body, b < 0x80) (h : IsCompactEntry isBody text) :
    ∀ b ∈ text, b < 0x80 := by
  match h with
  | .mk hkey h =>
    refine List.forall_mem_cons.mpr ⟨by decide, fun b hb ↦ ?_⟩
    obtain hb | hb := List.mem_append.mp hb
    · exact hbody _ hkey b hb
    · exact List.forall_mem_cons.mpr ⟨by decide, h.lt_of_mem hbody⟩ b hb

end

end Grammar

end TypedJson
