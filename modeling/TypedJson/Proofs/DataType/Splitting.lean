import TypedJson.DataType.Resolve

/-!
# Splitting type strings

A split counts the brackets that are open, and cuts at a separator where none is. A text *passes* a
separator from a depth on if a split that meets it there, or deeper, takes it over whole and goes on
at the same depth. Putting a text in brackets lowers that depth by one, so that what passes only
inside brackets, such as a union, passes everywhere once it is a parameter.
-/

namespace TypedJson.TypeText

/-! ## Texts that a split takes over -/

/-- The characters in front of the first part. -/
def prepend (cs : List Char) : List (List Char) → List (List Char)
  | [] => [cs]
  | part :: parts => (cs ++ part) :: parts

theorem prepend_singleton (c : Char) (parts : List (List Char)) :
    prepend [c] parts = consHead c parts := by
  cases parts <;> rfl

theorem prepend_append (a b : List Char) (parts : List (List Char)) :
    prepend a (prepend b parts) = prepend (a ++ b) parts := by
  cases parts with
  | nil => rfl
  | cons part parts => simp [prepend]

/-- A split at `sep` takes the text over whole wherever `floor` brackets are open. -/
def Passes (sep : Char) (floor : Nat) (cs : List Char) : Prop :=
  ∀ depth rest, floor ≤ depth →
    splitFrom sep depth (cs ++ rest) = (splitFrom sep depth rest).map (prepend cs)

variable {sep : Char} {floor : Nat} {cs : List Char}

theorem Passes.mono {other : Nat} (h : Passes sep floor cs) (hle : floor ≤ other) :
    Passes sep other cs :=
  fun depth rest hdepth ↦ h depth rest (Nat.le_trans hle hdepth)

theorem Passes.append {other : List Char} (h : Passes sep floor cs)
    (ho : Passes sep floor other) : Passes sep floor (cs ++ other) := by
  intro depth rest hdepth
  rw [List.append_assoc, h depth _ hdepth, ho depth rest hdepth, Option.map_map]
  congr 1
  funext parts
  exact prepend_append cs other parts

theorem splitFrom_open (sep : Char) (depth : Nat) (rest : List Char) :
    splitFrom sep depth ('<' :: rest) =
      (splitFrom sep (depth + 1) rest).map (consHead '<') := by
  cases depth <;> rfl

theorem splitFrom_close (sep : Char) (depth : Nat) (rest : List Char) :
    splitFrom sep (depth + 1) ('>' :: rest) = (splitFrom sep depth rest).map (consHead '>') :=
  rfl

theorem splitFrom_cut {sep : Char} (hopen : sep ≠ '<') (hclose : sep ≠ '>') (rest : List Char) :
    splitFrom sep 0 (sep :: rest) = (splitFrom sep 0 rest).map ([] :: ·) := by
  simp [splitFrom, hopen, hclose]

theorem splitFrom_keep {c : Char} {depth : Nat} (hopen : c ≠ '<') (hclose : c ≠ '>')
    (hsep : ¬(c = sep ∧ depth = 0)) (rest : List Char) :
    splitFrom sep depth (c :: rest) = (splitFrom sep depth rest).map (consHead c) := by
  rw [splitFrom.eq_def]
  simp only [if_neg hopen, if_neg hclose, if_neg hsep]

theorem passes_singleton {c : Char} (hopen : c ≠ '<') (hclose : c ≠ '>')
    (hsep : c = sep → 0 < floor) : Passes sep floor [c] := by
  intro depth rest hdepth
  have hcut : ¬(c = sep ∧ depth = 0) := fun ⟨hc, hd⟩ ↦ by
    have := hsep hc
    omega
  rw [List.singleton_append, splitFrom_keep hopen hclose hcut, funext (prepend_singleton c)]

theorem passes_of_forall {c : Char} {cs : List Char} (hc : Passes sep floor [c])
    (hcs : ∀ d ∈ cs, Passes sep floor [d]) : Passes sep floor (c :: cs) := by
  induction cs generalizing c with
  | nil => exact hc
  | cons d cs ih =>
    exact Passes.append hc (ih (hcs d (by simp)) fun e he ↦ hcs e (by simp [he]))

/-- Brackets lower the depth from which a text passes. -/
theorem Passes.bracketed (h : Passes sep (floor + 1) cs) :
    Passes sep floor ('<' :: (cs ++ ['>'])) := by
  intro depth rest hdepth
  rw [List.cons_append, splitFrom_open, List.append_assoc, h _ _ (by omega),
    List.singleton_append, splitFrom_close, Option.map_map, Option.map_map]
  congr 1
  funext parts
  cases parts <;> simp [consHead, prepend]

/-- A text that passes is a part of its own. -/
theorem splitFrom_self (h : Passes sep 0 cs) : splitFrom sep 0 cs = some [cs] := by
  have hall := h 0 [] (Nat.le_refl 0)
  rw [List.append_nil] at hall
  rw [hall, splitFrom, if_pos rfl]
  simp [prepend]

/-! ## Texts without blanks at their ends -/

/-- A text that begins and ends with something other than a blank. -/
structure IsTight (cs : List Char) : Prop where
  starts : ∃ c rest, cs = c :: rest ∧ Text.isBlank c = false
  ends : ∃ rest c, cs = rest ++ [c] ∧ Text.isBlank c = false

namespace IsTight

theorem trim (h : IsTight cs) : Text.trimChars cs = cs := by
  obtain ⟨c, rest, hstart, hc⟩ := h.starts
  obtain ⟨front, d, hend, hd⟩ := h.ends
  have hleft : Text.trimLeft cs = cs := by
    rw [hstart, Text.trimLeft, List.dropWhile_cons, hc]
    rfl
  have hright : Text.trimLeft cs.reverse = cs.reverse := by
    rw [hend, List.reverse_append, List.reverse_singleton, List.singleton_append, Text.trimLeft,
      List.dropWhile_cons, hd]
    rfl
  rw [Text.trimChars, hleft, hright, List.reverse_reverse]

theorem trim_space (h : IsTight cs) : Text.trimChars (' ' :: cs) = cs := by
  have hskip : Text.trimLeft (' ' :: cs) = Text.trimLeft cs := rfl
  rw [Text.trimChars, hskip]
  exact h.trim

theorem isEmpty (h : IsTight cs) : cs.isEmpty = false := by
  obtain ⟨c, rest, rfl, -⟩ := h.starts
  rfl

theorem cons {c : Char} (hc : Text.isBlank c = false) (h : IsTight cs) : IsTight (c :: cs) := by
  obtain ⟨front, d, rfl, hd⟩ := h.ends
  exact ⟨⟨c, _, rfl, hc⟩, ⟨c :: front, d, rfl, hd⟩⟩

theorem join {a b : List Char} (ha : IsTight a) (hb : IsTight b) (middle : List Char) :
    IsTight (a ++ (middle ++ b)) := by
  obtain ⟨c, rest, rfl, hc⟩ := ha.starts
  obtain ⟨front, d, rfl, hd⟩ := hb.ends
  exact ⟨⟨c, _, rfl, hc⟩, ⟨c :: rest ++ (middle ++ front), d, by simp, hd⟩⟩

end IsTight

/-! ## Names -/

/-- A character of a name. -/
def isNameChar (c : Char) : Bool := isNameRest c || c == '\\' || c == ':'

theorem isBlank_of_isNameChar {c : Char} (h : isNameChar c = true) : Text.isBlank c = false := by
  have hrange : c.toNat ≤ 122 ∧ 48 ≤ c.toNat := by
    have hname : isNameChar c = (decide (65 ≤ c.val ∧ c.val ≤ 90) ||
        decide (97 ≤ c.val) && decide (c.val ≤ 122) || c.isDigit || c == '_' || c == '\\' ||
          c == ':') := rfl
    simp only [hname, Char.isDigit, Bool.or_eq_true, Bool.and_eq_true, decide_eq_true_eq,
      beq_iff_eq, UInt32.le_iff_toNat_le, ge_iff_le] at h
    simp only [Char.toNat]
    rcases h with ((((h | h) | h) | rfl) | rfl) | rfl
    · exact ⟨Nat.le_trans h.2 (by decide), Nat.le_trans (by decide) h.1⟩
    · exact ⟨Nat.le_trans h.2 (by decide), Nat.le_trans (by decide) h.1⟩
    · exact ⟨Nat.le_trans h.2 (by decide), Nat.le_trans (by decide) h.1⟩
    · decide
    · decide
    · decide
  simp only [Text.isBlank, Bool.or_eq_false_iff, Bool.and_eq_false_iff, decide_eq_false_iff_not,
    beq_eq_false_iff_ne]
  omega

theorem isNameChar_of_completesName {state : NameState} {cs : List Char}
    (h : completesName state cs = true) : ∀ c ∈ cs, isNameChar c = true := by
  induction cs generalizing state with
  | nil => simp
  | cons d cs ih =>
    have hstep : isNameChar d = true ∧ ∃ next, completesName next cs = true := by
      cases state with
      | start =>
        simp only [completesName, isNameStart, Bool.and_eq_true, Bool.or_eq_true] at h
        refine ⟨?_, .inside, h.2⟩
        rcases h.1 with h | h <;> simp [isNameChar, isNameRest, Char.isAlphanum, h]
      | colon =>
        simp only [completesName, Bool.and_eq_true] at h
        exact ⟨by simp [isNameChar, h.1], .start, h.2⟩
      | inside =>
        rw [completesName] at h
        split at h
        · next hrest => exact ⟨by simp [isNameChar, hrest], .inside, h⟩
        · split at h
          · next hslash => exact ⟨by simp [isNameChar, hslash], .start, h⟩
          · rw [Bool.and_eq_true] at h
            exact ⟨by simp [isNameChar, h.1], .colon, h.2⟩
    obtain ⟨hd, next, hnext⟩ := hstep
    intro c hc
    rcases List.mem_cons.mp hc with rfl | hc
    · exact hd
    · exact ih hnext c hc

theorem isNameChar_of_isName (h : isName cs = true) : ∀ c ∈ cs, isNameChar c = true := by
  unfold isName at h
  split at h
  · intro c hc
    rcases List.mem_cons.mp hc with rfl | hc
    · rfl
    · exact isNameChar_of_completesName h c hc
  · exact isNameChar_of_completesName h

theorem ne_nil_of_isName (h : isName cs = true) : cs ≠ [] := by
  rintro rfl
  cases h

end TypedJson.TypeText
