import Mathlib.Data.List.Forall2
import Mathlib.Tactic.Common
import TypedJson.Proofs.DataType.Splitting

/-!
# The parts of a type string

A split at a separator answers parts in which brackets match and which the separator does not cut
again, so the parts of a joined text are the texts that were joined. Blanks at the ends of a text
end up at the ends of its first and last part; once parts are trimmed, they do not show.
-/

namespace TypedJson

/-! ## Blanks -/

namespace Text

variable {blanks : List Char}

theorem trimLeft_append (h : ∀ c ∈ blanks, isBlank c = true) (cs : List Char) :
    trimLeft (blanks ++ cs) = trimLeft cs :=
  List.dropWhile_append_of_pos h

theorem trimLeft_of_blank (h : ∀ c ∈ blanks, isBlank c = true) : trimLeft blanks = [] := by
  rw [← List.append_nil blanks, trimLeft_append h]
  rfl

theorem trimChars_append_left (h : ∀ c ∈ blanks, isBlank c = true) (cs : List Char) :
    trimChars (blanks ++ cs) = trimChars cs := by
  rw [trimChars, trimLeft_append h, trimChars]

theorem trimChars_append_right (h : ∀ c ∈ blanks, isBlank c = true) (cs : List Char) :
    trimChars (cs ++ blanks) = trimChars cs := by
  have happend : trimLeft (cs ++ blanks) =
      if (trimLeft cs).isEmpty then trimLeft blanks else trimLeft cs ++ blanks :=
    List.dropWhile_append
  have hreverse : ∀ c ∈ blanks.reverse, isBlank c = true := by simpa using h
  rw [trimChars, trimChars, happend]
  split
  · next hblank => rw [trimLeft_of_blank h, List.isEmpty_iff.mp hblank]
  · rw [List.reverse_append, trimLeft_append hreverse]

/-- What trimming takes away are blanks in front and behind. -/
theorem exists_eq_trimChars (cs : List Char) :
    ∃ front back, (∀ c ∈ front, isBlank c = true) ∧ (∀ c ∈ back, isBlank c = true) ∧
      cs = front ++ (trimChars cs ++ back) := by
  have hsplit (cs : List Char) : cs.takeWhile isBlank ++ trimLeft cs = cs :=
    List.takeWhile_append_dropWhile
  have htake (cs : List Char) : ∀ c ∈ cs.takeWhile isBlank, isBlank c = true :=
    List.all_eq_true.mp List.all_takeWhile
  refine ⟨cs.takeWhile isBlank, ((trimLeft cs).reverse.takeWhile isBlank).reverse, htake cs, ?_, ?_⟩
  · simpa using htake (trimLeft cs).reverse
  · rw [trimChars, ← List.reverse_append, hsplit, List.reverse_reverse, hsplit]

theorem length_trimChars_le (cs : List Char) : (trimChars cs).length ≤ cs.length := by
  obtain ⟨front, back, -, -, hcs⟩ := exists_eq_trimChars cs
  have hlen := congrArg List.length hcs
  simp only [List.length_append] at hlen
  omega

end Text

namespace TypeText

variable {sep : Char} {depth : Nat} {cs : List Char} {parts : List (List Char)}

/-! ## Parts -/

/-- A text that a split at `sep` takes over whole when `depth` brackets are open in front of it.
It closes these brackets and all that it opens. -/
inductive IsPart (sep : Char) : Nat → List Char → Prop
  | nil : IsPart sep 0 []
  | opened {depth : Nat} {cs : List Char} :
    IsPart sep (depth + 1) cs → IsPart sep depth ('<' :: cs)
  | closed {depth : Nat} {cs : List Char} :
    IsPart sep depth cs → IsPart sep (depth + 1) ('>' :: cs)
  | kept {c : Char} {depth : Nat} {cs : List Char} : c ≠ '<' → c ≠ '>' →
    ¬(c = sep ∧ depth = 0) → IsPart sep depth cs → IsPart sep depth (c :: cs)

namespace IsPart

variable {blanks : List Char}

theorem splitFrom_self (h : IsPart sep depth cs) : splitFrom sep depth cs = some [cs] := by
  induction h with
  | nil => rfl
  | opened _ ih =>
    rw [splitFrom_open, ih]
    rfl
  | closed _ ih =>
    rw [splitFrom_close, ih]
    rfl
  | kept hc hc' hcut _ ih =>
    rw [splitFrom_keep hc hc' hcut, ih]
    rfl

theorem splitFrom_sep (h : IsPart sep depth cs) (hopen : sep ≠ '<') (hclose : sep ≠ '>')
    (rest : List Char) :
    splitFrom sep depth (cs ++ sep :: rest) = (splitFrom sep 0 rest).map (cs :: ·) := by
  induction h with
  | nil => exact splitFrom_cut hopen hclose rest
  | opened _ ih =>
    rw [List.cons_append, splitFrom_open, ih, Option.map_map]
    rfl
  | closed _ ih =>
    rw [List.cons_append, splitFrom_close, ih, Option.map_map]
    rfl
  | kept hc hc' hcut _ ih =>
    rw [List.cons_append, splitFrom_keep hc hc' hcut, ih, Option.map_map]
    rfl

/-- Blanks are a part. -/
theorem of_blank (hblanks : ∀ c ∈ blanks, Text.isBlank c = true)
    (hsep : Text.isBlank sep = false) : IsPart sep 0 blanks := by
  induction blanks with
  | nil => exact .nil
  | cons c blanks ih =>
    obtain ⟨hc, hblanks⟩ := List.forall_mem_cons.mp hblanks
    have hne : ∀ d, Text.isBlank d = false → c ≠ d := by
      rintro d hd rfl
      rw [hd] at hc
      cases hc
    exact .kept (hne '<' rfl) (hne '>' rfl) (fun h ↦ hne sep hsep h.1) (ih hblanks)

theorem append {other : List Char} (h : IsPart sep depth cs) (hother : IsPart sep 0 other) :
    IsPart sep depth (cs ++ other) := by
  induction h with
  | nil => exact hother
  | opened _ ih => exact .opened ih
  | closed _ ih => exact .closed ih
  | kept hc hc' hcut _ ih => exact .kept hc hc' hcut ih

theorem of_append_left (hblanks : ∀ c ∈ blanks, Text.isBlank c = true)
    (h : IsPart sep depth (blanks ++ cs)) : IsPart sep depth cs := by
  induction blanks with
  | nil => exact h
  | cons c blanks ih =>
    obtain ⟨hc, hblanks⟩ := List.forall_mem_cons.mp hblanks
    cases h with
    | opened | closed => cases hc
    | kept _ _ _ h => exact ih hblanks h

theorem of_append_right (hblanks : ∀ c ∈ blanks, Text.isBlank c = true)
    (h : IsPart sep depth (cs ++ blanks)) : IsPart sep depth cs := by
  induction cs generalizing depth with
  | nil => exact of_append_left hblanks (by simpa using h)
  | cons c cs ih =>
    cases h with
    | opened h => exact .opened (ih h)
    | closed h => exact .closed (ih h)
    | kept hc hc' hcut h => exact .kept hc hc' hcut (ih h)

theorem trimChars (h : IsPart sep depth cs) : IsPart sep depth (Text.trimChars cs) := by
  obtain ⟨front, back, hfront, hback, hcs⟩ := Text.exists_eq_trimChars cs
  rw [hcs] at h
  exact of_append_right hback (of_append_left hfront h)

end IsPart

/-! ## Splits -/

/-- A split answers parts, and joining them with the separator gives the text back. -/
theorem splitFrom_eq_some (h : splitFrom sep depth cs = some parts) :
    ∃ first others, parts = first :: others ∧ IsPart sep depth first ∧
      (∀ part ∈ others, IsPart sep 0 part) ∧ cs = [sep].intercalate (first :: others) := by
  induction cs generalizing depth parts with
  | nil =>
    rw [splitFrom] at h
    split at h
    · next hdepth =>
      cases h
      exact ⟨[], [], rfl, hdepth ▸ .nil, by simp, rfl⟩
    · cases h
  | cons c cs ih =>
    -- But for a cut, the character is put in front of the first part of the rest.
    have hkeep {d : Nat} (h : (splitFrom sep d cs).map (consHead c) = some parts)
        (hpart : ∀ first, IsPart sep d first → IsPart sep depth (c :: first)) :
        ∃ first others, parts = first :: others ∧ IsPart sep depth first ∧
          (∀ part ∈ others, IsPart sep 0 part) ∧
            c :: cs = [sep].intercalate (first :: others) := by
      obtain ⟨parts, hparts, rfl⟩ := Option.map_eq_some_iff.mp h
      obtain ⟨first, others, rfl, hfirst, hothers, rfl⟩ := ih hparts
      refine ⟨c :: first, others, rfl, hpart first hfirst, hothers, ?_⟩
      cases others <;> rfl
    rw [splitFrom.eq_def] at h
    simp only at h
    split at h
    · next hc => exact hkeep h fun _ hfirst ↦ hc ▸ .opened hfirst
    next hc =>
    split at h
    · next hc' =>
      split at h
      · cases h
      · exact hkeep h fun _ hfirst ↦ hc' ▸ .closed hfirst
    next hc' =>
    split at h
    · next hcut =>
      obtain ⟨rfl, rfl⟩ := hcut
      obtain ⟨parts, hparts, rfl⟩ := Option.map_eq_some_iff.mp h
      obtain ⟨first, others, rfl, hfirst, hothers, rfl⟩ := ih hparts
      exact ⟨[], first :: others, rfl, .nil, List.forall_mem_cons.mpr ⟨hfirst, hothers⟩, rfl⟩
    next hcut => exact hkeep h fun _ hfirst ↦ .kept hc hc' hcut hfirst

theorem splitTop_eq_ok : splitTop sep cs = .ok parts ↔ splitFrom sep 0 cs = some parts := by
  unfold splitTop
  split
  · next h => simp [h]
  · next h => simp [h]

theorem Passes.isPart (h : Passes sep 0 cs) : IsPart sep 0 cs := by
  obtain ⟨first, others, heq, hfirst, -, -⟩ := splitFrom_eq_some (splitFrom_self h)
  rwa [(List.cons.inj heq).1]

/-- Joined parts are found again. -/
theorem splitFrom_join {first : List Char} {others : List (List Char)} (hopen : sep ≠ '<')
    (hclose : sep ≠ '>') (hfirst : IsPart sep depth first)
    (hothers : ∀ part ∈ others, IsPart sep 0 part) :
    splitFrom sep depth ([sep].intercalate (first :: others)) = some (first :: others) := by
  induction others generalizing depth first with
  | nil => simpa using hfirst.splitFrom_self
  | cons next others ih =>
    obtain ⟨hnext, hothers⟩ := List.forall_mem_cons.mp hothers
    rw [List.intercalate_cons_cons, List.append_assoc, List.singleton_append,
      hfirst.splitFrom_sep hopen hclose, ih hnext hothers]
    rfl

/-- Padding behind the separators can be counted to the parts. -/
theorem intercalate_padded (sep : Char) (pad first : List Char) (others : List (List Char)) :
    (sep :: pad).intercalate (first :: others) =
      [sep].intercalate (first :: others.map (pad ++ ·)) := by
  induction others generalizing first with
  | nil => rfl
  | cons next others ih =>
    have hpad : pad ++ [sep].intercalate (next :: others.map (pad ++ ·)) =
        [sep].intercalate ((pad ++ next) :: others.map (pad ++ ·)) := by
      cases others <;> simp [List.intercalate_cons_cons]
    rw [List.map_cons, List.intercalate_cons_cons, List.intercalate_cons_cons, ih, ← hpad]
    simp

section Blanks

variable {blanks : List Char} (hblanks : ∀ c ∈ blanks, Text.isBlank c = true)
  (hsep : Text.isBlank sep = false) (hopen : sep ≠ '<') (hclose : sep ≠ '>')

include hblanks hsep hopen hclose

theorem splitFrom_blank_append (h : splitFrom sep 0 cs = some parts) :
    ∃ others, splitFrom sep 0 (blanks ++ cs) = some others ∧
      others.map Text.trimChars = parts.map Text.trimChars := by
  obtain ⟨first, others, rfl, hfirst, hothers, rfl⟩ := splitFrom_eq_some h
  have hjoin : blanks ++ [sep].intercalate (first :: others) =
      [sep].intercalate ((blanks ++ first) :: others) := by
    cases others <;> simp [List.intercalate_cons_cons]
  have hpart : IsPart sep 0 (blanks ++ first) := (IsPart.of_blank hblanks hsep).append hfirst
  refine ⟨(blanks ++ first) :: others, ?_, ?_⟩
  · rw [hjoin, splitFrom_join hopen hclose hpart hothers]
  · rw [List.map_cons, List.map_cons, Text.trimChars_append_left hblanks]

theorem splitFrom_append_blank (h : splitFrom sep depth cs = some parts) :
    ∃ others, splitFrom sep depth (cs ++ blanks) = some others ∧
      others.map Text.trimChars = parts.map Text.trimChars := by
  obtain ⟨first, others, rfl, hfirst, hothers, rfl⟩ := splitFrom_eq_some h
  clear h
  induction others generalizing depth first with
  | nil =>
    refine ⟨[first ++ blanks], ?_, ?_⟩
    · simpa using (hfirst.append (IsPart.of_blank hblanks hsep)).splitFrom_self
    · rw [List.map_singleton, List.map_singleton, Text.trimChars_append_right hblanks]
  | cons next others ih =>
    obtain ⟨hnext, hothers⟩ := List.forall_mem_cons.mp hothers
    obtain ⟨rest, hrest, htrim⟩ := ih next hnext hothers
    refine ⟨first :: rest, ?_, congrArg (Text.trimChars first :: ·) htrim⟩
    rw [List.intercalate_cons_cons, List.append_assoc, List.append_assoc, List.singleton_append,
      hfirst.splitFrom_sep hopen hclose, hrest]
    rfl

end Blanks

/-- A text is split like the trimmed text, up to blanks around the parts. -/
theorem splitFrom_of_trimChars (hsep : Text.isBlank sep = false) (hopen : sep ≠ '<')
    (hclose : sep ≠ '>') (h : splitFrom sep 0 (Text.trimChars cs) = some parts) :
    ∃ others, splitFrom sep 0 cs = some others ∧
      others.map Text.trimChars = parts.map Text.trimChars := by
  obtain ⟨front, back, hfront, hback, hcs⟩ := Text.exists_eq_trimChars cs
  obtain ⟨mid, hmid, htrim⟩ := splitFrom_append_blank hback hsep hopen hclose h
  obtain ⟨others, hothers, htrim'⟩ := splitFrom_blank_append hfront hsep hopen hclose hmid
  exact ⟨others, hcs ▸ hothers, htrim'.trans htrim⟩

end TypeText

end TypedJson
