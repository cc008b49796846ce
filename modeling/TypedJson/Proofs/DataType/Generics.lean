import TypedJson.Proofs.DataType.Parts

/-!
# Type applications

A type string is *plain*, without any brackets, or it is an *application*: a base and, in brackets
that end the text, one or more parameters between commas. `extractGenerics` answers the trimmed
parts of exactly these texts (`extractGenerics_eq_ok_iff`). It finds the parameters by counting the
brackets that are open; that the count is right is the equivalence of `IsPart`, which follows the
count, and `IsBalanced`, which follows the brackets.

Nothing looks at what stands in front of the first `<`, so a `>` there is taken for a part of the
base. Without such a `>`, all texts whose brackets do not match are refused.
-/

namespace TypedJson.TypeText

/-! ## Balanced texts -/

/-- A text in which brackets match and all characters outside of them are `free`. -/
inductive IsBalanced : (free : Char → Prop) → List Char → Prop
  | nil {free : Char → Prop} : IsBalanced free []
  | char {free : Char → Prop} {c : Char} {cs : List Char} : c ≠ '<' → c ≠ '>' → free c →
    IsBalanced free cs → IsBalanced free (c :: cs)
  | brackets {free : Char → Prop} {inner cs : List Char} : IsBalanced (fun _ ↦ True) inner →
    IsBalanced free cs → IsBalanced free ('<' :: (inner ++ '>' :: cs))

variable {free : Char → Prop} {sep : Char} {depth : Nat} {cs : List Char}

namespace IsBalanced

theorem mono {other : Char → Prop} (h : IsBalanced free cs) (hfree : ∀ c, free c → other c) :
    IsBalanced other cs := by
  induction h with
  | nil => exact .nil
  | char hopen hclose hc _ ih => exact .char hopen hclose (hfree _ hc) (ih hfree)
  | brackets hinner _ _ ih => exact .brackets hinner (ih hfree)

theorem append {other : List Char} (h : IsBalanced free cs) (hother : IsBalanced free other) :
    IsBalanced free (cs ++ other) := by
  induction h with
  | nil => exact hother
  | char hopen hclose hc _ ih => exact .char hopen hclose hc (ih hother)
  | brackets hinner _ _ ih =>
    rw [List.cons_append, List.append_assoc, List.cons_append]
    exact .brackets hinner (ih hother)

theorem of_not_mem (hopen : '<' ∉ cs) (hclose : '>' ∉ cs) : IsBalanced (fun _ ↦ True) cs := by
  induction cs with
  | nil => exact .nil
  | cons c cs ih =>
    rw [List.mem_cons, not_or] at hopen hclose
    exact .char (Ne.symm hopen.1) (Ne.symm hclose.1) trivial (ih hopen.2 hclose.2)

theorem intercalate {first : List Char} {others : List (List Char)} {sep : List Char}
    (hsep : IsBalanced free sep) (hfirst : IsBalanced free first)
    (hothers : ∀ part ∈ others, IsBalanced free part) :
    IsBalanced free (sep.intercalate (first :: others)) := by
  induction others generalizing first with
  | nil => simpa using hfirst
  | cons next others ih =>
    obtain ⟨hnext, hothers⟩ := List.forall_mem_cons.mp hothers
    rw [List.intercalate_cons_cons]
    exact (hfirst.append hsep).append (ih hnext hothers)

/-- As many brackets are opened as closed. -/
theorem count_eq (h : IsBalanced free cs) : cs.count '<' = cs.count '>' := by
  induction h with
  | nil => rfl
  | char hopen hclose _ _ ih => rw [List.count_cons_of_ne hopen, List.count_cons_of_ne hclose, ih]
  | brackets _ _ hinner hcs => simp [List.count_append, hinner, hcs, Nat.add_assoc]

/-- No start of the text closes more brackets than it opens. -/
theorem count_take_le (h : IsBalanced free cs) (n : Nat) :
    (cs.take n).count '>' ≤ (cs.take n).count '<' := by
  induction h generalizing n with
  | nil => simp
  | char hopen hclose _ _ ih =>
    cases n with
    | zero => simp
    | succ n =>
      rw [List.take_succ_cons, List.count_cons_of_ne hopen, List.count_cons_of_ne hclose]
      exact ih n
  | @brackets _ inner cs hinner _ ihInner ih =>
    cases n with
    | zero => simp
    | succ n =>
      rw [List.take_succ_cons, List.take_append]
      -- The start ends inside the brackets or has both of them.
      cases hn : n - inner.length with
      | zero =>
        have hle := ihInner n
        simp
        omega
      | succ m =>
        have hwhole : inner.take n = inner := List.take_of_length_le (by omega)
        have hcount := hinner.count_eq
        have hle := ih m
        simp [hwhole, List.count_append]
        omega

end IsBalanced

/-! ## Counting open brackets -/

/-- Texts that close `depth` brackets, one after another, with balanced texts in between. -/
def Closes (sep : Char) : (depth : Nat) → List Char → Prop
  | 0, cs => IsBalanced (· ≠ sep) cs
  | depth + 1, cs => ∃ inner rest, cs = inner ++ '>' :: rest ∧
    IsBalanced (fun _ ↦ True) inner ∧ Closes sep depth rest

theorem Closes.brackets {inner : List Char} (h : Closes sep depth cs)
    (hinner : IsBalanced (fun _ ↦ True) inner) :
    Closes sep depth ('<' :: (inner ++ '>' :: cs)) := by
  cases depth with
  | zero => exact .brackets hinner h
  | succ depth =>
    obtain ⟨between, rest, rfl, hbetween, hrest⟩ := h
    exact ⟨'<' :: (inner ++ '>' :: between), rest, by simp, .brackets hinner hbetween, hrest⟩

theorem Closes.char {c : Char} (h : Closes sep depth cs) (hopen : c ≠ '<') (hclose : c ≠ '>')
    (hcut : ¬(c = sep ∧ depth = 0)) : Closes sep depth (c :: cs) := by
  cases depth with
  | zero => exact .char hopen hclose (fun hc ↦ hcut ⟨hc, rfl⟩) h
  | succ depth =>
    obtain ⟨between, rest, rfl, hbetween, hrest⟩ := h
    exact ⟨c :: between, rest, rfl, .char hopen hclose trivial hbetween, hrest⟩

theorem IsPart.closes (h : IsPart sep depth cs) : Closes sep depth cs := by
  induction h with
  | nil => exact .nil
  | opened _ ih =>
    obtain ⟨inner, rest, rfl, hinner, hrest⟩ := ih
    exact hrest.brackets hinner
  | closed _ ih => exact ⟨[], _, rfl, .nil, ih⟩
  | kept hopen hclose hcut _ ih => exact ih.char hopen hclose hcut

/-- Where all free characters are kept, a balanced text may stand in front of every part. -/
theorem IsBalanced.isPart_append {rest : List Char} (h : IsBalanced free cs)
    (hfree : ∀ c, free c → ¬(c = sep ∧ depth = 0)) (hrest : IsPart sep depth rest) :
    IsPart sep depth (cs ++ rest) := by
  induction h generalizing depth rest with
  | nil => exact hrest
  | char hopen hclose hc _ ih => exact .kept hopen hclose (hfree _ hc) (ih hfree hrest)
  | @brackets _ inner cs _ _ ihInner ih =>
    rw [List.cons_append, List.append_assoc, List.cons_append]
    refine .opened (ihInner (fun c _ hc ↦ ?_) (.closed (ih hfree hrest)))
    exact Nat.succ_ne_zero depth hc.2

/-- The parts of a split are the balanced texts without a separator outside brackets. -/
theorem isPart_iff_isBalanced : IsPart sep 0 cs ↔ IsBalanced (· ≠ sep) cs := by
  constructor
  · exact IsPart.closes
  · intro h
    have hpart : IsPart sep 0 (cs ++ []) := h.isPart_append (fun c hc hcut ↦ hc hcut.1) .nil
    rwa [List.append_nil] at hpart

/-! ## Plain texts and applications -/

/-- A base that has no bracket. -/
def IsBare (base : List Char) : Prop := '<' ∉ base ∧ '>' ∉ base

/-- What a text is made of, if its base fulfils a condition: it is plain and its own base, or its
base has parameters, which are full, balanced, and without a comma outside of brackets. -/
inductive IsApplied (isBase : List Char → Prop) :
    List Char → List Char × List (List Char) → Prop
  | plain {cs : List Char} : '<' ∉ cs → '>' ∉ cs → IsApplied isBase cs (cs, [])
  | params {base : List Char} {parts : List (List Char)} : isBase base → parts ≠ [] →
    (∀ part ∈ parts, IsBalanced (· ≠ ',') part ∧ Text.trimChars part ≠ []) →
    IsApplied isBase (base ++ '<' :: ([','].intercalate parts ++ ['>']))
      (Text.trimChars base, parts.map Text.trimChars)

/-- Some bracket has no partner: a start of the text closes more than it opens, or the whole does
not close all that it opens. -/
def IsUnbalanced (cs : List Char) : Prop :=
  (∃ n, (cs.take n).count '<' < (cs.take n).count '>') ∨ cs.count '<' ≠ cs.count '>'

theorem IsBalanced.not_isUnbalanced (h : IsBalanced free cs) : ¬ IsUnbalanced cs := by
  rintro (⟨n, hn⟩ | hcount)
  · exact Nat.not_lt_of_le (h.count_take_le n) hn
  · exact hcount h.count_eq

namespace IsApplied

variable {isBase : List Char → Prop} {input : List Char} {result : List Char × List (List Char)}

theorem isBalanced (h : IsApplied IsBare input result) :
    IsBalanced (fun _ ↦ True) input := by
  cases h with
  | plain hopen hclose => exact .of_not_mem hopen hclose
  | @params base parts hbase hne hparts =>
    obtain ⟨first, others, rfl⟩ := List.exists_cons_of_ne_nil hne
    have hpart : ∀ part ∈ first :: others, IsBalanced (fun _ ↦ True) part := fun part hpart ↦
      (hparts part hpart).1.mono fun _ _ ↦ trivial
    obtain ⟨hfirst, hothers⟩ := List.forall_mem_cons.mp hpart
    have hcomma : IsBalanced (fun _ ↦ True) [','] := .of_not_mem (by decide) (by decide)
    exact (IsBalanced.of_not_mem hbase.1 hbase.2).append
      (.brackets (hcomma.intercalate hfirst hothers) .nil)

theorem mono {isOther : List Char → Prop} (h : IsApplied isBase input result)
    (hbase : ∀ base rest, input = base ++ '<' :: rest → isBase base → isOther base) :
    IsApplied isOther input result := by
  cases h with
  | plain hopen hclose => exact .plain hopen hclose
  | params his hne hparts => exact .params (hbase _ _ rfl his) hne hparts

end IsApplied

/-- No `>` stands in front of the first `<`. -/
def OpensFirst (cs : List Char) : Prop := '<' ∈ cs → '>' ∉ cs.takeWhile (· ≠ '<')

instance (cs : List Char) : Decidable (OpensFirst cs) :=
  inferInstanceAs (Decidable ('<' ∈ cs → '>' ∉ cs.takeWhile (· ≠ '<')))

/-! ## Taking texts apart -/

section

variable {text base inner : List Char} {parts : List (List Char)}
  {result : List Char × List (List Char)}

theorem ne_open_of_not_mem (hbase : '<' ∉ base) : ∀ c ∈ base, decide (c ≠ '<') = true :=
  fun _ hc ↦ decide_eq_true fun heq ↦ hbase (heq ▸ hc)

theorem extractGenerics_of_not_mem (h : '<' ∉ Text.trimChars text) :
    extractGenerics text =
      if '>' ∈ Text.trimChars text then .error (unbalanced (Text.trimChars text))
      else .ok (Text.trimChars text, []) := by
  have hdrop : (Text.trimChars text).dropWhile (· ≠ '<') = [] := by
    have happ : (Text.trimChars text ++ []).dropWhile (· ≠ '<') = [].dropWhile (· ≠ '<') :=
      List.dropWhile_append_of_pos (ne_open_of_not_mem h)
    rwa [List.append_nil] at happ
  simp only [extractGenerics, hdrop, List.contains_iff_mem]

theorem dropWhile_base (hbase : '<' ∉ base) :
    (base ++ '<' :: inner).dropWhile (· ≠ '<') = '<' :: inner := by
  rw [List.dropWhile_append_of_pos (ne_open_of_not_mem hbase)]
  rfl

theorem takeWhile_base (hbase : '<' ∉ base) :
    (base ++ '<' :: inner).takeWhile (· ≠ '<') = base := by
  rw [List.takeWhile_append_of_pos (ne_open_of_not_mem hbase), List.takeWhile_cons]
  simp

theorem opensFirst_base_iff (hbase : '<' ∉ base) :
    OpensFirst (base ++ '<' :: inner) ↔ '>' ∉ base := by
  rw [OpensFirst, takeWhile_base hbase]
  simp

theorem extractGenerics_of_trailing (h : Text.trimChars text = base ++ '<' :: inner)
    (hbase : '<' ∉ base) (hlast : (base ++ '<' :: inner).getLast? ≠ some '>') :
    extractGenerics text =
      .error (invalid (Text.trimChars text) "unexpected characters after generic parameters") := by
  simp only [extractGenerics, h, dropWhile_base hbase, if_pos hlast]

theorem getLast?_bracketed (base inner : List Char) :
    (base ++ '<' :: (inner ++ ['>'])).getLast? = some '>' := by
  rw [← List.cons_append, ← List.append_assoc, List.getLast?_concat]

theorem exists_of_getLast? (h : (base ++ '<' :: inner).getLast? = some '>') :
    ∃ middle, inner = middle ++ ['>'] := by
  rcases List.eq_nil_or_concat inner with rfl | ⟨middle, c, rfl⟩
  · simp at h
  · rw [List.concat_eq_append, ← List.cons_append, ← List.append_assoc, List.getLast?_concat] at h
    exact ⟨middle, by rw [List.concat_eq_append, Option.some.inj h]⟩

theorem extractGenerics_of_splitFrom_none
    (h : Text.trimChars text = base ++ '<' :: (inner ++ ['>'])) (hbase : '<' ∉ base)
    (hsplit : splitFrom ',' 0 inner = none) :
    extractGenerics text = .error (unbalanced (Text.trimChars text)) := by
  simp only [extractGenerics, h, dropWhile_base hbase, getLast?_bracketed, List.dropLast_concat,
    hsplit, ne_eq, not_true_eq_false, if_false]

theorem extractGenerics_of_splitFrom (h : Text.trimChars text = base ++ '<' :: (inner ++ ['>']))
    (hbase : '<' ∉ base) (hsplit : splitFrom ',' 0 inner = some parts) :
    extractGenerics text =
      if [] ∈ parts.map Text.trimChars then
        .error (invalid (Text.trimChars text) "empty generic parameter")
      else .ok (Text.trimChars base, parts.map Text.trimChars) := by
  have hempty : (parts.map Text.trimChars).any List.isEmpty = true ↔
      [] ∈ parts.map Text.trimChars := by simp
  simp only [extractGenerics, h, dropWhile_base hbase, takeWhile_base hbase, getLast?_bracketed,
    List.dropLast_concat, hsplit, hempty, ne_eq, not_true_eq_false, if_false]

theorem extractGenerics_of_isApplied (h : IsApplied ('<' ∉ ·) (Text.trimChars text) result) :
    extractGenerics text = .ok result := by
  generalize hinput : Text.trimChars text = input at h
  cases h with
  | plain hopen hclose =>
    subst hinput
    rw [extractGenerics_of_not_mem hopen, if_neg hclose]
  | @params base parts hbase hparts hfull =>
    obtain ⟨first, others, rfl⟩ := List.exists_cons_of_ne_nil hparts
    have hpart : ∀ part ∈ first :: others, IsPart ',' 0 part := fun part hpart ↦
      isPart_iff_isBalanced.mpr (hfull part hpart).1
    obtain ⟨hfirst, hothers⟩ := List.forall_mem_cons.mp hpart
    have hempty : [] ∉ (first :: others).map Text.trimChars := by
      intro hmem
      obtain ⟨part, hpart, htrim⟩ := List.mem_map.mp hmem
      exact (hfull part hpart).2 htrim
    rw [extractGenerics_of_splitFrom hinput hbase
      (splitFrom_join (by decide) (by decide) hfirst hothers), if_neg hempty]

/-- Whatever is refused is refused as an invalid type, and whatever is answered was there. -/
theorem extractGenerics_cases (text : List Char) :
    (∃ reason, extractGenerics text = .error (invalid (Text.trimChars text) reason)) ∨
      ∃ result, extractGenerics text = .ok result ∧
        IsApplied ('<' ∉ ·) (Text.trimChars text) result := by
  by_cases hopen : '<' ∈ Text.trimChars text
  · obtain ⟨base, behind, hinput, hbase⟩ := List.eq_append_cons_of_mem hopen
    by_cases hlast : (base ++ '<' :: behind).getLast? = some '>'
    · obtain ⟨inner, rfl⟩ := exists_of_getLast? hlast
      cases hsplit : splitFrom ',' 0 inner with
      | none => exact .inl ⟨_, extractGenerics_of_splitFrom_none hinput hbase hsplit⟩
      | some parts =>
        rw [extractGenerics_of_splitFrom hinput hbase hsplit]
        by_cases hempty : [] ∈ parts.map Text.trimChars
        · exact .inl ⟨_, if_pos hempty⟩
        · refine .inr ⟨_, if_neg hempty, ?_⟩
          obtain ⟨first, others, rfl, hfirst, hothers, rfl⟩ := splitFrom_eq_some hsplit
          have hpart := List.forall_mem_cons.mpr ⟨hfirst, hothers⟩
          rw [hinput]
          refine .params hbase (List.cons_ne_nil _ _) fun part hmem ↦ ⟨?_, fun htrim ↦ hempty ?_⟩
          · exact isPart_iff_isBalanced.mp (hpart part hmem)
          · exact List.mem_map.mpr ⟨part, hmem, htrim⟩
    · exact .inl ⟨_, extractGenerics_of_trailing hinput hbase hlast⟩
  · rw [extractGenerics_of_not_mem hopen]
    by_cases hclose : '>' ∈ Text.trimChars text
    · exact .inl ⟨_, if_pos hclose⟩
    · exact .inr ⟨_, if_neg hclose, .plain hopen hclose⟩

theorem extractGenerics_eq_ok_iff :
    extractGenerics text = .ok result ↔ IsApplied ('<' ∉ ·) (Text.trimChars text) result := by
  constructor
  · intro h
    obtain ⟨reason, herror⟩ | ⟨answer, hok, happlied⟩ := extractGenerics_cases text
    · cases herror.symm.trans h
    · rwa [← Except.ok.inj (hok.symm.trans h)]
  · exact extractGenerics_of_isApplied

theorem exists_of_extractGenerics_eq_error {error : ConfigError}
    (h : extractGenerics text = .error error) :
    ∃ reason, error = invalid (Text.trimChars text) reason := by
  obtain ⟨reason, herror⟩ | ⟨answer, hok, -⟩ := extractGenerics_cases text
  · exact ⟨reason, Except.error.inj (h.symm.trans herror)⟩
  · cases hok.symm.trans h

theorem IsApplied.opensFirst {input : List Char} (h : IsApplied IsBare input result) :
    OpensFirst input := by
  cases h with
  | plain hopen => exact fun hmem ↦ absurd hmem hopen
  | params hbase => exact (opensFirst_base_iff hbase.1).mpr hbase.2

/-- **Type strings are taken apart by their brackets.** What is answered are the base and the
parameters of the trimmed text, if it is plain or an application whose base has no `<`; every other
text is an invalid type. Texts that do not have a `>` in front of the first `<` are answered only
without any bracket in the base, and are refused if a bracket has no partner. All other texts are
not applications of a bare base, whatever is answered. -/
theorem extractGenerics_iff_isApplied (text : List Char) :
    (∀ result, extractGenerics text = .ok result ↔
      IsApplied ('<' ∉ ·) (Text.trimChars text) result) ∧
    (∀ error, extractGenerics text = .error error →
      ∃ reason, error = invalid (Text.trimChars text) reason) ∧
    (OpensFirst (Text.trimChars text) →
      (∀ result, extractGenerics text = .ok result ↔
        IsApplied IsBare (Text.trimChars text) result) ∧
      (IsUnbalanced (Text.trimChars text) →
        ∃ reason, extractGenerics text = .error (invalid (Text.trimChars text) reason))) ∧
    (¬ OpensFirst (Text.trimChars text) → ∀ result,
      ¬ IsApplied IsBare (Text.trimChars text) result) := by
  refine ⟨fun _ ↦ extractGenerics_eq_ok_iff, fun _ ↦ exists_of_extractGenerics_eq_error, ?_,
    fun hopens result happlied ↦ hopens happlied.opensFirst⟩
  intro hopens
  have hiff : ∀ result, extractGenerics text = .ok result ↔
      IsApplied IsBare (Text.trimChars text) result := by
    intro result
    rw [extractGenerics_eq_ok_iff]
    constructor
    · intro h
      exact h.mono fun base rest hinput hbase ↦
        ⟨hbase, (opensFirst_base_iff hbase).mp (hinput ▸ hopens)⟩
    · intro h
      exact h.mono fun _ _ _ hbase ↦ hbase.1
  refine ⟨hiff, fun hunbalanced ↦ ?_⟩
  obtain ⟨reason, herror⟩ | ⟨result, hok, -⟩ := extractGenerics_cases text
  · exact ⟨reason, herror⟩
  · exact absurd hunbalanced ((hiff result).mp hok).isBalanced.not_isUnbalanced

/-- Blanks around parts are not answered, and a `>` too many is refused. If it stands in front of
the first `<` it is not. -/
theorem extractGenerics_iff_isApplied_pair :
    IsApplied IsBare "Pair<int, Foo<a,b> >".toList
      ("Pair".toList, ["int".toList, "Foo<a,b>".toList]) ∧
    (∃ reason, extractGenerics "Pair<int>>".toList =
      .error (invalid "Pair<int>>".toList reason)) ∧
    extractGenerics "Foo><int>".toList = .ok ("Foo>".toList, ["int".toList]) ∧
    ∀ result, ¬ IsApplied IsBare "Foo><int>".toList result := by
  obtain ⟨-, -, hpair, -⟩ := extractGenerics_iff_isApplied "Pair<int, Foo<a,b> >".toList
  obtain ⟨-, -, hclosed, -⟩ := extractGenerics_iff_isApplied "Pair<int>>".toList
  obtain ⟨-, -, -, hfoo⟩ := extractGenerics_iff_isApplied "Foo><int>".toList
  exact ⟨((hpair (by decide)).1 _).mp rfl, (hclosed (by decide)).2 (.inr (by decide)), rfl,
    hfoo (by decide)⟩

end

end TypedJson.TypeText
