import TypedJson.Proofs.DataType.Parts
import TypedJson.Proofs.DataType.Settled

/-!
# Reading type strings back

The resolver reads the text of a settled type as that type. So no two settled types share a text,
which is what lets a cache use the text in the place of the type.

The proof follows the layers of a type string. An *atom* is a name with its parameters; its text
starts like a name and passes both separators. The text of a type is an atom, an atom behind `?`,
or several atoms joined by `|`, which passes `|` only inside brackets. `Reads` collects what is
known about the text of one type, and the induction over settled types carries it from the
parameters to the type they belong to.
-/

namespace TypedJson

namespace TypeText

/-! ## The texts of types and atoms -/

/-- A text that can be a parameter: it passes commas, and bars inside `floor` brackets. -/
structure IsText (floor : Nat) (cs : List Char) : Prop extends IsTight cs where
  comma : Passes ',' 0 cs
  bar : Passes '|' floor cs

/-- A text that can be a member of a union. -/
structure IsAtom (cs : List Char) : Prop extends IsText 0 cs where
  named : ∃ c rest, cs = c :: rest ∧ isNameChar c = true

theorem IsText.inner {floor : Nat} {cs : List Char} (h : IsText floor cs) (hf : floor ≤ 1) :
    IsText 1 cs :=
  ⟨h.toIsTight, h.comma, h.bar.mono hf⟩

theorem passes_of_isNameChar {sep c : Char} {floor : Nat} (hsep : sep = ',' ∨ sep = '|')
    (h : isNameChar c = true) : Passes sep floor [c] := by
  refine passes_singleton ?_ ?_ fun hc ↦ ?_
  · rintro rfl
    cases h
  · rintro rfl
    cases h
  · rcases hsep with rfl | rfl <;> subst hc <;> cases h

theorem passes_of_isName {sep : Char} {floor : Nat} {cs : List Char}
    (hsep : sep = ',' ∨ sep = '|') (h : isName cs = true) : Passes sep floor cs := by
  have hchars := isNameChar_of_isName h
  cases cs with
  | nil => cases h
  | cons c cs =>
    exact passes_of_forall (passes_of_isNameChar hsep (hchars c (by simp))) fun d hd ↦
      passes_of_isNameChar hsep (hchars d (by simp [hd]))

theorem isTight_of_isName {cs : List Char} (h : isName cs = true) : IsTight cs := by
  have hchars := isNameChar_of_isName h
  have hne := ne_nil_of_isName h
  refine ⟨?_, cs.dropLast, cs.getLast hne, ?_, ?_⟩
  · cases cs with
    | nil => exact (hne rfl).elim
    | cons c cs => exact ⟨c, cs, rfl, isBlank_of_isNameChar (hchars c (by simp))⟩
  · exact (List.dropLast_concat_getLast hne).symm
  · exact isBlank_of_isNameChar (hchars _ (List.getLast_mem hne))

theorem isAtom_of_isName {cs : List Char} (h : isName cs = true) : IsAtom cs := by
  refine ⟨⟨isTight_of_isName h, passes_of_isName (.inl rfl) h, passes_of_isName (.inr rfl) h⟩, ?_⟩
  cases cs with
  | nil => cases h
  | cons c cs => exact ⟨c, cs, rfl, isNameChar_of_isName h c (by simp)⟩

/-- A text in front of which a mark stands that no split knows. -/
theorem IsText.mark {floor : Nat} {cs : List Char} (h : IsText floor cs) :
    IsText floor ('?' :: cs) where
  toIsTight := h.toIsTight.cons rfl
  comma := (passes_singleton (by decide) (by decide) (by decide)).append h.comma
  bar := (passes_singleton (by decide) (by decide) fun hc ↦ absurd hc (by decide)).append h.bar

/-! ## Joined texts -/

section Joined

variable {sep : List Char} {first : List Char} {others : List (List Char)}

theorem length_le_intercalate {cs : List Char} {texts : List (List Char)} (sep : List Char)
    (h : cs ∈ texts) : cs.length ≤ (sep.intercalate texts).length := by
  induction texts with
  | nil => cases h
  | cons first others ih =>
    cases others with
    | nil => simp_all
    | cons next others =>
      rw [List.intercalate_cons_cons]
      rcases List.mem_cons.mp h with rfl | h
      · simp
      · have := ih h
        simp only [List.length_append]
        omega

theorem passes_intercalate {c : Char} {floor : Nat} (hsep : Passes c floor sep)
    (hfirst : Passes c floor first) (hothers : ∀ cs ∈ others, Passes c floor cs) :
    Passes c floor (sep.intercalate (first :: others)) := by
  induction others generalizing first with
  | nil => simpa using hfirst
  | cons next others ih =>
    rw [List.intercalate_cons_cons]
    exact (hfirst.append hsep).append
      (ih (hothers next (by simp)) fun cs hcs ↦ hothers cs (by simp [hcs]))

theorem isTight_intercalate (hfirst : IsTight first) (hothers : ∀ cs ∈ others, IsTight cs) :
    IsTight (sep.intercalate (first :: others)) := by
  induction others generalizing first with
  | nil => simpa using hfirst
  | cons next others ih =>
    rw [List.intercalate_cons_cons, List.append_assoc]
    exact hfirst.join (ih (hothers next (by simp)) fun cs hcs ↦ hothers cs (by simp [hcs])) sep

end Joined

/-- Several members, joined by bars. -/
theorem isText_members {first : List Char} {others : List (List Char)} (hfirst : IsText 0 first)
    (hothers : ∀ cs ∈ others, IsText 0 cs) : IsText 1 (['|'].intercalate (first :: others)) where
  toIsTight := isTight_intercalate hfirst.toIsTight fun cs hcs ↦ (hothers cs hcs).toIsTight
  comma :=
    passes_intercalate (passes_singleton (by decide) (by decide) (by decide)) hfirst.comma
      fun cs hcs ↦ (hothers cs hcs).comma
  bar :=
    passes_intercalate (passes_singleton (by decide) (by decide) fun _ ↦ Nat.zero_lt_one)
      (hfirst.inner (Nat.zero_le 1)).bar fun cs hcs ↦ ((hothers cs hcs).inner (Nat.zero_le 1)).bar

/-! ## Parameters -/

/-- The parameters of an atom in their brackets. -/
def bracketed (params : List (List Char)) : List Char :=
  '<' :: ([',', ' '].intercalate params ++ ['>'])

theorem passes_padding (sep : Char) : Passes sep 1 [',', ' '] := by
  refine passes_of_forall (passes_singleton (by decide) (by decide) fun _ ↦ Nat.zero_lt_one) ?_
  rintro d hd
  rw [List.mem_singleton.mp hd]
  exact passes_singleton (by decide) (by decide) fun _ ↦ Nat.zero_lt_one

theorem passes_bracketed {first : List Char} {others : List (List Char)} {sep : Char}
    (hsep : sep = ',' ∨ sep = '|') (hfirst : IsText 1 first)
    (hothers : ∀ cs ∈ others, IsText 1 cs) : Passes sep 0 (bracketed (first :: others)) := by
  have hinner : ∀ cs, IsText 1 cs → Passes sep 1 cs := by
    intro cs hcs
    rcases hsep with rfl | rfl
    · exact hcs.comma.mono (Nat.zero_le 1)
    · exact hcs.bar
  exact Passes.bracketed (passes_intercalate (passes_padding sep) (hinner first hfirst)
    fun cs hcs ↦ hinner cs (hothers cs hcs))

theorem isAtom_params {name first : List Char} {others : List (List Char)}
    (hname : isName name = true) (hfirst : IsText 1 first)
    (hothers : ∀ cs ∈ others, IsText 1 cs) : IsAtom (name ++ bracketed (first :: others)) := by
  have hatom := isAtom_of_isName hname
  have hbrackets : ∀ sep, sep = ',' ∨ sep = '|' →
      Passes sep 0 (name ++ bracketed (first :: others)) := fun sep hsep ↦
    (passes_of_isName hsep hname).append (passes_bracketed hsep hfirst hothers)
  obtain ⟨c, rest, hstart, hc⟩ := hatom.named
  refine ⟨⟨⟨?_, ?_⟩, hbrackets _ (.inl rfl), hbrackets _ (.inr rfl)⟩, ?_⟩
  · exact ⟨c, rest ++ bracketed (first :: others), by rw [hstart]; rfl, isBlank_of_isNameChar hc⟩
  · exact ⟨name ++ '<' :: [',', ' '].intercalate (first :: others), '>', by simp [bracketed], rfl⟩
  · exact ⟨c, rest ++ bracketed (first :: others), by rw [hstart]; rfl, hc⟩

/-- A name without parameters is taken apart into itself. -/
theorem extractGenerics_of_isName {name : List Char} (h : isName name = true) :
    extractGenerics name = .ok (name, []) := by
  have hchars := isNameChar_of_isName h
  have hne : ∀ c ∈ name, decide (c ≠ '<') = true := by
    intro c hc
    refine decide_eq_true ?_
    rintro rfl
    exact absurd (hchars _ hc) (by decide)
  have hopen : name.dropWhile (· ≠ '<') = [] := by
    have happ : (name ++ []).dropWhile (· ≠ '<') = [] := List.dropWhile_append_of_pos hne
    rwa [List.append_nil] at happ
  have hclose : name.contains '>' = false := by
    refine Bool.eq_false_iff.mpr fun hc ↦ ?_
    exact absurd (hchars '>' (by simpa using hc)) (by decide)
  simp only [extractGenerics, (isTight_of_isName h).trim, hopen, hclose]
  rfl

/-- A name with parameters is taken apart into the two. -/
theorem extractGenerics_params {name first : List Char} {others : List (List Char)}
    (hname : isName name = true) (hfirst : IsText 1 first)
    (hothers : ∀ cs ∈ others, IsText 1 cs) :
    extractGenerics (name ++ bracketed (first :: others)) = .ok (name, first :: others) := by
  have hatom := isAtom_params hname hfirst hothers
  have hne : ∀ c ∈ name, decide (c ≠ '<') = true := by
    intro c hc
    refine decide_eq_true ?_
    rintro rfl
    exact absurd (isNameChar_of_isName hname _ hc) (by decide)
  have hdrop : (name ++ bracketed (first :: others)).dropWhile (· ≠ '<') =
      bracketed (first :: others) := by
    rw [List.dropWhile_append_of_pos hne]
    rfl
  have htake : (name ++ bracketed (first :: others)).takeWhile (· ≠ '<') = name := by
    rw [List.takeWhile_append_of_pos hne, bracketed, List.takeWhile_cons]
    simp
  have hlast : (name ++ bracketed (first :: others)).getLast? = some '>' := by
    rw [bracketed, ← List.cons_append, ← List.append_assoc, List.getLast?_concat]
  have hsplit : splitFrom ',' 0 ([',', ' '].intercalate (first :: others)) =
      some (first :: others.map ([' '] ++ ·)) := by
    rw [intercalate_padded]
    refine splitFrom_join (by decide) (by decide) hfirst.comma.isPart fun part hpart ↦ ?_
    obtain ⟨cs, hcs, rfl⟩ := List.mem_map.mp hpart
    have hspace : Passes ',' 0 [' '] := passes_singleton (by decide) (by decide) (by decide)
    exact (hspace.append (hothers cs hcs).comma).isPart
  have htrim : (first :: others.map ([' '] ++ ·)).map Text.trimChars = first :: others := by
    rw [List.map_cons, hfirst.toIsTight.trim, List.map_map]
    congr 1
    calc others.map (Text.trimChars ∘ ([' '] ++ ·))
        = others.map id :=
          List.map_congr_left fun cs hcs ↦ (hothers cs hcs).toIsTight.trim_space
      _ = others := List.map_id others
  have hfull : (first :: others).any List.isEmpty = false := by
    refine List.any_eq_false.mpr fun cs hcs ↦ ?_
    rcases List.mem_cons.mp hcs with rfl | hcs
    · simp [hfirst.toIsTight.isEmpty]
    · simp [(hothers cs hcs).toIsTight.isEmpty]
  simp only [extractGenerics, hatom.toIsTight.trim, hdrop, htake, hlast]
  simp only [bracketed, List.dropLast_concat, hsplit, htrim, hfull, (isTight_of_isName hname).trim]
  rfl

/-! ## Resolving -/

theorem resolveEach_map {resolve : List Char → Except ConfigError DataType}
    {f : DataType → List Char} {types : List DataType}
    (h : ∀ t ∈ types, resolve (f t) = .ok t) : resolveEach resolve (types.map f) = .ok types := by
  induction types with
  | nil => rfl
  | cons t types ih =>
    have hrest := ih fun u hu ↦ h u (by simp [hu])
    rw [List.map_cons, resolveEach, h t (by simp), hrest]
    rfl

theorem resolveBase_of_isFree {scope : Scope} {name : String} (h : IsFree name)
    (atom : List Char) (params : List DataType) :
    resolveBase scope atom name params = resolveName scope atom name params := by
  delta resolveBase
  simp only [h.notPlain, if_neg h.notList, if_neg h.notArray, if_neg h.notDict]

variable {scope : Scope} {resolve : List Char → Except ConfigError DataType}

/-- An atom without parameters is what its name stands for. -/
theorem resolveAtom_name {name : String} (h : isName name.toList = true) :
    resolveAtom scope resolve name.toList = resolveBase scope name.toList name [] := by
  simp only [resolveAtom, extractGenerics_of_isName h]
  show (if isName name.toList = true then _ else _) = _
  rw [if_pos h, String.ofList_toList]
  rfl

/-- An atom with parameters is what its name stands for, given the types of the parameters. -/
theorem resolveAtom_params {name : String} {t : DataType} {types : List DataType}
    (h : isName name.toList = true) (htext : ∀ u ∈ t :: types, IsText 1 u.text.toList)
    (hres : ∀ u ∈ t :: types, resolve u.text.toList = .ok u) :
    let atom := name.toList ++ bracketed ((t :: types).map (·.text.toList))
    resolveAtom scope resolve atom = resolveBase scope atom name (t :: types) := by
  intro atom
  have hparts : extractGenerics atom = .ok (name.toList, (t :: types).map (·.text.toList)) :=
    extractGenerics_params h (htext t (by simp)) fun cs hcs ↦ by
      obtain ⟨u, hu, rfl⟩ := List.mem_map.mp hcs
      exact htext u (by simp [hu])
  simp only [resolveAtom, hparts]
  show (if isName name.toList = true then _ else _) = _
  rw [if_pos h, String.ofList_toList, resolveEach_map hres]
  rfl

theorem resolveMember_atom {cs : List Char} (h : IsAtom cs) :
    resolveMember scope resolve cs = resolveAtom scope resolve cs := by
  obtain ⟨c, rest, hcs, hc⟩ := h.named
  unfold resolveMember
  rw [h.toIsTight.trim]
  split
  · rw [← (List.cons.inj hcs).1] at hc
    cases hc
  · rfl

theorem resolveMember_mark {cs : List Char} (h : IsAtom cs) :
    resolveMember scope resolve ('?' :: cs) =
      (resolveAtom scope resolve cs).map DataType.orNull := by
  unfold resolveMember
  rw [h.toIsText.mark.toIsTight.trim]
  simp only [h.toIsTight.trim]

theorem resolveUnionMember_atom {cs : List Char} (h : IsAtom cs) (input : List Char) :
    resolveUnionMember scope resolve input cs = resolveAtom scope resolve cs := by
  obtain ⟨c, rest, hcs, hc⟩ := h.named
  rw [resolveUnionMember, h.toIsTight.trim, if_neg, resolveMember_atom h]
  rw [hcs]
  rintro hhead
  rw [Option.some.inj hhead] at hc
  cases hc

/-- A text that no bar cuts is resolved as a member. -/
theorem resolveAt_member {cs : List Char} (h : IsText 0 cs) (fuel : Nat) :
    resolveAt scope (fuel + 1) cs = resolveMember scope (resolveAt scope fuel) cs := by
  rw [resolveAt]
  simp only [h.toIsTight.trim, h.toIsTight.isEmpty, splitTop, splitFrom_self h.bar]
  rfl

/-- Atoms joined by bars are resolved one by one. -/
theorem resolveAt_members {t u : DataType} {types : List DataType} {fuel : Nat}
    (hatom : ∀ m ∈ t :: u :: types, IsAtom m.text.toList)
    (hres : ∀ m ∈ t :: u :: types,
      resolveAtom scope (resolveAt scope fuel) m.text.toList = .ok m)
    {union : DataType} (hunion : DataType.union? (t :: u :: types) = some union) :
    resolveAt scope (fuel + 1) (['|'].intercalate ((t :: u :: types).map (·.text.toList))) =
      .ok union := by
  have hothers : ∀ cs ∈ (u :: types).map (·.text.toList), IsText 0 cs := by
    intro cs hcs
    obtain ⟨m, hm, rfl⟩ := List.mem_map.mp hcs
    exact (hatom m (by simp [hm])).toIsText
  have hfirst : IsText 0 t.text.toList := (hatom t (by simp)).toIsText
  have htight : IsTight (['|'].intercalate ((t :: u :: types).map (·.text.toList))) :=
    (isText_members hfirst hothers).toIsTight
  have hsplit : splitFrom '|' 0 (['|'].intercalate ((t :: u :: types).map (·.text.toList))) =
      some ((t :: u :: types).map (·.text.toList)) :=
    splitFrom_join (by decide) (by decide) hfirst.bar.isPart
      fun cs hcs ↦ (hothers cs hcs).bar.isPart
  rw [resolveAt]
  simp only [htight.trim, htight.isEmpty, splitTop, hsplit]
  have heach : resolveEach (resolveUnionMember scope (resolveAt scope fuel)
      (['|'].intercalate ((t :: u :: types).map (·.text.toList))))
      ((t :: u :: types).map (·.text.toList)) = .ok (t :: u :: types) :=
    resolveEach_map fun m hm ↦ (resolveUnionMember_atom (hatom m hm) _).trans (hres m hm)
  rw [List.map_cons, List.map_cons] at heach ⊢
  show resolveEach _ _ >>= _ = _
  rw [heach]
  simp only [bind, Except.bind, hunion]
  rfl

end TypeText

namespace DataType

open TypeText

/-! ## The texts of types -/

theorem textOfAll_eq_map (types : List DataType) : textOfAll types = types.map text := by
  induction types with
  | nil => rfl
  | cons t types ih => rw [textOfAll, ih, List.map_cons]

theorem text_of_isPlain {kind : TypeKind DataType} (h : IsPlain kind) (nullable : Bool) :
    text (mk kind nullable) = (if nullable then "?" else "") ++ kindText kind := by
  cases kind <;> first | exact h.elim | rfl

theorem text_of_kindText {kind : TypeKind DataType} (h : IsPlain kind) :
    text (mk kind false) = kindText kind := by
  rw [text_of_isPlain h]
  exact String.empty_append

theorem toList_text_union (members : List DataType) (nullable : Bool) :
    (text (mk (.union members) nullable)).toList =
      ['|'].intercalate (members.map (·.text.toList)) := by
  rw [text, textOfAll_eq_map, String.toList_intercalate, List.map_map]
  rfl

theorem toList_bracketed (name : String) (types : List DataType) :
    (name ++ "<" ++ ", ".intercalate (types.map text) ++ ">").toList =
      name.toList ++ bracketed (types.map (·.text.toList)) := by
  simp [String.toList_append, String.toList_intercalate, bracketed, Function.comp_def]

theorem toList_kindText_object (className : String) (t : DataType) (types : List DataType) :
    (kindText (.object className (t :: types))).toList =
      className.toList ++ bracketed ((t :: types).map (·.text.toList)) := by
  rw [kindText, textOfAll_eq_map, ← List.map_cons, toList_bracketed]

theorem toList_kindText_list (item : DataType) :
    (kindText (.list item)).toList = "list".toList ++ bracketed ([item].map (·.text.toList)) := by
  rw [← toList_bracketed]
  simp [kindText]

theorem toList_kindText_dict (key value : DataType) :
    (kindText (.dict key value)).toList =
      "dict".toList ++ bracketed ([key, value].map (·.text.toList)) := by
  rw [← toList_bracketed]
  simp [kindText, String.append_assoc]

/-! ## Reading back -/

/-- The text of a type can be a parameter, and is resolved to the type. If the type can be a member
of a union, then so can its text. -/
structure Reads (scope : Scope) (t : DataType) : Prop where
  isText : IsText 1 t.text.toList
  resolves : ∀ fuel, t.text.length < fuel → resolveAt scope fuel t.text.toList = .ok t
  isAtom : IsLeaf t → IsAtom t.text.toList
  resolvesAtom : IsLeaf t → ∀ fuel, t.text.length ≤ fuel →
    resolveAtom scope (resolveAt scope fuel) t.text.toList = .ok t

namespace Reads

variable {scope : Scope} {t : DataType}

/-- A type whose text is an atom. -/
theorem of_isAtom (hatom : IsAtom t.text.toList)
    (hres : ∀ fuel, t.text.length ≤ fuel →
      resolveAtom scope (resolveAt scope fuel) t.text.toList = .ok t) : Reads scope t where
  isText := hatom.toIsText.inner (Nat.zero_le 1)
  resolves := by
    intro fuel hfuel
    obtain ⟨fuel, rfl⟩ := Nat.exists_eq_succ_of_ne_zero (Nat.ne_zero_of_lt hfuel)
    rw [resolveAt_member hatom.toIsText, resolveMember_atom hatom]
    exact hres fuel (Nat.le_of_lt_succ hfuel)
  isAtom _ := hatom
  resolvesAtom _ := hres

/-- A type that may be marked nullable is read back with its mark. -/
theorem nullable {kind : TypeKind DataType} (hp : IsPlain kind)
    (h : Reads scope (DataType.mk kind false)) (nullable : Bool) :
    Reads scope (DataType.mk kind nullable) := by
  cases nullable with
  | false => exact h
  | true =>
    have hleaf : IsLeaf (DataType.mk kind false) := isLeaf_of_isPlain hp
    have hnot : ¬IsLeaf (DataType.mk kind true) := by
      cases kind <;> first | exact hp.elim | simp [IsLeaf]
    have htext : text (DataType.mk kind true) = "?" ++ text (DataType.mk kind false) := by
      rw [text_of_kindText hp, text_of_isPlain hp]
      rfl
    have hlist : (text (DataType.mk kind true)).toList =
        '?' :: (text (DataType.mk kind false)).toList := by
      rw [htext, String.toList_append]
      rfl
    have hmark := (h.isAtom hleaf).toIsText.mark
    refine ⟨?_, ?_, fun hl ↦ (hnot hl).elim, fun hl ↦ (hnot hl).elim⟩
    · rw [hlist]
      exact hmark.inner (Nat.zero_le 1)
    · intro fuel hfuel
      obtain ⟨fuel, rfl⟩ := Nat.exists_eq_succ_of_ne_zero (Nat.ne_zero_of_lt hfuel)
      have hshort : (text (DataType.mk kind false)).length ≤ fuel := by
        rw [htext, String.length_append] at hfuel
        omega
      rw [hlist, resolveAt_member hmark, resolveMember_mark (h.isAtom hleaf),
        h.resolvesAtom hleaf fuel hshort]
      show Except.ok (orNull (DataType.mk kind false)) = _
      rw [orNull_of_isPlain hp]

/-- A type whose text is a name. -/
theorem of_name (name : String) (htext : t.text = name) (hname : TypeText.isName name.toList = true)
    (hbase : resolveBase scope name.toList name [] = .ok t) : Reads scope t := by
  subst htext
  refine of_isAtom (isAtom_of_isName hname) fun fuel _ ↦ ?_
  rw [resolveAtom_name hname, hbase]

/-- A type whose text is a name with parameters that are read back. -/
theorem of_params {name : String} {u : DataType} {types : List DataType}
    (htext : t.text.toList = name.toList ++ bracketed ((u :: types).map (·.text.toList)))
    (hname : TypeText.isName name.toList = true)
    (hbase : ∀ atom, resolveBase scope atom name (u :: types) = .ok t)
    (hparams : ∀ v ∈ u :: types, Reads scope v) : Reads scope t := by
  have hothers : ∀ cs ∈ types.map (·.text.toList), IsText 1 cs := by
    intro cs hcs
    obtain ⟨v, hv, rfl⟩ := List.mem_map.mp hcs
    exact (hparams v (by simp [hv])).isText
  refine of_isAtom ?_ fun fuel hfuel ↦ ?_
  · rw [htext]
    exact isAtom_params hname (hparams u (by simp)).isText hothers
  · have hshort : ∀ v ∈ u :: types, v.text.length < fuel := by
      intro v hv
      have hle := length_le_intercalate [',', ' ']
        (List.mem_map_of_mem (f := (·.text.toList)) hv)
      have hlen := congrArg List.length htext
      simp only [bracketed, List.length_append, List.length_cons, String.length_toList] at hlen hle
      omega
    rw [htext, resolveAtom_params hname (fun v hv ↦ (hparams v hv).isText)
      fun v hv ↦ (hparams v hv).resolves fuel (hshort v hv)]
    exact hbase _

/-- A union whose members are read back. -/
theorem union {members : List DataType} (hlen : 2 ≤ members.length)
    (hleaf : ∀ m ∈ members, IsLeaf m) (hdist : AreDistinct members)
    (h : ∀ m ∈ members, Reads scope m) :
    Reads scope (DataType.mk (.union members) (members.any isNull)) := by
  obtain ⟨u, v, types, rfl⟩ : ∃ u v types, members = u :: v :: types := by
    match members, hlen with
    | u :: v :: types, _ => exact ⟨u, v, types, rfl⟩
  have hatom : ∀ m ∈ u :: v :: types, IsAtom m.text.toList := fun m hm ↦
    (h m hm).isAtom (hleaf m hm)
  have hunion : union? (u :: v :: types) = some (unionOf (u :: v :: types)) := by
    unfold union?
    rw [flatten_of_isLeaf hleaf hdist]
    exact if_neg (by simp)
  have hshort : ∀ m ∈ u :: v :: types,
      m.text.length ≤ (text (unionOf (u :: v :: types))).length := by
    intro m hm
    have hle := length_le_intercalate ['|']
      (List.mem_map_of_mem (f := (·.text.toList)) hm)
    rw [← String.length_toList, ← String.length_toList, unionOf, toList_text_union]
    exact hle
  refine ⟨?_, ?_, False.elim, False.elim⟩
  · rw [toList_text_union]
    refine isText_members (hatom u (by simp)).toIsText fun cs hcs ↦ ?_
    obtain ⟨m, hm, rfl⟩ := List.mem_map.mp hcs
    exact (hatom m (by simp [hm])).toIsText
  · intro fuel hfuel
    obtain ⟨fuel, rfl⟩ := Nat.exists_eq_succ_of_ne_zero (Nat.ne_zero_of_lt hfuel)
    rw [toList_text_union]
    refine resolveAt_members hatom (fun m hm ↦ ?_) hunion
    exact (h m hm).resolvesAtom (hleaf m hm) fuel
      (Nat.le_trans (hshort m hm) (Nat.le_of_lt_succ hfuel))

end Reads

/-! ## Settled types are read back -/

theorem Settled.reads {scope : Scope} {t : DataType} (h : Settled scope t) : Reads scope t := by
  induction h with
  | scalar kind nullable =>
    refine Reads.nullable (by trivial) ?_ nullable
    refine Reads.of_name kind.name (text_of_kindText (by trivial)) ?_ ?_
    · cases kind <;> decide
    · cases kind <;> rfl
  | null => exact Reads.of_name "null" rfl (by decide) rfl
  | mixed => exact Reads.of_name "mixed" rfl (by decide) rfl
  | @list item nullable _ ih =>
    refine Reads.nullable (by trivial) ?_ nullable
    exact Reads.of_params (toList_kindText_list item) (by decide) (fun _ ↦ rfl) (by simpa using ih)
  | @dict key value nullable hkey _ ih =>
    refine Reads.nullable (by trivial) ?_ nullable
    have hread : Reads scope key := by
      rcases hkey with rfl | rfl
      · exact Reads.of_name "int" rfl (by decide) rfl
      · exact Reads.of_name "string" rfl (by decide) rfl
    refine Reads.of_params (toList_kindText_dict key value) (by decide) (fun atom ↦ ?_) ?_
    · rcases hkey with rfl | rfl <;> rfl
    · simp [hread, ih]
  | @template name nullable hfree hmem =>
    refine Reads.nullable (by trivial) ?_ nullable
    refine Reads.of_name name (text_of_kindText (by trivial)) hfree.isName ?_
    rw [resolveBase_of_isFree hfree, resolveName, if_pos (by simpa using hmem)]
    rfl
  | @dateTime name nullable hmem htime =>
    have hfree : IsFree name := by
      rcases List.mem_cons.mp htime with rfl | htime
      · constructor <;> decide
      rcases List.mem_cons.mp htime with rfl | htime
      · constructor <;> decide
      rw [List.mem_singleton.mp htime]
      constructor <;> decide
    refine Reads.nullable (by trivial) ?_ nullable
    refine Reads.of_name name (text_of_kindText (by trivial)) hfree.isName ?_
    rw [resolveBase_of_isFree hfree, resolveName, if_neg (by simpa using hmem),
      if_pos (by simpa using htime)]
    rfl
  | @object name generics nullable hfree hmem htime hlookup _ ih =>
    refine Reads.nullable (by trivial) ?_ nullable
    have hbase : ∀ atom,
        resolveBase scope atom name generics = .ok (DataType.object name generics) := by
      intro atom
      rw [resolveBase_of_isFree hfree, resolveName, if_neg (by simpa using hmem),
        if_neg (by simpa using htime), hlookup]
      exact if_pos rfl
    cases generics with
    | nil => exact Reads.of_name name (text_of_kindText (by trivial)) hfree.isName (hbase _)
    | cons t types =>
      exact Reads.of_params (toList_kindText_object name t types) hfree.isName hbase ih
  | @enum name backing nullable hfree hmem htime hlookup =>
    refine Reads.nullable (by trivial) ?_ nullable
    refine Reads.of_name name (text_of_kindText (by trivial)) hfree.isName ?_
    rw [resolveBase_of_isFree hfree, resolveName, if_neg (by simpa using hmem),
      if_neg (by simpa using htime), hlookup]
    rfl
  | union hlen _ hleaf hdist ih => exact Reads.union hlen hleaf hdist ih

/-- A settled type is what its text denotes. -/
theorem Settled.resolve_text {scope : Scope} {t : DataType} (h : Settled scope t) :
    TypeText.resolve scope t.text = .ok t :=
  h.reads.resolves _ (Nat.lt_succ_self _)

/-- Settled types with the same text are the same. -/
theorem Settled.eq_of_text {scope : Scope} {t u : DataType} (ht : Settled scope t)
    (hu : Settled scope u) (h : t.text = u.text) : t = u := by
  have hread := ht.resolve_text
  rw [h, hu.resolve_text] at hread
  exact (Except.ok.inj hread).symm

end DataType

end TypedJson
