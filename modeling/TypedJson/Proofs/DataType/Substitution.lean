import TypedJson.Proofs.DataType.WellFormed

/-!
# Substituting closed types

A substitution looks up the names of template parameters, and of classes that stand without
parameters, since such a class may be a template parameter that was not told apart. So a closed type
is not out of its reach: a class is replaced if it has the name of a template parameter that is
bound to something else. `Keeps` excludes that, and it is all that has to be excluded. Everything
else in a well-formed closed type is put together again as it was, member by member in unions, whose
members are distinct leaves already.

What a substitution makes of a type names no classes but those of the type and those that the
bindings bring in, so a second substitution that keeps these changes nothing.
-/

namespace TypedJson

namespace DataType

variable {bindings : Entries String DataType} {name : String} {t : DataType}

/-! ## Classes without parameters -/

/-- A class stands without parameters somewhere in a type. -/
inductive MentionsClass (name : String) : DataType → Prop
  | here (nullable : Bool) : MentionsClass name (mk (.object name []) nullable)
  | inside {kind : TypeKind DataType} {t : DataType} (nullable : Bool) :
    t ∈ kind.parts → MentionsClass name t → MentionsClass name (mk kind nullable)

theorem mentionsClass_mk {kind : TypeKind DataType} {nullable : Bool} :
    MentionsClass name (mk kind nullable) ↔
      kind = .object name [] ∨ ∃ t ∈ kind.parts, MentionsClass name t := by
  constructor
  · rintro (_ | ⟨_, ht, h⟩)
    · exact .inl rfl
    · exact .inr ⟨_, ht, h⟩
  · rintro (rfl | ⟨t, ht, h⟩)
    · exact .here nullable
    · exact .inside nullable ht h

theorem mentionsClass_union {members : List DataType} {nullable : Bool} :
    MentionsClass name (mk (.union members) nullable) ↔ ∃ t ∈ members, MentionsClass name t := by
  rw [mentionsClass_mk, or_iff_right (by rintro ⟨⟩)]
  exact Iff.rfl

/-- A property of all classes that stand without parameters. -/
theorem isUnionClosed_mentionsClass (S : String → Prop) :
    IsUnionClosed fun t ↦ ∀ name, t.MentionsClass name → S name where
  null name h := by simp [null, mentionsClass_mk, TypeKind.parts] at h
  mixed name h := by simp [mixed, mentionsClass_mk, TypeKind.parts] at h
  withNullable h _ _ name hname := h name (mentionsClass_mk.mpr (mentionsClass_mk.mp hname))
  of_union h m hm name hname := h name (.inside _ hm hname)
  orNull_union {members nullable} h name hname := by
    rw [orNull] at hname
    by_cases hnull : members.any isNull = true
    · rw [if_pos hnull] at hname
      exact h name (mentionsClass_union.mpr (mentionsClass_union.mp hname))
    · rw [if_neg hnull] at hname
      obtain ⟨t, ht, htname⟩ := mentionsClass_union.mp hname
      rcases List.mem_append.mp ht with ht | ht
      · exact h name (mentionsClass_union.mpr ⟨t, ht, htname⟩)
      · rw [List.mem_singleton.mp ht] at htname
        simp [null, mentionsClass_mk, TypeKind.parts] at htname
  unionOf _ h _ _ name hname := by
    obtain ⟨t, ht, htname⟩ := mentionsClass_union.mp hname
    exact h t ht name htname

/-- What a substitution makes of a type names classes of the type, or classes that the bindings
bring in. -/
theorem mentionsClass_substitute {S : String → Prop} (ht : ∀ name, t.MentionsClass name → S name)
    (hb : ∀ key u, Entries.find? bindings key = some u → ∀ name, u.MentionsClass name → S name) :
    ∀ name, (t.substitute bindings).MentionsClass name → S name := by
  unfold substitute
  split
  · exact ht
  · refine (isUnionClosed_mentionsClass S).substituteIn
      (Q := fun t ↦ ∀ name, t.MentionsClass name → S name)
      (fun h u hu name hname ↦ h name (.inside _ hu hname)) (fun h _ _ ↦ h) ?_ hb ht
    intro kind nullable _ hne hall name hname
    rcases mentionsClass_mk.mp hname with rfl | ⟨u, hu, huname⟩
    · exact absurd rfl hne
    · exact hall u hu name huname

/-! ## Closed types -/

/-- The name is bound to nothing but the class of this name. -/
def Keeps (bindings : Entries String DataType) (name : String) : Prop :=
  ∀ u, Entries.find? bindings name = some u → u = object name []

theorem nullableIf_of_isPlain {kind : TypeKind DataType} (h : IsPlain kind) (nullable : Bool) :
    (mk kind false).nullableIf nullable = mk kind nullable := by
  cases nullable
  · rfl
  · exact orNull_of_isPlain h false

theorem Keeps.bound (h : Keeps bindings name) (nullable : Bool) :
    bound bindings name nullable (mk (.object name []) nullable) =
      mk (.object name []) nullable := by
  unfold DataType.bound
  split
  · next u hu =>
    have hplain : IsPlain (.object name []) := trivial
    rw [h u hu]
    exact nullableIf_of_isPlain hplain nullable
  · rfl

theorem WellFormed.substituteIn_of_isClosed (h : WellFormed t) : t.isClosed = true →
    (∀ name, t.MentionsClass name → Keeps bindings name) → t.substituteIn bindings = t := by
  induction h with
  | null | mixed => exact fun _ _ ↦ rfl
  | @plain kind nullable hp _ ih =>
    intro hclosed hkeeps
    have hpart : ∀ u ∈ kind.parts, u.isClosed = true → u.substituteIn bindings = u :=
      fun u hu hu' ↦ ih u hu hu' fun name hname ↦ hkeeps name (.inside nullable hu hname)
    cases kind with
    | scalar | enum => rfl
    | null | mixed | union => exact hp.elim
    | template name => cases hclosed
    | list item =>
      have hitem := hpart item (List.mem_singleton_self item) hclosed
      rw [substituteIn, hitem]
      exact nullableIf_of_isPlain hp nullable
    | dict key value =>
      obtain ⟨hkey, hvalue⟩ := Bool.and_eq_true_iff.mp hclosed
      rw [substituteIn, hpart key (by simp [TypeKind.parts]) hkey,
        hpart value (by simp [TypeKind.parts]) hvalue]
      exact nullableIf_of_isPlain hp nullable
    | object className generics =>
      rcases generics with _ | ⟨u, types⟩
      -- Only here is a name of a closed type looked up.
      · rw [substituteIn]
        exact (hkeeps className (.here nullable)).bound nullable
      · have hall := (allClosed_iff _).mp hclosed
        have hsame : (u :: types).map (·.substituteIn bindings) = u :: types :=
          (List.map_congr_left fun v hv ↦ hpart v hv (hall v hv)).trans (List.map_id _)
        rw [substituteIn, substituteInAll_eq_map, ← List.map_cons, hsame]
        exact nullableIf_of_isPlain hp nullable
  | @union members hlen _ hleaf hunequal ih =>
    intro hclosed hkeeps
    have hall := (allClosed_iff members).mp hclosed
    have hsame : members.map (·.substituteIn bindings) = members := by
      refine (List.map_congr_left fun m hm ↦ ?_).trans (List.map_id _)
      exact ih m hm (hall m hm) fun name hname ↦ hkeeps name (.inside _ hm hname)
    rw [unionOf, substituteIn, substituteInAll_eq_map, hsame]
    -- The union is put together anew, of members that are leaves and distinct already.
    exact unionOrMember_of_isLeaf hlen hleaf hunequal.areDistinct

theorem WellFormed.substitute_of_isClosed (h : WellFormed t) (hclosed : t.isClosed = true)
    (hkeeps : ∀ name, t.MentionsClass name → Keeps bindings name) :
    t.substitute bindings = t := by
  unfold DataType.substitute
  split
  · rfl
  · exact h.substituteIn_of_isClosed hclosed hkeeps

/-- A class without parameters is replaced by what its name is bound to. -/
theorem substitute_object : (object name []).substitute bindings =
    (Entries.find? bindings name).getD (object name []) := by
  unfold substitute
  split
  · next hempty =>
    rw [List.isEmpty_iff.mp hempty]
    rfl
  · rw [object, substituteIn, DataType.bound]
    cases Entries.find? bindings name <;> rfl

theorem eq_object_of_beq (h : (t == object name []) = true) : t = object name [] := by
  obtain ⟨kind, nullable⟩ := t
  refine beq_cases h (by rintro _ _ - ⟨⟩) ?_
  rintro - - rfl hhead hparts
  cases kind <;> cases hhead
  exact congrArg (object name) (List.forall₂_nil_right_iff.mp hparts)

/-- A class without parameters is left alone only if its name is kept. -/
theorem substitute_object_beq_iff :
    ((object name []).substitute bindings == object name []) = true ↔ Keeps bindings name := by
  rw [substitute_object]
  rcases hfound : Entries.find? bindings name with _ | u
  · exact iff_of_true (beq_refl _) fun u hu ↦ by cases hfound.symm.trans hu
  · constructor
    · rintro heq v hv
      cases hfound.symm.trans hv
      exact eq_object_of_beq heq
    · intro hkeeps
      rw [hkeeps u hfound]
      exact beq_refl _

/-- **Substitution leaves closed types alone whose classes are kept.** A well-formed closed type
stays as it is if none of its classes without parameters is bound to something else. So, once all
template parameters of a type have been replaced by closed types, bindings change nothing if they
keep the classes of the type and those that were brought in. For a class that stands by itself there
is no other way: it is left alone exactly if it is kept. -/
theorem substitute_of_keeps (bindings : Entries String DataType) :
    (∀ t : DataType, WellFormed t → t.isClosed = true →
      (∀ name, t.MentionsClass name → Keeps bindings name) →
        t.substitute bindings = t ∧ (t.substitute bindings == t) = true) ∧
    (∀ (t : DataType) (others : Entries String DataType), WellFormed t →
      (∀ name u, Entries.find? bindings name = some u → WellFormed u ∧ u.isClosed = true) →
      (∀ name, t.Mentions name → ∃ u, Entries.find? bindings name = some u) →
      (∀ name, t.MentionsClass name → Keeps others name) →
      (∀ key u, Entries.find? bindings key = some u →
        ∀ name, u.MentionsClass name → Keeps others name) →
          (t.substitute bindings).substitute others = t.substitute bindings) ∧
    ∀ name : String,
      ((object name []).substitute bindings == object name []) = true ↔ Keeps bindings name := by
  refine ⟨?_, ?_, fun _ ↦ substitute_object_beq_iff⟩
  · intro t h hclosed hkeeps
    have hsame := h.substitute_of_isClosed hclosed hkeeps
    exact ⟨hsame, hsame.symm ▸ beq_refl t⟩
  · intro t others h hbound hall hkeeps hkeeps'
    have hwf : WellFormed (t.substitute bindings) :=
      h.substitute fun name u hu ↦ (hbound name u hu).1
    have hclosed : (t.substitute bindings).isClosed = true :=
      isClosed_substitute hall fun name u hu ↦ (hbound name u hu).2
    exact hwf.substitute_of_isClosed hclosed (mentionsClass_substitute hkeeps hkeeps')

/-- A page of items, and an item or a template parameter that is bound to lists of items. A class
that has the name of the parameter is replaced as if it were the parameter. -/
theorem substitute_of_keeps_items :
    let item := object "Item" []
    let page := mk (.object "Page" [item]) true
    let either := mk (.union [template "T", item]) false
    let made := mk (.union [list item, item]) false
    (WellFormed page ∧ page.isClosed = true ∧ page.substitute [("T", scalar .int)] = page) ∧
    (WellFormed either ∧ either.substitute [("T", list item)] = made ∧
      made.substitute [("T", scalar .int), ("U", item)] = made) ∧
    (WellFormed (object "T" []) ∧ (object "T" []).isClosed = true ∧
      ((object "T" []).substitute [("T", scalar .int)] == object "T" []) = false) := by
  intro item page either made
  obtain ⟨hclosed, -, hclass⟩ := substitute_of_keeps [("T", scalar .int)]
  obtain ⟨-, htwice, -⟩ := substitute_of_keeps [("T", list item)]
  have hbare : ∀ name, WellFormed (object name []) :=
    fun name ↦ .plain false trivial (by simp [TypeKind.parts])
  have hitem : WellFormed item := hbare "Item"
  have hpage : WellFormed page := .plain true trivial (by simpa [TypeKind.parts] using hitem)
  have heither : WellFormed (unionOf [template "T", item]) := by
    refine .union (by decide) ?_ ?_ ?_
    · have htemplate : WellFormed (template "T") := .plain false trivial (by simp [TypeKind.parts])
      exact List.forall_mem_cons.mpr ⟨htemplate, List.forall_mem_singleton.mpr hitem⟩
    · exact List.forall_mem_cons.mpr ⟨rfl, List.forall_mem_singleton.mpr rfl⟩
    · unfold AreUnequal
      decide
  have hbound : ∀ name u, Entries.find? [("T", list item)] name = some u → u = list item := by
    intro name u h
    rw [Entries.find?] at h
    split at h
    · exact (Option.some.inj h).symm
    · cases h
  have hkeeps : ∀ {bindings}, Entries.find? bindings "Item" = none →
      ∀ name, "Item" = name → Keeps bindings name := by
    rintro bindings hnone name rfl u hu
    cases hnone.symm.trans hu
  refine ⟨⟨hpage, rfl, ?_⟩, ⟨heither, rfl, ?_⟩, hbare "T", rfl, ?_⟩
  · refine (hclosed page hpage rfl fun name h ↦ hkeeps rfl name ?_).1
    simpa [page, item, object, mentionsClass_mk, TypeKind.parts] using h
  · refine htwice either [("T", scalar .int), ("U", item)] heither ?_ ?_ ?_ ?_
    · intro name u h
      rw [hbound name u h]
      exact ⟨.plain false trivial (by simpa [TypeKind.parts] using hitem), rfl⟩
    · intro name h
      have hname : "T" = name := by
        simpa [either, item, template, object, mentions_mk, TypeKind.parts] using h
      exact ⟨list item, hname ▸ rfl⟩
    · refine fun name h ↦ hkeeps rfl name ?_
      simpa [either, item, template, object, mentionsClass_mk, TypeKind.parts] using h
    · refine fun key u hu name h ↦ hkeeps rfl name ?_
      rw [hbound key u hu] at h
      simpa [item, list, object, mentionsClass_mk, TypeKind.parts] using h
  · refine Bool.eq_false_iff.mpr fun h ↦ ?_
    cases (hclass "T").mp h (scalar .int) rfl

end DataType

end TypedJson
