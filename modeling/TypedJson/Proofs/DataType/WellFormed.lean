import TypedJson.Proofs.DataType.Lawful
import TypedJson.Proofs.DataType.Resolved

/-!
# Well-formed types

A type says twice whether it accepts `null`: by its mark, and, if it is a union, by a member. Five
operations put types together and each keeps the two in step in its own way. `WellFormed` collects
the rules of types at any depth; `operations_wellFormed` says that the resolver answers well-formed
types only and that unions, `orNull`, `nonNull` and `substitute` keep them well formed.

A union holds no type twice in any order of comparing. The operations compare a new member with the
earlier ones only, which is enough because equality is symmetric on well-formed types
(`WellFormed.beq_comm`).
-/

namespace TypedJson

namespace DataType

/-- The types that keep the rules of their kinds at any depth. `null` and `mixed` accept `null`. A
union has at least two members, none of them a union and none nullable but `null` and `mixed`, no
two of them equal, and accepts `null` exactly if `null` is a member. -/
inductive WellFormed : DataType → Prop
  | null : WellFormed null
  | mixed : WellFormed mixed
  | plain {kind : TypeKind DataType} (nullable : Bool) :
    IsPlain kind → (∀ t ∈ kind.parts, WellFormed t) → WellFormed (mk kind nullable)
  | union {members : List DataType} :
    2 ≤ members.length → (∀ m ∈ members, WellFormed m) → (∀ m ∈ members, IsLeaf m) →
      AreUnequal members → WellFormed (unionOf members)

/-! ## Equality of well-formed types -/

namespace WellFormed

variable {t : DataType} {kind : TypeKind DataType} {nullable : Bool} {members : List DataType}

theorem parts (h : WellFormed (DataType.mk kind nullable)) : ∀ t ∈ kind.parts, WellFormed t := by
  cases h with
  | null | mixed => simp [TypeKind.parts]
  | plain _ _ hparts => exact hparts
  | union _ hmembers => exact hmembers

theorem unequal (h : WellFormed (DataType.mk (.union members) nullable)) :
    AreUnequal members := by
  cases h with
  | plain _ hp => exact hp.elim
  | union _ _ _ hunequal => exact hunequal

theorem hasDistinctMembers (h : WellFormed t) : HasDistinctMembers t := by
  induction h with
  | null | mixed => exact .of_parts_eq_nil id rfl
  | plain nullable hp _ ih => exact .other nullable (not_isUnion_of_isPlain hp) ih
  | union _ _ _ hunequal ih => exact .union _ hunequal.areDistinct ih

/-- On well-formed types equality is symmetric. -/
theorem beq_comm {a b : DataType} (ha : WellFormed a) (hb : WellFormed b) :
    (a == b) = true ↔ (b == a) = true :=
  ha.hasDistinctMembers.beq_comm hb.hasDistinctMembers

theorem unequal_of_areDistinct (h : ∀ m ∈ members, WellFormed m) (hdist : AreDistinct members) :
    AreUnequal members :=
  hdist.imp_of_mem fun {a b} ha hb hab ↦
    ⟨hab, Bool.eq_false_iff.mpr fun hba ↦
      Bool.eq_false_iff.mp hab (((h a ha).beq_comm (h b hb)).mpr hba)⟩

/-! ## Operations on well-formed types -/

theorem isUnionClosed : IsUnionClosed WellFormed where
  null := .null
  mixed := .mixed
  withNullable h hp other := .plain other hp h.parts
  of_union h := h.parts
  orNull_union {members _} h := by
    cases h with
    | plain _ hp => exact hp.elim
    | union hlen hwf hleaf hunequal =>
      rw [DataType.orNull]
      split
      · exact .union hlen hwf hleaf hunequal
      · next hnull =>
        have hdist : AreDistinct members := hunequal.areDistinct
        have hall := List.forall_mem_append.mpr ⟨hwf, List.forall_mem_singleton.mpr .null⟩
        refine .union (by simp; omega) hall ?_ ?_
        · exact List.forall_mem_append.mpr ⟨hleaf, List.forall_mem_singleton.mpr trivial⟩
        · exact unequal_of_areDistinct hall (hdist.concat_null hnull)
  unionOf hlen hwf hleaf hdist := .union hlen hwf hleaf (unequal_of_areDistinct hwf hdist)

/-- A well-formed type has several alternatives exactly if it is a union without `null` as well, and
then it is the union of them. -/
theorem nonNull_cases (h : WellFormed t) :
    2 ≤ t.alternatives.length ∧ t.nonNull = unionOf t.alternatives ∨
      t.alternatives.length < 2 ∧ ¬t.nonNull.kind.IsUnion := by
  cases h with
  | null => exact .inr ⟨by decide, id⟩
  | mixed => exact .inr ⟨by decide, id⟩
  | @plain kind nullable hp =>
    refine .inr ⟨?_, ?_⟩
    · cases kind <;> first | exact hp.elim | exact Nat.lt_succ_self 1
    · rw [nonNull_of_isPlain hp]
      cases kind <;> first | exact hp.elim | exact id
  | @union members _ _ hleaf hunequal =>
    rw [nonNull_unionOf hleaf hunequal]
    split
    · next hnone => exact .inr ⟨by simp [hnone], id⟩
    · next m hone =>
      have hm : IsLeaf m := hleaf m (List.mem_filter.mp (hone ▸ List.mem_singleton_self m)).1
      refine .inr ⟨by simp [hone], ?_⟩
      obtain ⟨kind, n⟩ := m
      cases kind <;> first | exact hm.elim | exact id
    · next hne hne' =>
      refine .inl ⟨?_, rfl⟩
      match halt : (unionOf members).alternatives with
      | [] => exact (hne halt).elim
      | [m] => exact (hne' m halt).elim
      | _ :: _ :: _ => simp

/-- Without `null`, a well-formed type is no union with a member `null`. -/
theorem isNull_of_mem_nonNull (h : WellFormed t) (hkind : t.nonNull.kind = .union members) :
    ∀ m ∈ members, m.isNull = false := by
  rcases h.nonNull_cases with ⟨-, heq⟩ | ⟨-, hnot⟩
  · rw [heq] at hkind
    obtain rfl : t.alternatives = members := TypeKind.union.inj hkind
    intro m hm
    simpa using (List.mem_filter.mp hm).2
  · exact (hnot (hkind ▸ trivial)).elim

end WellFormed

theorem Settled.wellFormed {scope : TypeText.Scope} {t : DataType} (h : Settled scope t) :
    WellFormed t := by
  induction h with
  | null => exact .null
  | mixed => exact .mixed
  | scalar _ nullable | template nullable | dateTime nullable | enum nullable =>
    exact .plain nullable trivial (by simp [TypeKind.parts])
  | list nullable _ ih => exact .plain nullable trivial (by simpa [TypeKind.parts] using ih)
  | dict nullable hkey _ ih =>
    refine .plain nullable trivial (List.forall_mem_cons.mpr ⟨?_, by simpa using ih⟩)
    rcases hkey with rfl | rfl <;> exact .plain false trivial (by simp [TypeKind.parts])
  | object nullable _ _ _ _ _ ih => exact .plain nullable trivial ih
  | union hlen _ hleaf hdist ih =>
    exact .union hlen ih hleaf (WellFormed.unequal_of_areDistinct ih hdist)

/-! ## Template parameters -/

/-- A template parameter stands somewhere in a type. -/
inductive Mentions (name : String) : DataType → Prop
  | here (nullable : Bool) : Mentions name (mk (.template name) nullable)
  | inside {kind : TypeKind DataType} {t : DataType} (nullable : Bool) :
    t ∈ kind.parts → Mentions name t → Mentions name (mk kind nullable)

theorem mentions_mk {name : String} {kind : TypeKind DataType} {nullable : Bool} :
    Mentions name (mk kind nullable) ↔
      kind = .template name ∨ ∃ t ∈ kind.parts, Mentions name t := by
  constructor
  · rintro (_ | ⟨_, ht, h⟩)
    · exact .inl rfl
    · exact .inr ⟨_, ht, h⟩
  · rintro (rfl | ⟨t, ht, h⟩)
    · exact .here nullable
    · exact .inside nullable ht h

theorem allClosed_iff (types : List DataType) :
    allClosed types = true ↔ ∀ t ∈ types, t.isClosed = true := by
  induction types with
  | nil => simp [allClosed]
  | cons t types ih => rw [allClosed, Bool.and_eq_true, ih, List.forall_mem_cons]

theorem isClosed_of_parts {kind : TypeKind DataType} (hkind : ∀ name, kind ≠ .template name)
    (nullable : Bool) :
    (mk kind nullable).isClosed = true ↔ ∀ t ∈ kind.parts, t.isClosed = true := by
  cases kind with
  | template name => exact (hkind name rfl).elim
  | object | union => exact allClosed_iff _
  | _ => simp [isClosed, TypeKind.parts]

/-- A type is closed if no template parameter stands in it. -/
theorem isClosed_of_not_mentions {t : DataType} (h : ∀ name, ¬t.Mentions name) :
    t.isClosed = true := by
  induction t using parts_induction with
  | mk kind nullable ih =>
    have hkind : ∀ name, kind ≠ .template name := by
      rintro name rfl
      exact h name (.here nullable)
    refine (isClosed_of_parts hkind nullable).mpr fun t ht ↦ ?_
    exact ih t ht fun name hname ↦ h name (.inside nullable ht hname)

theorem isUnionClosed_isClosed : IsUnionClosed fun t ↦ t.isClosed = true where
  null := rfl
  mixed := rfl
  withNullable {kind _} h _ _ := by
    cases kind <;> exact h
  of_union h := (allClosed_iff _).mp h
  orNull_union {members _} h := by
    have hall := (allClosed_iff members).mp h
    rw [orNull]
    split
    · exact h
    · refine (allClosed_iff _).mpr ?_
      exact List.forall_mem_append.mpr ⟨hall, List.forall_mem_singleton.mpr rfl⟩
  unionOf _ h _ _ := (allClosed_iff _).mpr h

/-! ## Substitution -/

/-- What substitution keeps: `Q` is known of the type, and `P` is to hold of what becomes of it.
Types without parts stay as they are unless they are bound; those with parts are put together
again. -/
theorem IsUnionClosed.substituteIn {P Q : DataType → Prop} (c : IsUnionClosed P)
    {bindings : Entries String DataType}
    (hparts : ∀ {kind nullable}, Q (DataType.mk kind nullable) → ∀ t ∈ kind.parts, Q t)
    (hkept : ∀ {kind nullable}, Q (DataType.mk kind nullable) → kind.parts = [] →
      (∀ name, kind = .template name → Entries.find? bindings name = none) →
        P (DataType.mk kind nullable))
    (hmade : ∀ kind nullable, IsPlain kind → kind.parts ≠ [] → (∀ t ∈ kind.parts, P t) →
      P (DataType.mk kind nullable))
    (hbound : ∀ name u, Entries.find? bindings name = some u → P u) {t : DataType} :
    Q t → P (t.substituteIn bindings) := by
  induction t using parts_induction with
  | mk kind nullable ih =>
    intro h
    have hall : ∀ u ∈ kind.parts.map (·.substituteIn bindings), P u := by
      intro u hu
      obtain ⟨v, hv, rfl⟩ := List.mem_map.mp hu
      exact ih v hv (hparts h v hv)
    cases kind with
    | scalar | null | mixed | enum => exact hkept h rfl (by rintro _ ⟨⟩)
    | template name =>
      rw [DataType.substituteIn, DataType.bound]
      split
      · next u hu => exact c.nullableIf (hbound name u hu) nullable
      · next hnone => exact hkept h rfl (by rintro _ ⟨⟩; exact hnone)
    | list item =>
      rw [DataType.substituteIn]
      exact c.nullableIf (hmade (.list _) false trivial (List.cons_ne_nil _ _) hall) nullable
    | dict key value =>
      rw [DataType.substituteIn]
      exact c.nullableIf (hmade (.dict _ _) false trivial (List.cons_ne_nil _ _) hall) nullable
    | object className generics =>
      cases generics with
      | nil =>
        rw [DataType.substituteIn]
        exact c.bound (hbound className) (hkept h rfl (by rintro _ ⟨⟩)) nullable
      | cons u types =>
        rw [DataType.substituteIn, substituteInAll_eq_map, ← List.map_cons]
        exact c.nullableIf (hmade (.object className _) false trivial (List.cons_ne_nil _ _) hall)
          nullable
    | union members =>
      rw [DataType.substituteIn, substituteInAll_eq_map]
      exact c.unionOrMember hall

theorem WellFormed.substitute {t : DataType} {bindings : Entries String DataType}
    (h : WellFormed t) (hb : ∀ name u, Entries.find? bindings name = some u → WellFormed u) :
    WellFormed (t.substitute bindings) := by
  unfold DataType.substitute
  split
  · exact h
  · exact WellFormed.isUnionClosed.substituteIn WellFormed.parts (fun h _ _ ↦ h)
      (fun _ nullable hp _ hall ↦ .plain nullable hp hall) hb h

/-- With every template parameter of a type bound to a closed type, none is left. -/
theorem isClosed_substitute {t : DataType} {bindings : Entries String DataType}
    (ht : ∀ name, t.Mentions name → ∃ u, Entries.find? bindings name = some u)
    (hb : ∀ name u, Entries.find? bindings name = some u → u.isClosed = true) :
    (t.substitute bindings).isClosed = true := by
  unfold DataType.substitute
  split
  · next hempty =>
    -- With no bindings, there is no parameter to bind either.
    refine isClosed_of_not_mentions fun name hname ↦ ?_
    obtain ⟨u, hu⟩ := ht name hname
    rw [List.isEmpty_iff.mp hempty] at hu
    cases hu
  · refine isUnionClosed_isClosed.substituteIn
      (Q := fun t ↦ ∀ name, t.Mentions name → ∃ u, Entries.find? bindings name = some u)
      (fun h u hu name hname ↦ h name (.inside _ hu hname)) ?_ ?_ hb ht
    · intro kind nullable h hnil hfree
      have hkind : ∀ name, kind ≠ .template name := by
        rintro name rfl
        obtain ⟨u, hu⟩ := h name (.here nullable)
        rw [hfree name rfl] at hu
        cases hu
      exact (isClosed_of_parts hkind nullable).mpr (by simp [hnil])
    · intro kind nullable _ hne hall
      have hkind : ∀ name, kind ≠ .template name := by
        rintro name rfl
        exact hne rfl
      exact (isClosed_of_parts hkind nullable).mpr hall

/-! ## Accepting `null` -/

theorem isNullable_orNull (t : DataType) : t.orNull.isNullable = true := by
  obtain ⟨kind, nullable⟩ := t
  cases kind with
  | union members =>
    by_cases hnull : members.any isNull = true
    · rw [orNull, if_pos hnull]
      exact hnull
    · rw [orNull, if_neg hnull]
      exact List.any_eq_true.mpr ⟨null, by simp, rfl⟩
  | _ => rfl

theorem isNullable_nullableIf (t : DataType) : (t.nullableIf true).isNullable = true :=
  isNullable_orNull t

/-- Only `null` equals `null`. -/
theorem eq_null_of_beq {t : DataType} (h : (t == null) = true) : t = null := by
  obtain ⟨kind, nullable⟩ := t
  obtain ⟨hn, hkind⟩ := Bool.and_eq_true_iff.mp (beq_mk ▸ h : (nullable == true && _) = true)
  cases kind with
  | null => rw [beq_iff_eq.mp hn, null]
  | _ => cases hkind

theorem isNullable_unionOrMember {types : List DataType} (h : null ∈ types) :
    (unionOrMember types).isNullable = true := by
  have hmem : null ∈ flatten types := by
    have hleaf : null ∈ leavesOfAll types := by
      rw [leavesOfAll_eq_flatMap]
      exact List.mem_flatMap.mpr ⟨null, h, List.mem_singleton_self _⟩
    obtain ⟨u, hu, heq⟩ := exists_beq_mem_distinct hleaf
    exact eq_null_of_beq heq ▸ hu
  unfold unionOrMember
  split
  · rfl
  · next t ht =>
    rw [ht, List.mem_singleton] at hmem
    rw [← hmem]
    rfl
  · exact List.any_eq_true.mpr ⟨null, hmem, rfl⟩

theorem isNullable_bound {bindings : Entries String DataType} {name : String} {u : DataType}
    (h : u.isNullable = true) : (bound bindings name true u).isNullable = true := by
  unfold bound
  split
  · exact isNullable_nullableIf _
  · exact h

/-- A well-formed type that accepts `null` still does after a substitution. -/
theorem WellFormed.isNullable_substitute {t : DataType} (h : WellFormed t)
    (hnull : t.isNullable = true) (bindings : Entries String DataType) :
    (t.substitute bindings).isNullable = true := by
  unfold DataType.substitute
  split
  · exact hnull
  cases h with
  | null | mixed => rfl
  | @plain kind nullable hp =>
    obtain rfl : nullable = true := hnull
    cases kind with
    | scalar | enum => rfl
    | list | dict =>
      rw [substituteIn]
      exact isNullable_nullableIf _
    | template => exact isNullable_bound rfl
    | object className generics =>
      cases generics with
      | nil => exact isNullable_bound rfl
      | cons =>
        rw [substituteIn]
        exact isNullable_nullableIf _
    | _ => exact hp.elim
  | @union members _ hwf =>
    -- The members are put together again, and `null` stays among them.
    obtain ⟨m, hm, hmnull⟩ := List.any_eq_true.mp (hnull : members.any isNull = true)
    have hm' : m = DataType.null := by
      cases hwf m hm with
      | null => rfl
      | @plain kind _ hp => cases kind <;> first | exact hp.elim | cases hmnull
      | mixed | union => cases hmnull
    rw [unionOf, substituteIn, substituteInAll_eq_map]
    exact isNullable_unionOrMember (List.mem_map.mpr ⟨m, hm, by rw [hm']; rfl⟩)

/-! ## All operations -/

/-- The resolver answers well-formed types. Unions, `orNull`, `nonNull` and substitution keep types
well formed; `orNull` accepts `null`, and `nonNull` is no union with a member `null`. A substitution
keeps `null` accepted, and closes a type if it binds all its template parameters to closed types. -/
theorem operations_wellFormed :
    (∀ scope text t, TypeText.resolve scope text = .ok t → WellFormed t) ∧
    (∀ members t, (∀ m ∈ members, WellFormed m) → DataType.union members = .ok t → WellFormed t) ∧
    (∀ t, WellFormed t → WellFormed t.orNull ∧ t.orNull.isNullable = true) ∧
    (∀ t, WellFormed t → WellFormed t.nonNull ∧
      ∀ members, t.nonNull.kind = .union members → ∀ m ∈ members, m.isNull = false) ∧
    ∀ t bindings, WellFormed t →
      (∀ name u, Entries.find? bindings name = some u → WellFormed u) →
        WellFormed (t.substitute bindings) ∧
        (t.isNullable = true → (t.substitute bindings).isNullable = true) ∧
        ((∀ name, t.Mentions name → ∃ u, Entries.find? bindings name = some u) →
          (∀ name u, Entries.find? bindings name = some u → u.isClosed = true) →
            (t.substitute bindings).isClosed = true) := by
  refine ⟨?_, ?_, ?_, ?_, ?_⟩
  · intro scope text t h
    exact (settled_of_resolve h).wellFormed
  · intro members t hall h
    unfold DataType.union at h
    split at h
    · next u hu =>
      cases h
      exact WellFormed.isUnionClosed.union? hall hu
    · cases h
  · intro t h
    exact ⟨WellFormed.isUnionClosed.orNull h, isNullable_orNull t⟩
  · intro t h
    exact ⟨WellFormed.isUnionClosed.nonNull h, fun members hkind ↦ h.isNull_of_mem_nonNull hkind⟩
  · intro t bindings h hb
    exact ⟨h.substitute hb, fun hnull ↦ h.isNullable_substitute hnull bindings, isClosed_substitute⟩

/-- A template parameter is bound to a union. The parameter is a member of a union itself, so the
members of the two are put together, and `null` and `int`, which both have, are kept once. -/
theorem operations_wellFormed_template :
    let scope : TypeText.Scope := ⟨fun _ ↦ none, ["T"]⟩
    let t := mk (.union [template "T", null, scalar .int]) true
    let u := mk (.union [scalar .int, null, scalar .string]) true
    let all := mk (.union [template "T", null, scalar .int, scalar .string]) true
    let made := mk (.union [scalar .int, null, scalar .string]) true
    (TypeText.resolve scope "T|null|int" = .ok t ∧ WellFormed t) ∧
    (TypeText.resolve scope "int|null|string" = .ok u ∧ WellFormed u) ∧
    (DataType.union [t, u] = .ok all ∧ WellFormed all) ∧
    (WellFormed t.orNull ∧ t.orNull.isNullable = true) ∧
    (t.nonNull.kind = .union [template "T", scalar .int] ∧
      ∀ m ∈ [template "T", scalar .int], m.isNull = false) ∧
    t.substitute [("T", u)] = made ∧ WellFormed made ∧ made.isNullable = true ∧
      made.isClosed = true := by
  intro scope t u all made
  obtain ⟨hresolve, hunion, horNull, hnonNull, hsubstitute⟩ := operations_wellFormed
  have htext : TypeText.resolve scope "T|null|int" = .ok t := rfl
  have hutext : TypeText.resolve scope "int|null|string" = .ok u := rfl
  have hjoined : DataType.union [t, u] = .ok all := rfl
  have hkind : t.nonNull.kind = .union [template "T", scalar .int] := rfl
  have hmade : t.substitute [("T", u)] = made := rfl
  have ht : WellFormed t := hresolve scope _ t htext
  have hu : WellFormed u := hresolve scope _ u hutext
  have hbound : ∀ name v, Entries.find? [("T", u)] name = some v → v = u := by
    intro name v h
    rw [Entries.find?] at h
    split at h
    · exact (Option.some.inj h).symm
    · cases h
  have hset := hsubstitute t [("T", u)] ht fun name v h ↦ hbound name v h ▸ hu
  rw [hmade] at hset
  refine ⟨⟨htext, ht⟩, ⟨hutext, hu⟩, ⟨hjoined, hunion [t, u] all ?_ hjoined⟩, horNull t ht,
    ⟨hkind, (hnonNull t ht).2 _ hkind⟩, hmade, hset.1, hset.2.1 rfl, hset.2.2 ?_ ?_⟩
  · simp [ht, hu]
  · intro name hname
    have hname : "T" = name := by
      simpa [t, mentions_mk, template, null, scalar, TypeKind.parts] using hname
    exact ⟨u, hname ▸ rfl⟩
  · intro name v h
    rw [hbound name v h]
    rfl

end DataType

end TypedJson
