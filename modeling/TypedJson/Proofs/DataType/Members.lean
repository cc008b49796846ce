import Mathlib.Data.List.Pairwise
import TypedJson.DataType.Generics
import TypedJson.Proofs.DataType.Equality

/-!
# Members of unions

A union has at least two members. Each of them is a leaf, that is, neither a union nor nullable
unless it is `null` or `mixed`, and no two of them are equal. `leaves` establishes the first part
and `distinct` the second; both leave a list of leaves without equal ones as it is.

Unions are put together in several ways: from any types, with `null` or without it, and again
wherever types are put in the place of template parameters. `IsUnionClosed` says what a property of
types needs so that none of them leads out of it.
-/

namespace TypedJson

namespace DataType

/-! ## Leaves -/

/-- A kind that accepts `null` only if the type says so. -/
def IsPlain : TypeKind DataType → Prop
  | .union _ | .null | .mixed => False
  | _ => True

/-- A type that stands in a union as it is. -/
def IsLeaf : DataType → Prop
  | mk (.union _) _ => False
  | mk .null _ | mk .mixed _ => True
  | mk _ nullable => nullable = false

theorem isLeaf_of_isPlain {kind : TypeKind DataType} (h : IsPlain kind) :
    IsLeaf (mk kind false) := by
  cases kind <;> trivial

theorem not_isUnion_of_isPlain {kind : TypeKind DataType} (h : IsPlain kind) : ¬kind.IsUnion := by
  intro hunion
  cases kind <;> first | exact h | exact hunion

theorem leaves_of_isPlain {kind : TypeKind DataType} (h : IsPlain kind) (nullable : Bool) :
    leaves (mk kind nullable) = if nullable then [mk kind false, null] else [mk kind false] := by
  cases kind <;> first | exact h.elim | rfl

theorem orNull_of_isPlain {kind : TypeKind DataType} (h : IsPlain kind) (nullable : Bool) :
    orNull (mk kind nullable) = mk kind true := by
  cases kind <;> first | exact h.elim | rfl

theorem nonNull_of_isPlain {kind : TypeKind DataType} (h : IsPlain kind) (nullable : Bool) :
    nonNull (mk kind nullable) = mk kind false := by
  cases kind <;> first | exact h.elim | rfl

theorem leaves_of_isLeaf {t : DataType} (h : IsLeaf t) : leaves t = [t] := by
  obtain ⟨kind, nullable⟩ := t
  cases kind <;> simp_all [IsLeaf, leaves]

theorem leavesOfAll_of_isLeaf {types : List DataType} (h : ∀ t ∈ types, IsLeaf t) :
    leavesOfAll types = types := by
  induction types with
  | nil => rfl
  | cons t types ih =>
    rw [leavesOfAll, leaves_of_isLeaf (h t (by simp)), ih fun u hu ↦ h u (by simp [hu])]
    rfl

theorem leavesOfAll_eq_flatMap (types : List DataType) :
    leavesOfAll types = types.flatMap leaves := by
  induction types with
  | nil => rfl
  | cons t types ih => rw [leavesOfAll, ih, List.flatMap_cons]

/-! ## Distinct types -/

/-- No type equals an earlier one. -/
def AreDistinct (types : List DataType) : Prop := types.Pairwise fun a b ↦ (a == b) = false

theorem pushNew_areDistinct {flat : List DataType} (h : AreDistinct flat) (t : DataType) :
    AreDistinct (pushNew flat t) := by
  unfold pushNew
  split
  · exact h
  · next hnew =>
    refine List.pairwise_append.mpr ⟨h, List.pairwise_singleton _ _, ?_⟩
    rintro a ha b hb
    rw [List.mem_singleton.mp hb]
    exact Bool.eq_false_iff.mpr fun hab ↦ hnew (List.any_eq_true.mpr ⟨a, ha, hab⟩)

theorem mem_pushNew {flat : List DataType} {t u : DataType} (h : u ∈ pushNew flat t) :
    u ∈ flat ∨ u = t := by
  unfold pushNew at h
  split at h
  · exact .inl h
  · simpa using h

theorem foldl_pushNew_areDistinct {types flat : List DataType} (h : AreDistinct flat) :
    AreDistinct (types.foldl pushNew flat) := by
  induction types generalizing flat with
  | nil => exact h
  | cons t types ih => exact ih (pushNew_areDistinct h t)

theorem distinct_areDistinct (types : List DataType) : AreDistinct (distinct types) :=
  foldl_pushNew_areDistinct List.Pairwise.nil

theorem mem_foldl_pushNew {types flat : List DataType} {u : DataType}
    (h : u ∈ types.foldl pushNew flat) : u ∈ flat ∨ u ∈ types := by
  induction types generalizing flat with
  | nil => exact .inl h
  | cons t types ih =>
    rcases ih h with hu | hu
    · rcases mem_pushNew hu with hu | rfl
      · exact .inl hu
      · exact .inr (by simp)
    · exact .inr (by simp [hu])

theorem mem_of_mem_distinct {types : List DataType} {u : DataType} (h : u ∈ distinct types) :
    u ∈ types := by
  simpa using mem_foldl_pushNew h

theorem subset_foldl_pushNew (types flat : List DataType) : flat ⊆ types.foldl pushNew flat := by
  induction types generalizing flat with
  | nil => exact List.Subset.refl flat
  | cons t types ih =>
    have hpush : flat ⊆ pushNew flat t := by
      unfold pushNew
      split
      · exact List.Subset.refl flat
      · exact List.subset_append_left flat [t]
    exact List.Subset.trans hpush (ih (pushNew flat t))

theorem exists_beq_mem_pushNew (flat : List DataType) (t : DataType) :
    ∃ u ∈ pushNew flat t, (u == t) = true := by
  unfold pushNew
  split
  · next hany => exact List.any_eq_true.mp hany
  · exact ⟨t, by simp, beq_refl t⟩

theorem exists_beq_mem_foldl_pushNew {types : List DataType} {t : DataType} (h : t ∈ types)
    (flat : List DataType) : ∃ u ∈ types.foldl pushNew flat, (u == t) = true := by
  induction types generalizing flat with
  | nil => exact absurd h List.not_mem_nil
  | cons v types ih =>
    rcases List.mem_cons.mp h with rfl | h
    · obtain ⟨u, hu, hut⟩ := exists_beq_mem_pushNew flat t
      exact ⟨u, subset_foldl_pushNew types (pushNew flat t) hu, hut⟩
    · exact ih h (pushNew flat v)

/-- Each type is kept, or an equal one in its place. -/
theorem exists_beq_mem_distinct {types : List DataType} {t : DataType} (h : t ∈ types) :
    ∃ u ∈ distinct types, (u == t) = true :=
  exists_beq_mem_foldl_pushNew h []

theorem isNull_of_beq {t u : DataType} (h : (t == u) = true) : t.isNull = u.isNull := by
  obtain ⟨a, m⟩ := t
  obtain ⟨b, n⟩ := u
  refine beq_cases h ?_ ?_
  · rintro as bs rfl rfl - - -
    rfl
  · rintro - - - hhead -
    cases a <;> cases b <;> first | rfl | cases hhead

theorem beq_null_of_isNull {t : DataType} (h : t.isNull = false) : (t == null) = false := by
  obtain ⟨kind, nullable⟩ := t
  show (nullable == true && sameKind false kind .null) = false
  have hkind : sameKind false kind .null = false := by
    cases kind with
    | null => cases h
    | _ => rfl
  rw [hkind, Bool.and_false]

/-- Types that are distinct already are taken over one by one. -/
theorem foldl_pushNew_of_areDistinct {types flat : List DataType}
    (h : AreDistinct (flat ++ types)) : types.foldl pushNew flat = flat ++ types := by
  induction types generalizing flat with
  | nil => simp
  | cons t types ih =>
    have hnew : flat.any (· == t) = false := by
      refine List.any_eq_false.mpr fun a ha ↦ ?_
      rw [(List.pairwise_append.mp h).2.2 a ha t (by simp)]
      exact Bool.false_ne_true
    rw [List.foldl_cons, pushNew, hnew, if_neg Bool.false_ne_true,
      ih (by simpa using h), List.append_assoc, List.singleton_append]

theorem distinct_of_areDistinct {types : List DataType} (h : AreDistinct types) :
    distinct types = types := by
  have hall : types.foldl pushNew [] = [] ++ types := foldl_pushNew_of_areDistinct h
  exact hall

/-- A list of distinct leaves is flat. -/
theorem flatten_of_isLeaf {types : List DataType} (hleaf : ∀ t ∈ types, IsLeaf t)
    (h : AreDistinct types) : flatten types = types := by
  rw [flatten, leavesOfAll_of_isLeaf hleaf, distinct_of_areDistinct h]

theorem unionOrMember_of_two_le {types : List DataType} (h : 2 ≤ (flatten types).length) :
    unionOrMember types = unionOf (flatten types) := by
  unfold unionOrMember
  split
  · next hnil => exact absurd h (by simp [hnil])
  · next hone => exact absurd h (by simp [hone])
  · rfl

/-- Distinct leaves are the members of their union. -/
theorem unionOrMember_of_isLeaf {members : List DataType} (hlen : 2 ≤ members.length)
    (hleaf : ∀ m ∈ members, IsLeaf m) (hdist : AreDistinct members) :
    unionOrMember members = unionOf members := by
  have hflat : flatten members = members := flatten_of_isLeaf hleaf hdist
  rw [unionOrMember_of_two_le (hflat.symm ▸ hlen), hflat]

theorem eq_or_eq_of_mem_leaves {kind : TypeKind DataType} (hp : IsPlain kind) {nullable : Bool}
    {m : DataType} (h : m ∈ leaves (mk kind nullable)) : m = mk kind false ∨ m = null := by
  rw [leaves_of_isPlain hp] at h
  cases nullable
  · exact .inl (List.mem_singleton.mp h)
  · simpa using h

theorem exists_of_mem_flatten {types : List DataType} {m : DataType} (h : m ∈ flatten types) :
    ∃ t ∈ types, m ∈ leaves t := by
  have hmem : m ∈ leavesOfAll types := mem_of_mem_distinct h
  rw [leavesOfAll_eq_flatMap] at hmem
  exact List.mem_flatMap.mp hmem

/-- What a type contributes to a union can stand there. -/
theorem isLeaf_of_mem_leaves (t : DataType) : ∀ m ∈ leaves t, IsLeaf m := by
  induction t using parts_induction with
  | mk kind nullable ih =>
    intro m hm
    by_cases hp : IsPlain kind
    · rcases eq_or_eq_of_mem_leaves hp hm with rfl | rfl
      · exact isLeaf_of_isPlain hp
      · trivial
    · cases kind with
      | null | mixed =>
        rw [List.mem_singleton.mp hm]
        trivial
      | union members =>
        obtain ⟨t, ht, hmt⟩ : ∃ t ∈ members, m ∈ t.leaves := exists_of_mem_flatten hm
        exact ih t ht m hmt
      | _ => exact (hp trivial).elim

theorem isLeaf_of_mem_flatten {types : List DataType} : ∀ m ∈ flatten types, IsLeaf m := by
  intro m hm
  obtain ⟨t, -, hmt⟩ := exists_of_mem_flatten hm
  exact isLeaf_of_mem_leaves t m hmt

/-- Distinct members with `null` behind them, if it is not among them. -/
theorem AreDistinct.concat_null {members : List DataType} (h : AreDistinct members)
    (hnull : ¬members.any isNull = true) : AreDistinct (members ++ [null]) := by
  refine List.pairwise_append.mpr ⟨h, List.pairwise_singleton _ _, ?_⟩
  intro a ha b hb
  rw [List.mem_singleton.mp hb]
  exact beq_null_of_isNull
    (Bool.eq_false_iff.mpr fun hn ↦ hnull (List.any_eq_true.mpr ⟨a, ha, hn⟩))

/-- Types of which no two are equal, in either order of comparing. -/
def AreUnequal (types : List DataType) : Prop :=
  types.Pairwise fun a b ↦ (a == b) = false ∧ (b == a) = false

namespace AreUnequal

variable {types others : List DataType}

theorem areDistinct (h : AreUnequal types) : AreDistinct types := h.imp And.left

theorem perm (h : AreUnequal types) (hperm : types.Perm others) : AreUnequal others :=
  hperm.pairwise h And.symm

theorem eq_of_beq (h : AreUnequal types) {t u : DataType} (ht : t ∈ types) (hu : u ∈ types)
    (heq : (t == u) = true) : t = u := by
  have : Std.Symm fun a b : DataType ↦ (a == b) = false ∧ (b == a) = false := ⟨fun _ _ ↦ And.symm⟩
  by_contra hne
  rw [(List.Pairwise.forall h ht hu hne).1] at heq
  cases heq

end AreUnequal

theorem AreDistinct.nodup {types : List DataType} (h : AreDistinct types) : types.Nodup :=
  h.imp fun {a b} hab heq ↦ by
    rw [heq, beq_refl] at hab
    cases hab

/-! ## Alternatives -/

/-- The members of a union, `null` apart. -/
def alternatives (t : DataType) : List DataType := t.members.filter fun m ↦ !m.isNull

theorem nonNull_unionOf {members : List DataType} (hleaf : ∀ m ∈ members, IsLeaf m)
    (hunequal : AreUnequal members) :
    (unionOf members).nonNull = match (unionOf members).alternatives with
      | [] => mixed
      | [t] => t
      | types => unionOf types := by
  have hkept : flatten (unionOf members).alternatives = (unionOf members).alternatives :=
    flatten_of_isLeaf (fun m hm ↦ hleaf m (List.mem_filter.mp hm).1) (hunequal.areDistinct.filter _)
  show unionOrMember (unionOf members).alternatives = _
  rw [unionOrMember]
  generalize flatten (unionOf members).alternatives = flat at hkept
  obtain rfl := hkept
  rfl

/-! ## What unions do not lead out of -/

/-- A property of types that is kept wherever unions are made and taken apart. -/
structure IsUnionClosed (P : DataType → Prop) : Prop where
  null : P null
  mixed : P mixed
  withNullable : ∀ {kind nullable}, P (mk kind nullable) → IsPlain kind → ∀ other, P (mk kind other)
  of_union : ∀ {members nullable}, P (mk (.union members) nullable) → ∀ m ∈ members, P m
  orNull_union : ∀ {members nullable}, P (mk (.union members) nullable) →
    P (orNull (mk (.union members) nullable))
  unionOf : ∀ {members}, 2 ≤ members.length → (∀ m ∈ members, P m) → (∀ m ∈ members, IsLeaf m) →
    AreDistinct members → P (unionOf members)

namespace IsUnionClosed

variable {P : DataType → Prop} (c : IsUnionClosed P)
include c

theorem leaves {t : DataType} : P t → ∀ m ∈ t.leaves, P m := by
  induction t using parts_induction with
  | mk kind nullable ih =>
    intro h m hm
    by_cases hp : IsPlain kind
    · rcases eq_or_eq_of_mem_leaves hp hm with rfl | rfl
      · exact c.withNullable h hp false
      · exact c.null
    · cases kind with
      | null | mixed => rwa [List.mem_singleton.mp hm]
      | union members =>
        obtain ⟨t, ht, hmt⟩ : ∃ t ∈ members, m ∈ t.leaves := exists_of_mem_flatten hm
        exact ih t ht (c.of_union h t ht) m hmt
      | _ => exact (hp trivial).elim

theorem flatten {types : List DataType} (h : ∀ t ∈ types, P t) :
    ∀ m ∈ DataType.flatten types, P m := by
  intro m hm
  obtain ⟨t, ht, hmt⟩ := exists_of_mem_flatten hm
  exact c.leaves (h t ht) m hmt

theorem union? {types : List DataType} {t : DataType} (h : ∀ u ∈ types, P u)
    (ht : DataType.union? types = some t) : P t := by
  by_cases hlen : (DataType.flatten types).length < 2
  · rw [DataType.union?, if_pos hlen] at ht
    cases ht
  · rw [DataType.union?, if_neg hlen] at ht
    rw [← Option.some.inj ht]
    exact c.unionOf (by omega) (c.flatten h) isLeaf_of_mem_flatten (distinct_areDistinct _)

theorem unionOrMember {types : List DataType} (h : ∀ t ∈ types, P t) :
    P (DataType.unionOrMember types) := by
  have hflat := c.flatten h
  unfold DataType.unionOrMember
  split
  · exact c.mixed
  · next heq => exact hflat _ (by simp [heq])
  · next flat hnil hone =>
    refine c.unionOf ?_ hflat isLeaf_of_mem_flatten (distinct_areDistinct _)
    match hf : DataType.flatten types with
    | [] => exact (hnil hf).elim
    | [_] => exact (hone _ hf).elim
    | _ :: _ :: _ => simp

theorem orNull {t : DataType} (h : P t) : P t.orNull := by
  obtain ⟨kind, nullable⟩ := t
  by_cases hp : IsPlain kind
  · rw [orNull_of_isPlain hp]
    exact c.withNullable h hp true
  · cases kind with
    | null => exact c.null
    | mixed => exact c.mixed
    | union => exact c.orNull_union h
    | _ => exact (hp trivial).elim

theorem nullableIf {t : DataType} (h : P t) (flag : Bool) : P (t.nullableIf flag) := by
  cases flag
  · exact h
  · exact c.orNull h

theorem nonNull {t : DataType} (h : P t) : P t.nonNull := by
  obtain ⟨kind, nullable⟩ := t
  by_cases hp : IsPlain kind
  · rw [nonNull_of_isPlain hp]
    exact c.withNullable h hp false
  · cases kind with
    | null | mixed => exact h
    | union => exact c.unionOrMember fun m hm ↦ c.of_union h m (List.mem_filter.mp hm).1
    | _ => exact (hp trivial).elim

theorem bound {bindings : Entries String DataType} {name : String} {unbound : DataType}
    (hb : ∀ t, Entries.find? bindings name = some t → P t) (hu : P unbound) (nullable : Bool) :
    P (DataType.bound bindings name nullable unbound) := by
  unfold DataType.bound
  split
  · next t ht => exact c.nullableIf (hb t ht) nullable
  · exact hu

end IsUnionClosed

end DataType

end TypedJson
