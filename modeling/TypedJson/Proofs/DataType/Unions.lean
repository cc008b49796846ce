import TypedJson.Proofs.DataType.WellFormed

/-!
# Unions by their leaves

A union is put together from types that may be unions or nullable themselves. What counts of them is
the set of their leaves: a union is opened, and a type that accepts `null` on top of something else
is that type and `null`. `HasLeaf` says so without an order and without leaving anything out, and
two lists of types have the same leaves if each leaf of one equals a leaf of the other.

A union is determined, up to equality, by the set of leaves that its members have, and there is one
exactly if the set has two elements (`union_of_sameLeaves`). So members may be given in any order,
in groups that are unions already, and several times.

The proof counts. The members of the union are leaves, no two of them equal, and each leaf equals
one of them; so for the same leaves there are as many members, and the ones are found in the others.
-/

namespace TypedJson

namespace DataType

/-! ## Leaves -/

/-- The leaves of a type. A union has those of its members, a type that is marked nullable is itself
without the mark and `null`, and `null` and `mixed`, which accept `null` anyway, are their own. -/
inductive HasLeaf : DataType → DataType → Prop
  | null (nullable : Bool) : HasLeaf (mk .null nullable) (mk .null nullable)
  | mixed (nullable : Bool) : HasLeaf (mk .mixed nullable) (mk .mixed nullable)
  | plain {kind : TypeKind DataType} (nullable : Bool) :
    IsPlain kind → HasLeaf (mk kind nullable) (mk kind false)
  | nullOf {kind : TypeKind DataType} : IsPlain kind → HasLeaf (mk kind true) DataType.null
  | member {members : List DataType} {t m : DataType} (nullable : Bool) :
    t ∈ members → HasLeaf t m → HasLeaf (mk (.union members) nullable) m

/-- The leaves of several types. -/
def HaveLeaf (types : List DataType) (m : DataType) : Prop := ∃ t ∈ types, t.HasLeaf m

/-- Each leaf of some types equals one of the others. -/
def SameLeaves (as bs : List DataType) : Prop :=
  (∀ m, HaveLeaf as m → ∃ n, HaveLeaf bs n ∧ (n == m) = true) ∧
    ∀ n, HaveLeaf bs n → ∃ m, HaveLeaf as m ∧ (m == n) = true

variable {as bs cs ds types : List DataType} {t u m : DataType}

theorem hasLeaf_of_mem_leaves (t : DataType) : ∀ m ∈ t.leaves, t.HasLeaf m := by
  induction t using parts_induction with
  | mk kind nullable ih =>
    intro m hm
    by_cases hp : IsPlain kind
    · rw [leaves_of_isPlain hp] at hm
      by_cases hn : nullable = true
      · rw [if_pos hn] at hm
        subst hn
        rcases List.mem_cons.mp hm with rfl | hm
        · exact .plain true hp
        · exact List.mem_singleton.mp hm ▸ .nullOf hp
      · rw [if_neg hn] at hm
        exact List.mem_singleton.mp hm ▸ .plain nullable hp
    · cases kind with
      | null => exact List.mem_singleton.mp hm ▸ .null nullable
      | mixed => exact List.mem_singleton.mp hm ▸ .mixed nullable
      | union members =>
        obtain ⟨t, ht, hmt⟩ : ∃ t ∈ members, m ∈ t.leaves := exists_of_mem_flatten hm
        exact .member nullable ht (ih t ht m hmt)
      | _ => exact (hp trivial).elim

theorem exists_mem_flatten_of_leaves (ht : t ∈ types) (hm : m ∈ t.leaves) :
    ∃ n ∈ flatten types, (n == m) = true := by
  have hall : m ∈ leavesOfAll types := by
    rw [leavesOfAll_eq_flatMap]
    exact List.mem_flatMap.mpr ⟨t, ht, hm⟩
  exact exists_beq_mem_distinct hall

/-- Each leaf is among those collected, or an equal one in its place. -/
theorem HasLeaf.exists_mem_leaves (h : t.HasLeaf m) : ∃ n ∈ t.leaves, (n == m) = true := by
  induction h with
  | null nullable => exact ⟨_, List.mem_singleton_self _, beq_refl _⟩
  | mixed nullable => exact ⟨_, List.mem_singleton_self _, beq_refl _⟩
  | @plain kind nullable hp =>
    refine ⟨mk kind false, ?_, beq_refl _⟩
    rw [leaves_of_isPlain hp]
    split <;> exact List.mem_cons_self
  | nullOf hp =>
    refine ⟨DataType.null, ?_, beq_refl _⟩
    rw [leaves_of_isPlain hp, if_pos rfl]
    exact List.mem_cons_of_mem _ (List.mem_singleton_self _)
  | member nullable ht _ ih =>
    obtain ⟨n, hn, hnm⟩ := ih
    obtain ⟨p, hp, hpn⟩ := exists_mem_flatten_of_leaves ht hn
    exact ⟨p, hp, beq_trans hpn hnm⟩

theorem haveLeaf_of_mem_flatten (h : m ∈ flatten types) : HaveLeaf types m := by
  obtain ⟨t, ht, hmt⟩ := exists_of_mem_flatten h
  exact ⟨t, ht, hasLeaf_of_mem_leaves t m hmt⟩

theorem HaveLeaf.exists_mem_flatten (h : HaveLeaf types m) :
    ∃ n ∈ flatten types, (n == m) = true := by
  obtain ⟨t, ht, hm⟩ := h
  obtain ⟨n, hn, hnm⟩ := hm.exists_mem_leaves
  obtain ⟨p, hp, hpn⟩ := exists_mem_flatten_of_leaves ht hn
  exact ⟨p, hp, beq_trans hpn hnm⟩

/-- What can stand in a union is its only leaf. -/
theorem hasLeaf_of_isLeaf (h : IsLeaf t) : t.HasLeaf m ↔ m = t := by
  constructor
  · intro hm
    cases hm with
    | null | mixed => rfl
    | @plain kind nullable hp =>
      have hn : nullable = false := by
        cases kind <;> first | exact hp.elim | exact h
      rw [hn]
    | @nullOf kind hp => cases kind <;> first | exact hp.elim | cases h
    | member => exact h.elim
  · rintro rfl
    exact hasLeaf_of_mem_leaves m m (leaves_of_isLeaf h ▸ List.mem_singleton_self m)

theorem hasLeaf_union {members : List DataType} {nullable : Bool} :
    (mk (.union members) nullable).HasLeaf m ↔ HaveLeaf members m := by
  constructor
  · rintro (_ | _ | ⟨_, hp⟩ | hp | ⟨_, ht, hm⟩)
    · exact hp.elim
    · exact hp.elim
    · exact ⟨_, ht, hm⟩
  · rintro ⟨t, ht, hm⟩
    exact .member nullable ht hm

theorem IsUnionClosed.hasLeaf {P : DataType → Prop} (c : IsUnionClosed P) (h : t.HasLeaf m) :
    P t → P m := by
  induction h with
  | null | mixed => exact id
  | plain nullable hp => exact fun ht ↦ c.withNullable ht hp false
  | nullOf => exact fun _ ↦ c.null
  | member nullable ht _ ih => exact fun hunion ↦ ih (c.of_union hunion _ ht)

theorem haveLeaf_singleton : HaveLeaf [t] m ↔ t.HasLeaf m := by
  simp [HaveLeaf]

theorem union_eq_ok_iff :
    union types = .ok t ↔ 2 ≤ (flatten types).length ∧ unionOf (flatten types) = t := by
  by_cases hlen : (flatten types).length < 2
  · rw [union, union?, if_pos hlen]
    simp [Nat.not_le.mpr hlen]
  · rw [union, union?, if_neg hlen]
    simp [Nat.not_lt.mp hlen]

theorem exists_union_eq_error_iff :
    (∃ e, union types = .error e) ↔ (flatten types).length < 2 := by
  by_cases hlen : (flatten types).length < 2
  · rw [union, union?, if_pos hlen]
    simp [hlen]
  · rw [union, union?, if_neg hlen]
    simp [hlen]

/-! ## The same leaves -/

namespace SameLeaves

theorem refl (types : List DataType) : SameLeaves types types :=
  ⟨fun m hm ↦ ⟨m, hm, beq_refl m⟩, fun m hm ↦ ⟨m, hm, beq_refl m⟩⟩

theorem symm (h : SameLeaves as bs) : SameLeaves bs as := And.symm h

theorem trans (h : SameLeaves as bs) (h' : SameLeaves bs cs) : SameLeaves as cs := by
  constructor
  · intro m hm
    obtain ⟨n, hn, hnm⟩ := h.1 m hm
    obtain ⟨p, hp, hpn⟩ := h'.1 n hn
    exact ⟨p, hp, beq_trans hpn hnm⟩
  · intro m hm
    obtain ⟨n, hn, hnm⟩ := h'.2 m hm
    obtain ⟨p, hp, hpn⟩ := h.2 n hn
    exact ⟨p, hp, beq_trans hpn hnm⟩

theorem append (h : SameLeaves as bs) (h' : SameLeaves cs ds) :
    SameLeaves (as ++ cs) (bs ++ ds) := by
  have key : ∀ {as bs cs ds : List DataType}, SameLeaves as bs → SameLeaves cs ds →
      ∀ m, HaveLeaf (as ++ cs) m → ∃ n, HaveLeaf (bs ++ ds) n ∧ (n == m) = true := by
    rintro as bs cs ds h h' m ⟨t, ht, hm⟩
    rcases List.mem_append.mp ht with ht | ht
    · obtain ⟨n, ⟨u, hu, hn⟩, hnm⟩ := h.1 m ⟨t, ht, hm⟩
      exact ⟨n, ⟨u, List.mem_append_left ds hu, hn⟩, hnm⟩
    · obtain ⟨n, ⟨u, hu, hn⟩, hnm⟩ := h'.1 m ⟨t, ht, hm⟩
      exact ⟨n, ⟨u, List.mem_append_right bs hu, hn⟩, hnm⟩
  exact ⟨key h h', key h.symm h'.symm⟩

/-- Neither the order of types matters nor how often each is given. -/
theorem of_mem_iff (h : ∀ t, t ∈ as ↔ t ∈ bs) : SameLeaves as bs := by
  constructor
  · rintro m ⟨t, ht, hm⟩
    exact ⟨m, ⟨t, (h t).mp ht, hm⟩, beq_refl m⟩
  · rintro m ⟨t, ht, hm⟩
    exact ⟨m, ⟨t, (h t).mpr ht, hm⟩, beq_refl m⟩

/-- Types have the same leaves if the leaves that are collected from them are found in each
other. -/
theorem iff_flatten : SameLeaves as bs ↔
    (∀ m ∈ flatten as, ∃ n ∈ flatten bs, (n == m) = true) ∧
      ∀ n ∈ flatten bs, ∃ m ∈ flatten as, (m == n) = true := by
  have found : ∀ {as bs : List DataType},
      (∀ m, HaveLeaf as m → ∃ n, HaveLeaf bs n ∧ (n == m) = true) ↔
        ∀ m ∈ flatten as, ∃ n ∈ flatten bs, (n == m) = true := by
    intro as bs
    constructor
    · intro h m hm
      obtain ⟨n, hn, hnm⟩ := h m (haveLeaf_of_mem_flatten hm)
      obtain ⟨p, hp, hpn⟩ := hn.exists_mem_flatten
      exact ⟨p, hp, beq_trans hpn hnm⟩
    · intro h m hm
      obtain ⟨n, hn, hnm⟩ := hm.exists_mem_flatten
      obtain ⟨p, hp, hpn⟩ := h n hn
      exact ⟨p, haveLeaf_of_mem_flatten hp, beq_trans hpn hnm⟩
  exact and_congr found found

/-- A union has the leaves of the types that it was made of. -/
theorem of_union (h : union types = .ok t) : SameLeaves [t] types := by
  obtain ⟨-, rfl⟩ := union_eq_ok_iff.mp h
  constructor
  · intro m hm
    obtain ⟨u, hu, hm⟩ := hasLeaf_union.mp (haveLeaf_singleton.mp hm)
    -- A member of the union is a leaf already, so nothing is opened a second time.
    obtain rfl := (hasLeaf_of_isLeaf (isLeaf_of_mem_flatten u hu)).mp hm
    exact ⟨m, haveLeaf_of_mem_flatten hu, beq_refl m⟩
  · intro m hm
    obtain ⟨n, hn, hnm⟩ := hm.exists_mem_flatten
    have hself : n.HasLeaf n := (hasLeaf_of_isLeaf (isLeaf_of_mem_flatten n hn)).mpr rfl
    exact ⟨n, haveLeaf_singleton.mpr (hasLeaf_union.mpr ⟨n, hn, hself⟩), hnm⟩

end SameLeaves

/-! ## Counting -/

theorem HasDistinctMembers.isUnionClosed : IsUnionClosed HasDistinctMembers where
  null := .of_parts_eq_nil id rfl
  mixed := .of_parts_eq_nil id rfl
  withNullable h hp other := .other other (not_isUnion_of_isPlain hp) h.parts
  of_union h := h.parts
  orNull_union {members nullable} h := by
    rw [DataType.orNull]
    split
    · exact .union _ h.areDistinct h.parts
    · next hnull =>
      refine .union _ (h.areDistinct.concat_null hnull) ?_
      refine List.forall_mem_append.mpr ⟨h.parts, List.forall_mem_singleton.mpr ?_⟩
      exact .of_parts_eq_nil id rfl
  unionOf _ h _ hdist := .union _ hdist h

/-- Distinct types that are found among others are no more than those. -/
theorem length_le_of_found (has : ∀ t ∈ as, HasDistinctMembers t)
    (hbs : ∀ t ∈ bs, HasDistinctMembers t) (hdist : AreDistinct as)
    (hfound : ∀ a ∈ as, ∃ b ∈ bs, (b == a) = true) : as.length ≤ bs.length := by
  have hcomm : ∀ a ∈ as, ∀ b ∈ bs, ((a == b) = true ↔ (b == a) = true) :=
    fun a ha b hb ↦ (has a ha).beq_comm (hbs b hb)
  obtain ⟨cs, hcs, hpaired⟩ := HasDistinctMembers.exists_subperm hdist hcomm hfound
  exact hpaired.length_eq ▸ hcs.length_le

theorem any_isNull_of_found (hfound : ∀ a ∈ as, ∃ b ∈ bs, (b == a) = true)
    (h : as.any isNull = true) : bs.any isNull = true := by
  obtain ⟨a, ha, hnull⟩ := List.any_eq_true.mp h
  obtain ⟨b, hb, hba⟩ := hfound a ha
  exact List.any_eq_true.mpr ⟨b, hb, (isNull_of_beq hba).trans hnull⟩

/-- Types with the same leaves have as many of them, and their unions are equal. -/
theorem flatten_of_sameLeaves (has : ∀ t ∈ as, HasDistinctMembers t)
    (hbs : ∀ t ∈ bs, HasDistinctMembers t) (h : SameLeaves as bs) :
    (flatten as).length = (flatten bs).length ∧
      (unionOf (flatten as) == unionOf (flatten bs)) = true := by
  obtain ⟨hleft, hright⟩ := SameLeaves.iff_flatten.mp h
  have has' := HasDistinctMembers.isUnionClosed.flatten has
  have hbs' := HasDistinctMembers.isUnionClosed.flatten hbs
  have hlen : (flatten as).length = (flatten bs).length :=
    Nat.le_antisymm (length_le_of_found has' hbs' (distinct_areDistinct _) hleft)
      (length_le_of_found hbs' has' (distinct_areDistinct _) hright)
  have hnull : (flatten as).any isNull = (flatten bs).any isNull := by
    rw [Bool.eq_iff_iff]
    exact ⟨any_isNull_of_found hleft, any_isNull_of_found hright⟩
  exact ⟨hlen, beq_union.mpr ⟨hnull, hlen, hleft⟩⟩

/-- Fewer than two leaves are collected exactly if all leaves are equal. -/
theorem length_flatten_lt_two_iff (h : ∀ t ∈ types, HasDistinctMembers t) :
    (flatten types).length < 2 ↔
      ∀ m n, HaveLeaf types m → HaveLeaf types n → (m == n) = true := by
  -- No leaf, one that all others equal, or two that differ.
  rcases hflat : flatten types with _ | ⟨u, _ | ⟨v, rest⟩⟩
  · refine iff_of_true Nat.two_pos fun m n hm hn ↦ ?_
    obtain ⟨p, hp, -⟩ := hm.exists_mem_flatten
    rw [hflat] at hp
    exact absurd hp List.not_mem_nil
  · refine iff_of_true Nat.one_lt_two fun m n hm hn ↦ ?_
    have only : ∀ {m}, HaveLeaf types m → (u == m) = true := by
      intro m hm
      obtain ⟨p, hp, hpm⟩ := hm.exists_mem_flatten
      rw [hflat, List.mem_singleton] at hp
      exact hp ▸ hpm
    have leaf : ∀ {m}, HaveLeaf types m → HasDistinctMembers m := by
      rintro m ⟨t, ht, hm⟩
      exact HasDistinctMembers.isUnionClosed.hasLeaf hm (h t ht)
    have hu : HasDistinctMembers u :=
      leaf (haveLeaf_of_mem_flatten (hflat ▸ List.mem_singleton_self u))
    exact beq_trans ((hu.beq_comm (leaf hm)).mp (only hm)) (only hn)
  · refine iff_of_false (by simp) fun hall ↦ ?_
    have hdist : AreDistinct (u :: v :: rest) := hflat ▸ distinct_areDistinct _
    have huv : (u == v) = false := List.rel_of_pairwise_cons hdist List.mem_cons_self
    have hu : HaveLeaf types u := haveLeaf_of_mem_flatten (by simp [hflat])
    have hv : HaveLeaf types v := haveLeaf_of_mem_flatten (by simp [hflat])
    exact Bool.eq_false_iff.mp huv (hall u v hu hv)

/-! ## Unions of the same leaves -/

/-- Two attempts at a union that both fail, or that both succeed with equal types. -/
def AreAlike : Except ConfigError DataType → Except ConfigError DataType → Prop
  | .ok t, .ok u => (t == u) = true
  | .error _, .error _ => True
  | _, _ => False

theorem areAlike_of_sameLeaves (has : ∀ t ∈ as, HasDistinctMembers t)
    (hbs : ∀ t ∈ bs, HasDistinctMembers t) (h : SameLeaves as bs) :
    AreAlike (union as) (union bs) := by
  obtain ⟨hlen, heq⟩ := flatten_of_sameLeaves has hbs h
  by_cases hfew : (flatten as).length < 2
  · obtain ⟨e, he⟩ := exists_union_eq_error_iff.mpr hfew
    obtain ⟨e', he'⟩ := exists_union_eq_error_iff.mpr (hlen ▸ hfew)
    rw [he, he']
    trivial
  · have hmany : 2 ≤ (flatten as).length := Nat.not_lt.mp hfew
    rw [union_eq_ok_iff.mpr ⟨hmany, rfl⟩, union_eq_ok_iff.mpr ⟨hlen ▸ hmany, rfl⟩]
    exact heq

theorem hasDistinctMembers_of_union (h : ∀ t ∈ types, HasDistinctMembers t)
    (ht : union types = .ok t) : HasDistinctMembers t := by
  obtain ⟨hlen, rfl⟩ := union_eq_ok_iff.mp ht
  have hflat := HasDistinctMembers.isUnionClosed.flatten h
  exact HasDistinctMembers.isUnionClosed.unionOf hlen hflat isLeaf_of_mem_flatten
    (distinct_areDistinct _)

/-- Some of the types may be a union already. -/
theorem areAlike_of_group (h : ∀ u ∈ as ++ types ++ bs, HasDistinctMembers u)
    (ht : union types = .ok t) :
    AreAlike (union (as ++ [t] ++ bs)) (union (as ++ types ++ bs)) := by
  obtain ⟨hfront, hbs⟩ := List.forall_mem_append.mp h
  obtain ⟨has, htypes⟩ := List.forall_mem_append.mp hfront
  have hall : ∀ u ∈ as ++ [t] ++ bs, HasDistinctMembers u := by
    have hgroup := List.forall_mem_singleton.mpr (hasDistinctMembers_of_union htypes ht)
    exact List.forall_mem_append.mpr ⟨List.forall_mem_append.mpr ⟨has, hgroup⟩, hbs⟩
  have hsame : SameLeaves (as ++ [t] ++ bs) (as ++ types ++ bs) :=
    ((SameLeaves.refl as).append (.of_union ht)).append (.refl bs)
  exact areAlike_of_sameLeaves hall h hsame

/-- Two unions that overlap may be joined from either side. -/
theorem areAlike_assoc {a b c : DataType} (h : ∀ v ∈ [a, b, c], HasDistinctMembers v)
    (ht : union [a, b] = .ok t) (hu : union [b, c] = .ok u) :
    AreAlike (union [t, c]) (union [a, u]) := by
  have hsame : SameLeaves [t, c] [a, u] := by
    have hleft : SameLeaves ([t] ++ [c]) ([a, b] ++ [c]) :=
      (SameLeaves.of_union ht).append (.refl _)
    have hright : SameLeaves ([a] ++ [u]) ([a] ++ [b, c]) :=
      (SameLeaves.refl _).append (SameLeaves.of_union hu)
    exact hleft.trans hright.symm
  simp only [List.forall_mem_cons] at h
  obtain ⟨ha, hb, hc, -⟩ := h
  have ht' : HasDistinctMembers t := hasDistinctMembers_of_union (by simp [ha, hb]) ht
  have hu' : HasDistinctMembers u := hasDistinctMembers_of_union (by simp [hb, hc]) hu
  exact areAlike_of_sameLeaves (by simp [ht', hc]) (by simp [ha, hu']) hsame

/-- A union joined with itself is itself. -/
theorem areAlike_self (h : ∀ u ∈ types, HasDistinctMembers u) (ht : union types = .ok t) :
    AreAlike (union [t, t]) (.ok t) := by
  have ht' : HasDistinctMembers t := hasDistinctMembers_of_union h ht
  have hsame : SameLeaves [t, t] types :=
    (SameLeaves.of_mem_iff (by simp)).trans (SameLeaves.of_union ht)
  rw [← ht]
  exact areAlike_of_sameLeaves (by simp [ht']) h hsame

theorem unionOrMember_of_union (h : union types = .ok t) : unionOrMember types = t := by
  obtain ⟨hlen, rfl⟩ := union_eq_ok_iff.mp h
  exact unionOrMember_of_two_le hlen

/-- **A union is determined by the leaves of its members.** Of two lists of types with the same
leaves, both have a union and the two are equal, or neither has one; and none has one whose leaves
are all equal. So it does not matter in which order and how often the types are given, nor whether
some of them are a union already. In particular, two unions that overlap may be joined from either
side, and a union joined with itself is itself. Where there is a union, it is also what is made of
the types if a single type would do. -/
theorem union_of_sameLeaves :
    (∀ as bs : List DataType, (∀ t ∈ as, HasDistinctMembers t) →
      (∀ t ∈ bs, HasDistinctMembers t) → SameLeaves as bs → AreAlike (union as) (union bs)) ∧
    (∀ types : List DataType, (∀ t ∈ types, HasDistinctMembers t) →
      ((∃ e, union types = .error e) ↔
        ∀ m n, HaveLeaf types m → HaveLeaf types n → (m == n) = true)) ∧
    (∀ as bs : List DataType, (∀ t ∈ as, HasDistinctMembers t) → (∀ t, t ∈ as ↔ t ∈ bs) →
      AreAlike (union as) (union bs)) ∧
    (∀ (as types bs : List DataType) (t : DataType),
      (∀ u ∈ as ++ types ++ bs, HasDistinctMembers u) → union types = .ok t →
        AreAlike (union (as ++ [t] ++ bs)) (union (as ++ types ++ bs))) ∧
    (∀ a b c t u : DataType, (∀ v ∈ [a, b, c], HasDistinctMembers v) → union [a, b] = .ok t →
      union [b, c] = .ok u → AreAlike (union [t, c]) (union [a, u])) ∧
    (∀ (types : List DataType) (t : DataType), (∀ u ∈ types, HasDistinctMembers u) →
      union types = .ok t → AreAlike (union [t, t]) (.ok t)) ∧
    ∀ (types : List DataType) (t : DataType), union types = .ok t → unionOrMember types = t := by
  refine ⟨fun _ _ ↦ areAlike_of_sameLeaves, ?_, ?_, fun _ _ _ _ ↦ areAlike_of_group,
    fun _ _ _ _ _ ↦ areAlike_assoc, fun _ _ ↦ areAlike_self, fun _ _ ↦ unionOrMember_of_union⟩
  · intro types h
    exact exists_union_eq_error_iff.trans (length_flatten_lt_two_iff h)
  · intro as bs has h
    exact areAlike_of_sameLeaves has (fun t ht ↦ has t ((h t).mpr ht)) (.of_mem_iff h)

/-- A nullable type and a union of two, and their leaves one by one in another order. -/
theorem union_of_sameLeaves_nullable :
    let int := scalar .int
    let string := scalar .string
    let pair := mk (.union [string, int]) false
    let all := mk (.union [int, null, string]) true
    let others := mk (.union [string, null, int]) true
    (SameLeaves [int.orNull, pair] [string, null, int] ∧ union [int.orNull, pair] = .ok all ∧
      union [string, null, int] = .ok others ∧ AreAlike (.ok all) (.ok others)) ∧
    (∃ m n, HaveLeaf [int.orNull, pair] m ∧ HaveLeaf [int.orNull, pair] n ∧ (m == n) = false) ∧
    ((∃ e, union [int, int] = .error e) ∧
      ∀ m n, HaveLeaf [int, int] m → HaveLeaf [int, int] n → (m == n) = true) ∧
    AreAlike (union [pair, int.orNull, pair]) (union [int.orNull, pair]) ∧
    (union [string, int] = .ok pair ∧
      AreAlike (union [int.orNull, pair]) (union [int.orNull, string, int])) ∧
    (union [int.orNull, string] = .ok all ∧
      AreAlike (union [all, int]) (union [int.orNull, pair])) ∧
    AreAlike (union [all, all]) (.ok all) ∧ unionOrMember [int.orNull, pair] = all := by
  intro int string pair all others
  obtain ⟨hleaves, hfails, hmembers, hgroup, hassoc, hself, hlossy⟩ := union_of_sameLeaves
  have hint : HasDistinctMembers int := .of_parts_eq_nil id rfl
  have hstring : HasDistinctMembers string := .of_parts_eq_nil id rfl
  have hnull : HasDistinctMembers null := .of_parts_eq_nil id rfl
  have hnullable : HasDistinctMembers int.orNull := .of_parts_eq_nil id rfl
  have hpair : union [string, int] = .ok pair := rfl
  have hpair' : HasDistinctMembers pair :=
    hasDistinctMembers_of_union (by simp [hstring, hint]) hpair
  have hall : union [int.orNull, pair] = .ok all := rfl
  have hothers : union [string, null, int] = .ok others := rfl
  have hall' : union [int.orNull, string] = .ok all := rfl
  have has : ∀ t ∈ [int.orNull, pair], HasDistinctMembers t := by simp [hnullable, hpair']
  have hbs : ∀ t ∈ [string, null, int], HasDistinctMembers t := by simp [hstring, hnull, hint]
  have hsame : SameLeaves [int.orNull, pair] [string, null, int] :=
    SameLeaves.iff_flatten.mpr (by decide)
  have halike := hleaves _ _ has hbs hsame
  rw [hall, hothers] at halike
  have hone : ∃ e, union [int, int] = .error e := ⟨_, rfl⟩
  have hflat : flatten [int.orNull, pair] = [int, null, string] := rfl
  have hleaf : ∀ {m}, m ∈ [int, null, string] → HaveLeaf [int.orNull, pair] m :=
    fun hm ↦ haveLeaf_of_mem_flatten (hflat ▸ hm)
  refine ⟨⟨hsame, hall, hothers, halike⟩, ?_, ⟨hone, ?_⟩, ?_, ⟨hpair, ?_⟩, ⟨hall', ?_⟩, ?_, ?_⟩
  · exact ⟨int, null, hleaf (by simp), hleaf (by simp), by decide⟩
  · exact (hfails [int, int] (by simp [hint])).mp hone
  · exact hmembers [pair, int.orNull, pair] [int.orNull, pair] (by simp [hnullable, hpair'])
      (by simp [or_comm])
  · exact hgroup [int.orNull] [string, int] [] pair (by simp [hnullable, hstring, hint]) hpair
  · exact hassoc int.orNull string int all pair (by simp [hnullable, hstring, hint]) hall' hpair
  · exact hself [int.orNull, pair] all has hall
  · exact hlossy [int.orNull, pair] all hall

end DataType

end TypedJson
