import Mathlib.Data.List.Perm.Subperm
import Mathlib.Tactic.Common
import TypedJson.DataType.Feed
import TypedJson.Proofs.DataType.Members

/-!
# Equality and hashing of types

Types can be looked up in sets and maps if equality is an equivalence and equal types write the same
to a hasher. Both are true of the types whose unions hold no type twice, at any depth; nothing else
that the operations on types keep up is needed, not even that unions are flat.

Unions are compared by their lengths and in one direction only: each member of the first is looked
up in the second. If no two members of the first are equal, no two of them are found at one place,
so the places are all there are (`exists_subperm_of_found`). This turns the comparison round, and it
pairs the members off, which is what the sum of their hashes needs.
-/

namespace TypedJson

/-- Things that are each found in a second list, no two of them at one place, correspond to some of
that list in some order. -/
theorem exists_subperm_of_found {α β : Type} {R : α → β → Prop} {as : List α} {bs : List β}
    (hfound : ∀ a ∈ as, ∃ b ∈ bs, R a b)
    (hone : as.Pairwise fun a a' ↦ ∀ b ∈ bs, R a b → ¬R a' b) :
    ∃ cs, cs.Subperm bs ∧ List.Forall₂ R as cs := by
  rcases as with _ | ⟨first, rest⟩
  · exact ⟨[], List.nil_subperm, .nil⟩
  have : Nonempty β := ⟨(hfound first List.mem_cons_self).choose⟩
  choose! f hmem hR using hfound
  refine ⟨(first :: rest).map f, ?_, ?_⟩
  · have hnodup : ((first :: rest).map f).Nodup := by
      refine List.pairwise_map.mpr (hone.imp_of_mem fun {a a'} ha ha' h heq ↦ ?_)
      exact h (f a) (hmem a ha) (hR a ha) (heq ▸ hR a' ha')
    refine hnodup.subperm fun c hc ↦ ?_
    obtain ⟨a, ha, rfl⟩ := List.mem_map.mp hc
    exact hmem a ha
  · exact List.forall₂_map_right_iff.mpr (List.forall₂_same.mpr hR)

namespace DataType

/-! ## Types whose unions hold no type twice -/

/-- No union holds a member twice, at any depth. -/
inductive HasDistinctMembers : DataType → Prop
  | union {members : List DataType} (nullable : Bool) :
    AreDistinct members → (∀ m ∈ members, HasDistinctMembers m) →
      HasDistinctMembers (mk (.union members) nullable)
  | other {kind : TypeKind DataType} (nullable : Bool) :
    ¬kind.IsUnion → (∀ t ∈ kind.parts, HasDistinctMembers t) →
      HasDistinctMembers (mk kind nullable)

namespace HasDistinctMembers

variable {kind other : TypeKind DataType} {m n : Bool}

theorem parts (h : HasDistinctMembers (mk kind m)) : ∀ t ∈ kind.parts, HasDistinctMembers t := by
  obtain ⟨_, -, hparts⟩ | ⟨_, -, hparts⟩ := h
  · exact hparts
  · exact hparts

theorem of_parts_eq_nil (hkind : ¬kind.IsUnion) (h : kind.parts = []) :
    HasDistinctMembers (mk kind m) :=
  .other m hkind (by simp [h])

theorem areDistinct {members : List DataType} (h : HasDistinctMembers (mk (.union members) m)) :
    AreDistinct members := by
  obtain ⟨_, hdistinct, -⟩ | ⟨_, hother, -⟩ := h
  · exact hdistinct
  · exact absurd trivial hother

/-- Members that are found in the other union correspond to some of its members. -/
theorem exists_subperm {as bs : List DataType} (has : AreDistinct as)
    (hcomm : ∀ a ∈ as, ∀ b ∈ bs, ((a == b) = true ↔ (b == a) = true))
    (hfound : ∀ a ∈ as, ∃ b ∈ bs, (b == a) = true) :
    ∃ cs, cs.Subperm bs ∧ List.Forall₂ (fun a b ↦ (b == a) = true) as cs := by
  refine exists_subperm_of_found hfound (has.imp_of_mem fun {a a'} ha _ hne b hb hba hba' ↦ ?_)
  -- A member that stood for two would make these equal.
  exact Bool.eq_false_iff.mp hne (beq_trans ((hcomm a ha b hb).mpr hba) hba')

theorem exists_perm {as bs : List DataType} (has : AreDistinct as) (hlen : as.length = bs.length)
    (hcomm : ∀ a ∈ as, ∀ b ∈ bs, ((a == b) = true ↔ (b == a) = true))
    (hfound : ∀ a ∈ as, ∃ b ∈ bs, (b == a) = true) :
    ∃ cs, cs.Perm bs ∧ List.Forall₂ (fun a b ↦ (b == a) = true) as cs := by
  obtain ⟨cs, hcs, hpaired⟩ := exists_subperm has hcomm hfound
  exact ⟨cs, hcs.perm_of_length_le (Nat.le_of_eq (hlen.symm.trans hpaired.length_eq)), hpaired⟩

/-- Equality can be turned round if it can for all parts. -/
theorem beq_symm_of_parts (ha : HasDistinctMembers (mk kind m))
    (hparts : ∀ x ∈ kind.parts, ∀ y ∈ other.parts, ((x == y) = true ↔ (y == x) = true))
    (h : (mk kind m == mk other n) = true) : (mk other n == mk kind m) = true := by
  refine beq_cases h ?_ ?_
  · rintro as bs rfl rfl rfl hlen hall
    obtain ⟨cs, hperm, hpaired⟩ := exists_perm ha.areDistinct hlen hparts hall
    refine beq_union.mpr ⟨rfl, hlen.symm, fun y hy ↦ ?_⟩
    obtain ⟨x, hx, hyx⟩ := exists_of_forall₂_right hpaired (hperm.mem_iff.mpr hy)
    exact ⟨x, hx, (hparts x hx y hy).mpr hyx⟩
  · rintro - hunion rfl hhead hall
    refine (beq_of_head hunion).mpr ⟨rfl, hhead.symm, ?_⟩
    exact (forall₂_imp_of_mem hall fun x hx y hy ↦ (hparts x hx y hy).mp).flip

/-- Equality is symmetric on types whose unions hold no type twice. -/
theorem beq_comm {a : DataType} (ha : HasDistinctMembers a) :
    ∀ {b : DataType}, HasDistinctMembers b → ((a == b) = true ↔ (b == a) = true) := by
  induction a using parts_induction with
  | mk kind m ih =>
    rintro ⟨other, n⟩ hb
    have hparts : ∀ x ∈ kind.parts, ∀ y ∈ other.parts, ((x == y) = true ↔ (y == x) = true) :=
      fun x hx y hy ↦ ih x hx (ha.parts x hx) (hb.parts y hy)
    exact ⟨ha.beq_symm_of_parts hparts,
      hb.beq_symm_of_parts fun y hy x hx ↦ (hparts x hx y hy).symm⟩

end HasDistinctMembers

/-! ## Hashing -/

variable {finish : List HashWrite → UInt64}

theorem feedAll_eq_flatten (types : List DataType) :
    feedAll finish types = (types.map (feed finish)).flatten := by
  induction types with
  | nil => rfl
  | cons t types ih => rw [feedAll, ih, List.map_cons, List.flatten_cons]

/-- The sum does not depend on the order of the members. -/
theorem sumOfAll_perm {as bs : List DataType} (h : as.Perm bs) :
    sumOfAll finish as = sumOfAll finish bs := by
  induction h with
  | nil => rfl
  | cons t _ ih => rw [sumOfAll, sumOfAll, ih]
  | swap t u types =>
    simp only [sumOfAll]
    rw [← UInt64.add_assoc, ← UInt64.add_assoc, UInt64.add_comm (finish (feed finish u))]
  | trans _ _ ih ih' => rw [ih, ih']

theorem sumOfAll_congr {as bs : List DataType}
    (h : List.Forall₂ (fun a b ↦ feed finish a = feed finish b) as bs) :
    sumOfAll finish as = sumOfAll finish bs := by
  induction h with
  | nil => rfl
  | cons hab _ ih => rw [sumOfAll, sumOfAll, hab, ih]

/-- Kinds that differ in their parts at most write the same if these do. -/
theorem feedKind_congr {a b : TypeKind DataType} (ha : ¬a.IsUnion) (hhead : a.head = b.head)
    (hparts : a.parts.map (feed finish) = b.parts.map (feed finish)) :
    feedKind finish a = feedKind finish b := by
  cases a <;> cases b <;> cases hhead
  case union.union => exact absurd trivial ha
  case list.list =>
    rw [feedKind, feedKind, (List.cons.inj hparts).1]
  case dict.dict =>
    obtain ⟨hkey, hrest⟩ := List.cons.inj hparts
    rw [feedKind, feedKind, hkey, (List.cons.inj hrest).1]
  case object.object className as bs =>
    have hfeeds : as.map (feed finish) = bs.map (feed finish) := hparts
    have hlen : as.length = bs.length := by
      simpa using congrArg List.length hfeeds
    rw [feedKind, feedKind, feedAll_eq_flatten, feedAll_eq_flatten, hfeeds, hlen]
  all_goals rfl

/-- Equal types write the same to every hasher. -/
theorem feed_eq_of_beq {a : DataType} (ha : HasDistinctMembers a) :
    ∀ {b : DataType}, HasDistinctMembers b → (a == b) = true → feed finish a = feed finish b := by
  induction a using parts_induction with
  | mk kind m ih =>
    rintro ⟨other, n⟩ hb heq
    refine beq_cases heq ?_ ?_
    · rintro as bs rfl rfl rfl hlen hall
      have hcomm : ∀ x ∈ as, ∀ y ∈ bs, ((x == y) = true ↔ (y == x) = true) :=
        fun x hx y hy ↦ (ha.parts x hx).beq_comm (hb.parts y hy)
      -- The same hashes are summed, in the order of the other union's members.
      obtain ⟨cs, hperm, hpaired⟩ := HasDistinctMembers.exists_perm ha.areDistinct hlen hcomm hall
      have hfeeds : List.Forall₂ (fun x y ↦ feed finish x = feed finish y) as cs := by
        refine forall₂_imp_of_mem hpaired fun x hx y hy hyx ↦ ?_
        have hy : y ∈ bs := hperm.mem_iff.mp hy
        exact ih x hx (ha.parts x hx) (hb.parts y hy) ((hcomm x hx y hy).mpr hyx)
      rw [feed, feed, feedKind, feedKind, sumOfAll_congr hfeeds, sumOfAll_perm hperm]
    · rintro hunion - rfl hhead hall
      have hparts : kind.parts.map (feed finish) = other.parts.map (feed finish) :=
        map_eq_map_of_forall₂ (forall₂_imp_of_mem hall fun x hx y hy hxy ↦
          ih x hx (ha.parts x hx) (hb.parts y hy) hxy) fun _ _ h ↦ h
      rw [feed, feed, feedKind_congr hunion hhead hparts]

/-- **Equality of types is lawful.** It is reflexive, transitive and, on types whose unions hold no
type twice, symmetric; and two such types that are equal write the same to every hasher, in
whatever order their unions hold their members, so they have the same hash. -/
theorem equality_lawful :
    (∀ t : DataType, (t == t) = true) ∧
    (∀ t u v : DataType, (t == u) = true → (u == v) = true → (t == v) = true) ∧
    (∀ t u : DataType, t.HasDistinctMembers → u.HasDistinctMembers →
      (t == u) = true → (u == t) = true) ∧
    ∀ t u : DataType, t.HasDistinctMembers → u.HasDistinctMembers → (t == u) = true →
      (∀ finish, feed finish t = feed finish u) ∧ t.hash = u.hash := by
  refine ⟨beq_refl, fun _ _ _ ↦ beq_trans, fun t u ht hu h ↦ (ht.beq_comm hu).mp h, ?_⟩
  intro t u ht hu h
  refine ⟨fun finish ↦ feed_eq_of_beq ht hu h, ?_⟩
  rw [hash, hash, feed_eq_of_beq ht hu h]

/-- Unions in unions of lists, with their members in another order at both levels. -/
theorem equality_lawful_nested :
    let t := mk (.union [scalar .int, list (mk (.union [scalar .string, null]) true)]) false
    let u := mk (.union [list (mk (.union [null, scalar .string]) true), scalar .int]) false
    (t.HasDistinctMembers ∧ u.HasDistinctMembers ∧ t.text ≠ u.text) ∧
      (t == t) = true ∧ (t == u) = true ∧ (u == t) = true ∧
      (∀ finish, feed finish t = feed finish u) ∧ t.hash = u.hash := by
  intro t u
  have hlist : ∀ item : DataType, item.HasDistinctMembers → (list item).HasDistinctMembers :=
    fun item h ↦ .other false id (by simpa [TypeKind.parts] using h)
  have hint : (scalar .int).HasDistinctMembers := .of_parts_eq_nil id rfl
  have hstring : (scalar .string).HasDistinctMembers := .of_parts_eq_nil id rfl
  have hnull : null.HasDistinctMembers := .of_parts_eq_nil id rfl
  have ht : t.HasDistinctMembers := by
    refine .union false (by unfold AreDistinct; decide) ?_
    refine List.forall_mem_cons.mpr ⟨hint, List.forall_mem_singleton.mpr (hlist _ ?_)⟩
    refine .union true (by unfold AreDistinct; decide) ?_
    exact List.forall_mem_cons.mpr ⟨hstring, List.forall_mem_singleton.mpr hnull⟩
  have hu : u.HasDistinctMembers := by
    refine .union false (by unfold AreDistinct; decide) ?_
    refine List.forall_mem_cons.mpr ⟨hlist _ ?_, List.forall_mem_singleton.mpr hint⟩
    refine .union true (by unfold AreDistinct; decide) ?_
    exact List.forall_mem_cons.mpr ⟨hnull, List.forall_mem_singleton.mpr hstring⟩
  have htu : (t == u) = true := by decide
  obtain ⟨hrefl, -, hsymm, hhash⟩ := equality_lawful
  exact ⟨⟨ht, hu, by decide⟩, hrefl t, htu, hsymm t u ht hu htu, hhash t u ht hu htu⟩

end DataType

end TypedJson
