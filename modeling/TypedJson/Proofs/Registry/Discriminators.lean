import Mathlib.Data.List.Sort
import TypedJson.Registry.Basic
import TypedJson.Proofs.DataType.Spelling
import TypedJson.Proofs.Entries

/-!
# Discriminators and the unions they are for

A discriminator is registered for the text of a union and looked up for a type. Both sides sort
texts and join them, but not the same texts: registering takes the parts of the text as they were
written, the look-up takes the canonical texts of the members. So the two agree exactly for texts
that spell the members of the union out, each once and as its canonical text
(`forUnion?_addDiscriminator`).
-/

namespace TypedJson

open TypeText

/-- A discriminator that chooses one member for every value. -/
def Discriminator.always (name member : String) : Discriminator where
  name
  select _ := return some member

namespace Discriminators

/-! ## Keys -/

theorem keyOfType_eq (t : DataType) :
    keyOfType t = joinMembers (t.alternatives.map DataType.text) := rfl

theorem keyOfText_eq {text : String} {parts : List String} (h : alternatives text = .ok parts) :
    keyOfText text = .ok (joinMembers parts) := by
  obtain ⟨cut, hcut, h⟩ := Outcome.bind_eq_ok.mp h
  cases h
  unfold keyOfText
  rw [hcut]
  rfl

/-- The order of the members does not count. -/
theorem joinMembers_perm {a b : List String} (h : a.Perm b) : joinMembers a = joinMembers b := by
  have hsorted (members : List String) :
      (members.mergeSort fun a b ↦ !decide (b < a)).Pairwise fun a b ↦ !decide (b < a) := by
    refine List.pairwise_mergeSort (fun a b c hab hbc ↦ ?_) (fun a b ↦ ?_) members
    · simp only [Bool.not_eq_true', decide_eq_false_iff_not, String.not_lt] at *
      exact String.le_trans hab hbc
    · simp only [Bool.or_eq_true, Bool.not_eq_true', decide_eq_false_iff_not, String.not_lt]
      exact String.le_total a b
  have hperm := (List.mergeSort_perm a fun a b ↦ !decide (b < a)).trans
    (h.trans (List.mergeSort_perm b fun a b ↦ !decide (b < a)).symm)
  rw [joinMembers, joinMembers, hperm.eq_of_pairwise ?_ (hsorted a) (hsorted b)]
  intro x y _ _ hxy hyx
  simp only [Bool.not_eq_true', decide_eq_false_iff_not, String.not_lt] at hxy hyx
  exact String.le_antisymm hxy hyx

theorem splitFrom_joinMembers {members : List String} (h : ∀ s ∈ members, IsPart '|' 0 s.toList)
    (hne : members ≠ []) : splitFrom '|' 0 (joinMembers members).toList =
      some ((members.mergeSort fun a b ↦ !decide (b < a)).map String.toList) := by
  have hsorted : ∀ s ∈ members.mergeSort fun a b ↦ !decide (b < a), IsPart '|' 0 s.toList :=
    fun s hs ↦ h s (List.mem_mergeSort.mp hs)
  rw [joinMembers, String.toList_intercalate]
  cases hsort : members.mergeSort fun a b ↦ !decide (b < a) with
  | nil =>
    have hperm := List.mergeSort_perm members fun a b ↦ !decide (b < a)
    rw [hsort] at hperm
    exact (hne hperm.nil_eq.symm).elim
  | cons first others =>
    rw [hsort] at hsorted
    obtain ⟨hfirst, hothers⟩ := List.forall_mem_cons.mp hsorted
    refine splitFrom_join (by decide) (by decide) hfirst fun part hpart ↦ ?_
    obtain ⟨s, hs, rfl⟩ := List.mem_map.mp hpart
    exact hothers s hs

/-- Members that no split cuts are found again in a key, up to their order. -/
theorem perm_of_joinMembers {a b : List String} (ha : ∀ s ∈ a, IsPart '|' 0 s.toList)
    (hb : ∀ s ∈ b, IsPart '|' 0 s.toList) (hlen : 2 ≤ b.length)
    (h : joinMembers a = joinMembers b) : a.Perm b := by
  have hsplit := splitFrom_joinMembers hb (List.ne_nil_of_length_pos (by omega))
  by_cases hne : a = []
  · -- The key of no members is the key of one empty member, but of no two.
    have hempty : splitFrom '|' 0 (joinMembers []).toList = some [[]] := by
      simp [joinMembers, splitFrom]
    rw [← h, hne, hempty] at hsplit
    have hcount := congrArg List.length (Option.some.inj hsplit)
    rw [List.length_map, List.length_mergeSort, List.length_singleton] at hcount
    omega
  · rw [← h, splitFrom_joinMembers ha hne] at hsplit
    have hsort := List.map_injective_iff.mpr (fun _ _ ↦ String.toList_inj.mp)
      (Option.some.inj hsplit)
    exact (List.mergeSort_perm a _).symm.trans (hsort ▸ List.mergeSort_perm b _)

theorem isPart_of_settled {scope : Scope} {t : DataType}
    (h : ∀ m ∈ t.alternatives, DataType.Settled scope m ∧ m.IsLeaf) :
    ∀ s ∈ t.alternatives.map DataType.text, IsPart '|' 0 s.toList := by
  intro s hs
  obtain ⟨m, hm, rfl⟩ := List.mem_map.mp hs
  exact ((h m hm).1.reads.isAtom (h m hm).2).bar.isPart

/-! ## Looking up what was registered -/

/-- A text that spells out a union has the key of every type with the same members. -/
theorem keyOfText_of_spellsOut {text : String} {union t : DataType} (h : SpellsOut text union)
    (hsame : t.alternatives.Perm union.alternatives) : keyOfText text = .ok (keyOfType t) := by
  obtain ⟨parts, hparts, hperm⟩ := h
  rw [keyOfText_eq hparts, keyOfType_eq,
    joinMembers_perm (hperm.trans (hsame.map DataType.text).symm)]

theorem forUnion?_put_self (ds : Discriminators) (t : DataType) (d : Discriminator) :
    forUnion? (Entries.put ds (keyOfType t) d) t = some d := Entries.find?_put_self ds _ d

theorem forUnion?_put_of_ne {ds : Discriminators} {key : String} {t : DataType}
    (h : key ≠ keyOfType t) (d : Discriminator) :
    forUnion? (Entries.put ds key d) t = forUnion? ds t :=
  Entries.find?_put_of_ne ds d h

end Discriminators

/-- A text that denotes a union of several types, `null` apart, can be registered. If it spells the
members out, its discriminator is found for every type that has these members, whatever their order
and with `null` or without. If it writes a member in another way (by an alias, without its default
parameters, with blanks inside, twice), or for a type that equals the union only because the order
inside a member does not count either, the look-up answers what it did before. -/
theorem Registry.forUnion?_addDiscriminator {r : Registry} {text : String} {union : DataType}
    (h : r.resolve text [] = .ok union) (hlen : 2 ≤ union.alternatives.length)
    (d : Discriminator) :
    ∃ r', r.addDiscriminator text d = .ok r' ∧
      (SpellsOut text union → ∀ t : DataType, t.alternatives.Perm union.alternatives →
        r'.discriminators.forUnion? t = some d) ∧
      ∀ t : DataType, t.WellFormed → (t.nonNull == union.nonNull) = true →
        ¬(SpellsOut text union ∧ t.alternatives.Perm union.alternatives) →
          r'.discriminators.forUnion? t = r.discriminators.forUnion? t := by
  obtain ⟨cut, -, hparts, -, -⟩ := exists_alternatives h hlen
  generalize (cut.map String.ofList).filter _ = parts at hparts
  let ds := Entries.put r.discriminators (Discriminators.joinMembers parts) d
  refine ⟨{ r with discriminators := ds }, ?_, ?_, ?_⟩
  · rw [addDiscriminator, Discriminators.register, Discriminators.keyOfText_eq hparts]
    rfl
  · intro hspells t hsame
    have hkey := Discriminators.keyOfText_of_spellsOut hspells hsame
    rw [Discriminators.keyOfText_eq hparts] at hkey
    have hfound := Discriminators.forUnion?_put_self r.discriminators t d
    rwa [← Except.ok.inj hkey] at hfound
  · intro t ht heq hnot
    refine Discriminators.forUnion?_put_of_ne (fun hkey ↦ hnot ?_) d
    obtain ⟨htwo, -, hsettled⟩ :=
      DataType.settled_alternatives (DataType.settled_of_resolve h) hlen ht heq
    -- No split cuts the parts or the texts of the members, so that a key tells them.
    have hperm : parts.Perm (t.alternatives.map DataType.text) := by
      refine Discriminators.perm_of_joinMembers (isPart_of_alternatives hparts)
        (Discriminators.isPart_of_settled hsettled) ?_ hkey
      rwa [List.length_map]
    obtain ⟨hspells, hsame⟩ := (perm_text_iff h hlen ht heq hparts).mp hperm
    exact ⟨⟨parts, hparts, hspells⟩, hsame⟩

/-- Blanks between members, the order of members and `null` do not count, but an alias does. -/
theorem Registry.forUnion?_addDiscriminator_alias :
    let r : Registry := {}
    let d := Discriminator.always "kind" "int"
    let union : DataType := .mk (.union [.scalar .int, .scalar .string]) false
    let swapped : DataType := .mk (.union [.scalar .string, .null, .scalar .int]) true
    (r.resolve "int | string" [] = .ok union ∧
      ∃ r', r.addDiscriminator "int | string" d = .ok r' ∧
        r'.discriminators.forUnion? swapped = some d) ∧
    r.resolve "integer|string" [] = .ok union ∧
      ∃ r', r.addDiscriminator "integer|string" d = .ok r' ∧
        r'.discriminators.forUnion? union = none := by
  intro r d union swapped
  have hspaced : r.resolve "int | string" [] = .ok union := rfl
  have halias : r.resolve "integer|string" [] = .ok union := rfl
  have hunion : union.WellFormed := (DataType.settled_of_resolve hspaced).wellFormed
  have hspells : SpellsOut "int | string" union := ⟨["int", "string"], rfl, List.Perm.refl _⟩
  have hnot : ¬SpellsOut "integer|string" union := by
    rintro ⟨parts, hparts, hperm⟩
    obtain rfl : ["integer", "string"] = parts := Except.ok.inj hparts
    exact absurd (hperm.mem_iff.mp List.mem_cons_self) (by decide)
  obtain ⟨r', hr', hfound, -⟩ := forUnion?_addDiscriminator hspaced (by decide) d
  obtain ⟨r'', hr'', -, hkept⟩ := forUnion?_addDiscriminator halias (by decide) d
  refine ⟨⟨hspaced, r', hr', hfound hspells swapped (List.Perm.swap _ _ [])⟩,
    halias, r'', hr'', ?_⟩
  exact hkept union hunion (by decide) fun h ↦ hnot h.1

end TypedJson
