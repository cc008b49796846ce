import TypedJson.Config.Hooks
import TypedJson.Proofs.Entries

/-!
# Hooks by number

A cache key lists the hooks by key and number, sorted. Looking a hook up takes the first of its key,
and sorting keeps entries of one key in their order, so the list determines the number of the hook
that each look-up finds.
-/

namespace TypedJson.Hooks

/-- A string under which a hook is listed. -/
def IsKey (name : String) : Prop := ∃ key, name = "object:" ++ key ∨ name = "property:" ++ key

theorem append_inj_right {s a b : String} (h : s ++ a = s ++ b) : a = b := by
  have hlist := congrArg String.toList h
  rw [String.toList_append, String.toList_append] at hlist
  exact String.toList_inj.mp (List.append_cancel_left hlist)

theorem object_ne_property (a b : String) : "object:" ++ a ≠ "property:" ++ b := by
  intro h
  have hlist := congrArg String.toList h
  rw [String.toList_append, String.toList_append] at hlist
  have hhead : 'o' = 'p' := (List.cons.inj hlist).1
  exact absurd hhead (by decide)

/-- The entries that are listed, before they are sorted. -/
def listed (hooks : Hooks) : Entries String Nat :=
  (hooks.object.map fun entry ↦ ("object:" ++ entry.1, entry.2.id)) ++
    hooks.property.map fun entry ↦ ("property:" ++ entry.1, entry.2.id)

theorem find?_identities (hooks : Hooks) (key : String) :
    Entries.find? hooks.identities key = Entries.find? hooks.listed key := by
  refine Entries.find?_mergeSort ?_ ?_ ?_ hooks.listed key
  · intro a b c hab hbc
    simp only [Bool.not_eq_true', decide_eq_false_iff_not, String.not_lt] at *
    exact String.le_trans hab hbc
  · intro a b
    simp only [Bool.or_eq_true, Bool.not_eq_true', decide_eq_false_iff_not, String.not_lt]
    exact String.le_total a.1 b.1
  · intro a b hab
    simp only [Bool.not_eq_true', decide_eq_false_iff_not, String.not_lt, hab]
    exact String.le_refl b.1

theorem isKey_of_mem_identities {hooks : Hooks} {entry : String × Nat}
    (h : entry ∈ hooks.identities) : IsKey entry.1 := by
  rcases List.mem_append.mp (List.mem_mergeSort.mp h) with h | h
  · obtain ⟨⟨key, hook⟩, -, rfl⟩ := List.mem_map.mp h
    exact ⟨key, .inl rfl⟩
  · obtain ⟨⟨key, hook⟩, -, rfl⟩ := List.mem_map.mp h
    exact ⟨key, .inr rfl⟩

theorem find?_object (hooks : Hooks) (key : String) :
    Entries.find? hooks.identities ("object:" ++ key) =
      (Entries.find? hooks.object key).map (·.id) := by
  have hproperty : Entries.find? (hooks.property.map fun entry ↦
      ("property:" ++ entry.1, entry.2.id)) ("object:" ++ key) = none := by
    refine Entries.find?_eq_none.mpr fun entry hentry ↦ ?_
    obtain ⟨other, -, rfl⟩ := List.mem_map.mp hentry
    exact (object_ne_property key other.1).symm
  rw [find?_identities, listed, Entries.find?_append, hproperty, Option.or_none]
  exact Entries.find?_map (fun a b ↦ append_inj_right) (·.id) hooks.object key

theorem find?_property (hooks : Hooks) (key : String) :
    Entries.find? hooks.identities ("property:" ++ key) =
      (Entries.find? hooks.property key).map (·.id) := by
  have hobject : Entries.find? (hooks.object.map fun entry ↦
      ("object:" ++ entry.1, entry.2.id)) ("property:" ++ key) = none := by
    refine Entries.find?_eq_none.mpr fun entry hentry ↦ ?_
    obtain ⟨other, -, rfl⟩ := List.mem_map.mp hentry
    exact object_ne_property other.1 key
  rw [find?_identities, listed, Entries.find?_append, hobject, Option.none_or]
  exact Entries.find?_map (fun a b ↦ append_inj_right) (·.id) hooks.property key

/-! ## No hooks -/

theorem propertyHook?_of_isEmpty {hooks : Hooks} (h : hooks.isEmpty = true)
    (className property : String) : hooks.propertyHook? className property = none := by
  rw [propertyHook?, List.isEmpty_iff.mp (Bool.and_eq_true_iff.mp h).2]
  rfl

theorem objectHook?_of_isEmpty {hooks : Hooks} (h : hooks.isEmpty = true) (className : String) :
    hooks.objectHook? className = none := by
  rw [objectHook?, List.isEmpty_iff.mp (Bool.and_eq_true_iff.mp h).1]
  rfl

end TypedJson.Hooks
