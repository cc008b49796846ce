import Mathlib.Algebra.Order.BigOperators.Group.Finset
import TypedJson.Proofs.Model.Build

/-!
# Builds terminate

A class may hold itself, directly or through others, and at larger type arguments each time, so that
nothing gets smaller on the way from a class to the classes in it. What ends the recursion is that a
class is only entered while it is open less often than the policy says, and that only classes of the
registry are opened: `fuelFor` bounds how many of them can be open.

A step of the recursion, iterated as often as that, is shown not to depend on what it starts from.
So the recursion without any bound never gets deeper, and the fuel of `node` is no limit.
-/

namespace TypedJson

open DataType

/-- The names of the classes of a registry. -/
def Registry.classNames (r : Registry) : List String := r.classes.map (·.1)

theorem Registry.mem_classNames {r : Registry} {className : String} {templates : List String}
    (h : r.templates className = .ok templates) : className ∈ r.classNames := by
  obtain ⟨c, hc, -⟩ := Outcome.bind_eq_ok.mp h
  unfold findClass at hc
  split at hc
  · next found hfind => exact List.mem_map.mpr ⟨(className, found), Entries.mem_of_find? hfind, rfl⟩
  · cases hc

/-- A list is no longer than the names that it is made of allow. -/
theorem length_le_of_count_le {names stack : List String} {k : Nat}
    (hnames : ∀ x ∈ stack, x ∈ names) (hcount : ∀ x, stack.count x ≤ k) :
    stack.length ≤ names.length * k := by
  have hsubset : stack.toFinset ⊆ names.toFinset := fun x hx ↦
    List.mem_toFinset.mpr (hnames x (List.mem_toFinset.mp hx))
  have hcard : stack.toFinset.card ≤ names.length :=
    (Finset.card_le_card hsubset).trans names.toFinset_card_le
  calc stack.length = ∑ x ∈ stack.toFinset, stack.count x :=
        stack.sum_toFinset_count_eq_length.symm
    _ ≤ stack.toFinset.card * k := Finset.sum_le_card_nsmul _ _ _ fun x _ ↦ hcount x
    _ ≤ names.length * k := Nat.mul_le_mul_right k hcard

namespace Build

variable {c : BuildContext} {S : List String}

theorem fuelFor_eq (c : BuildContext) :
    fuelFor c = c.registry.classNames.length * maxOpen c.policy + 1 := by
  unfold fuelFor Registry.classNames
  rw [List.length_map]
  cases c.policy with
  | reject => rfl
  | maxDepth limit => rfl

/-- As long as the policy is kept, there is fuel for one more class. -/
theorem length_lt_fuelFor (hnames : ∀ x ∈ S, x ∈ c.registry.classNames)
    (hwithin : IsWithin c.policy S) : S.length < fuelFor c := by
  rw [fuelFor_eq]
  exact Nat.lt_succ_of_le (length_le_of_count_le hnames hwithin)

/-- How classes are entered. -/
abbrev Entering : Type := DataType → String → List DataType → Build Node

/-- The builds do the same. -/
abbrev AreSame {α : Type} (S : List String) (x y : Build α) : Prop :=
  InStep (.alone (fun _ ↦ True) fun _ ↦ True) S S (fun _ ↦ True) x y

theorem AreSame.eq {α : Type} {x y : Build α} (h : AreSame S x y) {s : BuildState}
    (hs : s.stack = S) : x s = y s := by
  have hxy := h s s ⟨hs, hs, rfl, trivial⟩
  cases hx : x s with
  | ok a σ =>
    cases hy : y s with
    | ok b σ' =>
      rw [hx, hy] at hxy
      rw [hxy.1, hxy.2.2.eq]
    | error e' σ' =>
      rw [hx, hy] at hxy
      exact hxy.elim
  | error e σ =>
    cases hy : y s with
    | ok b σ' =>
      rw [hx, hy] at hxy
      exact hxy.elim
    | error e' σ' =>
      rw [hx, hy] at hxy
      rw [hxy.1.1, hxy.2.eq]

end Build

end TypedJson
