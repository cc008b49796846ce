import Mathlib.Data.List.Forall2

/-!
# Lists side by side

Reading and writing go through several lists of the same length at a time: the properties of a
class, their values and the places in the text. `List.Forall₂` says that two lists correspond;
these lemmas chain such correspondences and take single members out of them.
-/

namespace TypedJson

variable {α β γ : Type} {R : α → β → Prop} {S : β → γ → Prop} {as : List α} {bs : List β}
  {cs : List γ}

/-- What corresponds to a member on the left. -/
theorem exists_of_forall₂_left (h : List.Forall₂ R as bs) {a : α} (ha : a ∈ as) :
    ∃ b ∈ bs, R a b := by
  induction h with
  | nil => exact absurd ha List.not_mem_nil
  | cons hab _ ih =>
    rcases List.mem_cons.mp ha with rfl | ha
    · exact ⟨_, List.mem_cons_self, hab⟩
    · obtain ⟨b, hb, hR⟩ := ih ha
      exact ⟨b, List.mem_cons_of_mem _ hb, hR⟩

/-- What corresponds to a member on the right. -/
theorem exists_of_forall₂_right (h : List.Forall₂ R as bs) {b : β} (hb : b ∈ bs) :
    ∃ a ∈ as, R a b :=
  exists_of_forall₂_left h.flip hb

/-- A correspondence may be changed member by member. -/
theorem forall₂_imp_of_mem {R' : α → β → Prop} (h : List.Forall₂ R as bs)
    (himp : ∀ a ∈ as, ∀ b ∈ bs, R a b → R' a b) : List.Forall₂ R' as bs := by
  induction h with
  | nil => exact .nil
  | cons hab _ ih =>
    refine .cons (himp _ List.mem_cons_self _ List.mem_cons_self hab) (ih fun a ha b hb ↦ ?_)
    exact himp a (List.mem_cons_of_mem _ ha) b (List.mem_cons_of_mem _ hb)

/-- Lists that correspond to the same list correspond to each other. -/
theorem forall₂_trans (h : List.Forall₂ R as bs) (h' : List.Forall₂ S bs cs) :
    List.Forall₂ (fun a c ↦ ∃ b, R a b ∧ S b c) as cs := by
  induction h generalizing cs with
  | nil =>
    cases h'
    exact .nil
  | cons hab _ ih =>
    cases h' with
    | cons hbc h' => exact .cons ⟨_, hab, hbc⟩ (ih h')

/-- Something that corresponding members have in common. -/
theorem map_eq_map_of_forall₂ {f : α → γ} {g : β → γ} (h : List.Forall₂ R as bs)
    (hfg : ∀ a b, R a b → f a = g b) : as.map f = bs.map g := by
  induction h with
  | nil => rfl
  | cons hab _ ih => rw [List.map_cons, List.map_cons, hfg _ _ hab, ih]

/-- Lists with the same images keep them if corresponding members are dropped. -/
theorem filter_map_eq_of_forall₂ {f : α → γ} {g : β → γ} {p : α → Bool} {q : β → Bool}
    (h : List.Forall₂ R as bs) (hpq : ∀ a b, R a b → p a = q b)
    (hfg : ∀ a b, R a b → q b = true → f a = g b) :
    (as.filter p).map f = (bs.filter q).map g := by
  induction h with
  | nil => rfl
  | @cons a b _ _ hab _ ih =>
    rw [List.filter_cons, List.filter_cons, hpq a b hab]
    split
    · next hb => rw [List.map_cons, List.map_cons, hfg a b hab hb, ih]
    · exact ih

/-- Lists with the same images are the two sides of a list of pairs with the same images. -/
theorem exists_pairs_of_map_eq {f : α → γ} {g : β → γ} (h : as.map f = bs.map g) :
    ∃ pairs : List (α × β), pairs.map (·.1) = as ∧ pairs.map (·.2) = bs ∧
      ∀ pair ∈ pairs, f pair.1 = g pair.2 := by
  induction as generalizing bs with
  | nil =>
    exact ⟨[], rfl, (List.map_eq_nil_iff.mp h.symm).symm, fun _ h ↦ absurd h List.not_mem_nil⟩
  | cons a as ih =>
    cases bs with
    | nil => cases h
    | cons b bs =>
      obtain ⟨hfirst, hrest⟩ := List.cons.inj h
      obtain ⟨pairs, rfl, rfl, hpairs⟩ := ih hrest
      exact ⟨(a, b) :: pairs, rfl, rfl, List.forall_mem_cons.mpr ⟨hfirst, hpairs⟩⟩

end TypedJson
