import Mathlib.Data.List.Forall2
import TypedJson.Value.Resolved

/-!
# Resolving values

A value *resolves to* another if reading everything in it succeeds and leaves the other. A value in
which everything has been read resolves to itself, and a container resolves if its parts do.
-/

namespace TypedJson

/-- Everything in the value has been read. -/
inductive Value.IsResolved : Value → Prop
  | null : IsResolved .null
  | bool (b : Bool) : IsResolved (.bool b)
  | int (i : Int64) : IsResolved (.int i)
  | float (f : Float) : IsResolved (.float f)
  | string (s : String) : IsResolved (.string s)
  | list {items : List Value} (h : ∀ item ∈ items, item.IsResolved) : IsResolved (.list items)
  | dict {entries : List (DictKey × Value)} (h : ∀ entry ∈ entries, entry.2.IsResolved) :
    IsResolved (.dict entries)
  | object {o : Object Value} {slots : List (String × Slot Value)} (hstate : o.state = .ready slots)
    (hread : ∀ slot ∈ slots, ∀ cost outcome, slot.2 ≠ .pending cost outcome)
    (h : ∀ name v, (name, Slot.initialized v) ∈ slots → v.IsResolved) : IsResolved (.object o)
  | enum {className : String} {case : Value} (h : case.IsResolved) :
    IsResolved (.enum className case)
  | dateTime (t : DateTime) : IsResolved (.dateTime t)

/-- Reading everything in the first value succeeds and leaves the second. -/
def Value.ResolvesTo (w v : Value) : Prop := w.resolveDeep.1 = v ∧ v.IsResolved

/-- The slot after everything in it has been read; it stays pending if it fails. -/
def Slot.resolveDeep : Slot Value → Slot Value
  | .initialized v | .pending _ (.ok v) => .initialized v.resolveDeep.1
  | .pending cost (.error failure) => .pending cost (.error failure)

/-- Everything in the slot has been read. -/
def Slot.IsResolved : Slot Value → Prop
  | .initialized v => v.IsResolved
  | .pending _ _ => False

/-- Reading everything in the first slot succeeds and leaves the second. -/
def Slot.ResolvesTo (w v : Slot Value) : Prop := w.resolveDeep = v ∧ v.IsResolved

theorem Slot.resolvesTo_pending {cost : Cost} {outcome : Except Failure Value} {slot : Slot Value} :
    (Slot.pending cost outcome).ResolvesTo slot ↔
      ∃ w v, outcome = .ok w ∧ slot = .initialized v ∧ w.ResolvesTo v := by
  constructor
  · rintro ⟨rfl, h⟩
    cases outcome with
    | ok w => exact ⟨w, _, rfl, rfl, rfl, h⟩
    | error failure => exact h.elim
  · rintro ⟨w, v, rfl, rfl, rfl, h⟩
    exact ⟨rfl, h⟩

/-! ## What resolving does to the parts -/

theorem resolveItems_fst (items : List Value) :
    (resolveItems items).1 = items.map (·.resolveDeep.1) := by
  induction items with
  | nil => rfl
  | cons item items ih =>
    rw [List.map_cons, ← ih]
    rfl

theorem resolveEntries_fst (entries : List (DictKey × Value)) :
    (resolveEntries entries).1 = entries.map fun entry ↦ (entry.1, entry.2.resolveDeep.1) := by
  induction entries with
  | nil => rfl
  | cons entry entries ih =>
    obtain ⟨key, v⟩ := entry
    rw [List.map_cons, ← ih]
    rfl

theorem resolveSlots_fst (slots : List (String × Slot Value)) :
    (resolveSlots slots).1 = slots.map fun slot ↦ (slot.1, slot.2.resolveDeep) := by
  induction slots with
  | nil => rfl
  | cons slot slots ih =>
    rw [List.map_cons, ← ih]
    match slot with
    | (_, .initialized _) | (_, .pending _ (.ok _)) | (_, .pending _ (.error _)) => rfl

namespace Value

theorem resolveDeep_list (items : List Value) :
    (list items).resolveDeep.1 = .list (items.map (·.resolveDeep.1)) := by
  rw [← resolveItems_fst]
  rfl

theorem resolveDeep_dict (entries : List (DictKey × Value)) :
    (dict entries).resolveDeep.1 =
      .dict (entries.map fun entry ↦ (entry.1, entry.2.resolveDeep.1)) := by
  rw [← resolveEntries_fst]
  rfl

theorem resolveDeep_ready (identity : Identity) (className : String)
    (slots : List (String × Slot Value)) :
    (object ⟨identity, className, .ready slots⟩).resolveDeep.1 =
      .object ⟨identity, className,
        .ready (slots.map fun slot ↦ (slot.1, slot.2.resolveDeep))⟩ := by
  rw [← resolveSlots_fst]
  rfl

theorem resolveDeep_ghost (identity : Identity) (className : String) (declared : List String)
    (cost : Cost) (slots : List (String × Slot Value)) :
    (object ⟨identity, className, .ghost declared cost (.ok slots)⟩).resolveDeep.1 =
      .object ⟨identity, className,
        .ready (slots.map fun slot ↦ (slot.1, slot.2.resolveDeep))⟩ := by
  rw [← resolveSlots_fst]
  rfl

/-! ## Resolved values -/

theorem IsResolved.resolvesTo {v : Value} (h : v.IsResolved) : v.ResolvesTo v := by
  refine ⟨?_, h⟩
  induction h with
  | list _ ih =>
    rw [resolveDeep_list]
    exact congrArg Value.list ((List.map_congr_left ih).trans (List.map_id _))
  | dict _ ih =>
    rw [resolveDeep_dict]
    refine congrArg Value.dict
      (Eq.trans (List.map_congr_left fun entry hentry ↦ ?_) (List.map_id _))
    rw [ih entry hentry]
    rfl
  | @object o slots hstate hread _ ih =>
    obtain ⟨identity, className, _⟩ := o
    obtain rfl : _ = ObjectState.ready slots := hstate
    rw [resolveDeep_ready]
    have hslots : slots.map (fun slot ↦ (slot.1, slot.2.resolveDeep)) = slots := by
      refine Eq.trans (List.map_congr_left fun slot hslot ↦ ?_) (List.map_id _)
      match slot, hslot, hread slot hslot with
      | (name, .initialized v), hslot, _ =>
        rw [Slot.resolveDeep, ih name v hslot]
        rfl
      | (_, .pending cost outcome), _, hread => exact absurd rfl (hread cost outcome)
    rw [hslots]
  | @enum className case _ ih =>
    show Value.enum className case.resolveDeep.1 = _
    rw [ih]
  | _ => rfl

mutual

theorem isResolved_ofJson : ∀ json : Json, (ofJson json).IsResolved
  | .null => .null
  | .bool b => .bool b
  | .number n => by
    rw [ofJson, ofNumber]
    split
    · exact .int _
    · exact .float _
  | .string s => .string s
  | .list items => .list (isResolved_ofJsonItems items)
  | .dict entries => .dict (isResolved_ofJsonEntries entries)

theorem isResolved_ofJsonItems : ∀ items : List Json, ∀ v ∈ ofJsonItems items, v.IsResolved
  | [] => List.forall_mem_nil _
  | item :: items =>
    List.forall_mem_cons.mpr ⟨isResolved_ofJson item, isResolved_ofJsonItems items⟩

theorem isResolved_ofJsonEntries : ∀ entries : List (String × Json),
    ∀ entry ∈ ofJsonEntries entries, entry.2.IsResolved
  | [] => List.forall_mem_nil _
  | (_, value) :: entries =>
    List.forall_mem_cons.mpr ⟨isResolved_ofJson value, isResolved_ofJsonEntries entries⟩

end

/-! ## Containers -/

theorem forall₂_map_and {α β : Type} {f : β → α} {P : α → Prop} {as : List α} {bs : List β} :
    List.Forall₂ (fun a b ↦ f b = a ∧ P a) as bs ↔ bs.map f = as ∧ ∀ a ∈ as, P a := by
  constructor
  · intro h
    induction h with
    | nil => exact ⟨rfl, List.forall_mem_nil _⟩
    | cons h _ ih =>
      exact ⟨by rw [List.map_cons, h.1, ih.1], List.forall_mem_cons.mpr ⟨h.2, ih.2⟩⟩
  · rintro ⟨rfl, h⟩
    induction bs with
    | nil => exact .nil
    | cons b bs ih =>
      obtain ⟨hb, hbs⟩ := List.forall_mem_cons.mp h
      exact .cons ⟨rfl, hb⟩ (ih hbs)

theorem forall₂_pair {κ α β : Type} (f : β → α) (P : α → Prop) {as : List (κ × α)}
    {bs : List (κ × β)} :
    List.Forall₂ (fun a b ↦ a.1 = b.1 ∧ f b.2 = a.2 ∧ P a.2) as bs ↔
      bs.map (fun b ↦ (b.1, f b.2)) = as ∧ ∀ a ∈ as, P a.2 := by
  have hrel : (fun (a : κ × α) (b : κ × β) ↦ a.1 = b.1 ∧ f b.2 = a.2 ∧ P a.2) =
      fun a b ↦ (b.1, f b.2) = a ∧ P a.2 := by
    funext a b
    rw [Prod.ext_iff, and_assoc, eq_comm (a := a.1)]
  rw [hrel, forall₂_map_and]

theorem resolvesTo_list {ws : List Value} {v : Value} :
    (list ws).ResolvesTo v ↔
      ∃ vs, v = .list vs ∧ List.Forall₂ (fun v w ↦ w.ResolvesTo v) vs ws := by
  simp only [ResolvesTo, forall₂_map_and, resolveDeep_list]
  constructor
  · rintro ⟨rfl, h⟩
    cases h with
    | list h => exact ⟨_, rfl, rfl, h⟩
  · rintro ⟨_, rfl, rfl, h⟩
    exact ⟨rfl, .list h⟩

theorem resolvesTo_dict {ws : List (DictKey × Value)} {v : Value} :
    (dict ws).ResolvesTo v ↔
      ∃ vs, v = .dict vs ∧ List.Forall₂ (fun v w ↦ v.1 = w.1 ∧ w.2.ResolvesTo v.2) vs ws := by
  simp only [ResolvesTo, forall₂_pair (fun w : Value ↦ w.resolveDeep.1) IsResolved,
    resolveDeep_dict]
  constructor
  · rintro ⟨rfl, h⟩
    cases h with
    | dict h => exact ⟨_, rfl, rfl, h⟩
  · rintro ⟨_, rfl, rfl, h⟩
    exact ⟨rfl, .dict h⟩

theorem isResolved_ready {identity : Identity} {className : String}
    {slots : List (String × Slot Value)} :
    (object ⟨identity, className, .ready slots⟩).IsResolved ↔
      ∀ slot ∈ slots, slot.2.IsResolved := by
  constructor
  · rintro (_ | _ | _ | _ | _ | _ | _ | ⟨⟨⟩, hread, h⟩) ⟨name, slot⟩ hslot
    cases slot with
    | initialized v => exact h name v hslot
    | pending cost outcome => exact hread _ hslot cost outcome rfl
  · intro h
    refine .object rfl (fun slot hslot cost outcome hpending ↦ ?_) fun name v hv ↦ h _ hv
    have hresolved := h slot hslot
    rw [hpending] at hresolved
    exact hresolved

theorem resolvesTo_ghost {identity : Identity} {className : String} {declared : List String}
    {cost : Cost} {outcome : Except Failure (List (String × Slot Value))} {v : Value} :
    (object ⟨identity, className, .ghost declared cost outcome⟩).ResolvesTo v ↔
      ∃ ws vs, outcome = .ok ws ∧ v = .object ⟨identity, className, .ready vs⟩ ∧
        List.Forall₂ (fun v w ↦ v.1 = w.1 ∧ w.2.ResolvesTo v.2) vs ws := by
  simp only [ResolvesTo, Slot.ResolvesTo, forall₂_pair Slot.resolveDeep Slot.IsResolved]
  cases outcome with
  | error failure =>
    constructor
    · rintro ⟨rfl, h⟩
      cases h with
      | object hstate _ _ => cases hstate
    · rintro ⟨_, _, h, _⟩
      cases h
  | ok ws =>
    rw [resolveDeep_ghost]
    constructor
    · rintro ⟨rfl, h⟩
      exact ⟨ws, _, rfl, rfl, rfl, isResolved_ready.mp h⟩
    · rintro ⟨_, _, ⟨⟩, rfl, rfl, h⟩
      exact ⟨rfl, isResolved_ready.mpr h⟩

/-! ## What a value shows before it is resolved -/

theorem ResolvesTo.isNull_eq {w v : Value} (h : w.ResolvesTo v) : v.isNull = w.isNull := by
  rw [← h.1]
  cases w <;> rfl

end Value

end TypedJson
