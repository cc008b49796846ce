import Mathlib.Data.List.Forall2
import TypedJson.Proofs.Codec.Steady
import TypedJson.Value.Resolved

/-!
# Values that compare as equal

Comparing values reads the objects in them and logs that, and which fields a ghost is asked for
depends on the log. `Value.SameAs` says that two values compare as equal whatever has been read
before. It goes through lists, dictionaries and objects; for an object it is enough that its fields
are known by name, whether they have been read or not.
-/

namespace TypedJson

/-- The computation answers `true`, whatever has been logged. -/
def Traced.Holds (x : Traced Bool) : Prop := ∀ log, (x log).1 = true

namespace Traced

theorem Holds.pure : Holds (Pure.pure true) := fun _ ↦ rfl

theorem Holds.ite {x y : Traced Bool} (hx : x.Holds) (hy : y.Holds) :
    Holds (do if ← x then y else return false) := by
  intro log
  show ((if (x log).1 = true then y else Pure.pure false : Traced Bool) (x log).2).1 = true
  rw [if_pos (hx log)]
  exact hy _

/-- A computation whose first step comes to one of several things, whatever has been logged. -/
theorem Holds.bind {α : Type} {x : Traced α} {P : α → Prop} {f : α → Traced Bool}
    (hx : ∀ log, P (x log).1) (hf : ∀ a, P a → (f a).Holds) : Holds (x >>= f) :=
  fun log ↦ hf _ (hx log) _

end Traced

/-- The values compare as equal, whatever has been read before. -/
def Value.SameAs (a b : Value) : Prop := (a.compare b).Holds

theorem Value.SameAs.same {a b : Value} (h : a.SameAs b) : a.same b = true := h []

/-! ## Objects -/

namespace ResolvedObject

variable {α : Type} {o : ResolvedObject α} {slots : List (String × Except Failure α)}
  {fields : List (String × α)}

theorem collect_eq (h : ∀ field ∈ fields, Entries.find? slots field.1 = some (.ok field.2)) :
    collect slots (fields.map (·.1)) = .ok fields := by
  induction fields with
  | nil => rfl
  | cons field fields ih =>
    rw [List.map_cons, collect, h field List.mem_cons_self]
    dsimp only
    rw [ih fun other hother ↦ h other (List.mem_cons_of_mem field hother)]
    rfl

theorem read_eq_ok (hslots : o.slots = .ok slots) {log : List Access}
    (hnames : o.names log = fields.map (·.1))
    (h : ∀ field ∈ fields, Entries.find? slots field.1 = some (.ok field.2)) :
    (o.read log).1 = .ok fields := by
  rw [read_eq, hslots, hnames]
  cases fields with
  | nil => rfl
  | cons field fields => exact collect_eq h

/-- An object is asked for the fields that it is declared to have, or for those that it has. -/
theorem names_eq_or (hslots : o.slots = .ok slots) (log : List Access) :
    o.names log = slots.map (·.1) ∨
      ∃ declared, o.declared = some declared ∧ o.names log = declared.eraseDups := by
  unfold names
  rw [hslots]
  cases o.declared with
  | none => exact .inl rfl
  | some declared =>
    dsimp only
    split
    · exact .inl rfl
    · exact .inr ⟨declared, rfl, rfl⟩

end ResolvedObject

/-- The object has the fields of the given names and no others, whatever has been read of it. -/
def Object.HasFields (o : Object Value) (names : List String) : Prop :=
  match o.state with
  | .ready slots => (slots.map (·.1)).Perm names
  | .ghost declared _ (.ok slots) => declared.Perm names ∧ (slots.map (·.1)).Perm names
  | .ghost _ _ (.error _) => False

theorem keys_resolvedSlots (slots : List (String × Slot Value)) :
    (resolvedSlots slots).map (·.1) = slots.map (·.1) := by
  induction slots with
  | nil => rfl
  | cons slot slots ih =>
    obtain ⟨name, slot⟩ := slot
    match slot with
    | .initialized value | .pending _ (.ok value) | .pending _ (.error failure) =>
      rw [resolvedSlots, List.map_cons, List.map_cons, ih]

theorem find?_resolvedSlots {slots : List (String × Slot Value)} {name : String} {value : Value}
    (h : Entries.find? slots name = some (.initialized value) ∨
      ∃ cost, Entries.find? slots name = some (.pending cost (.ok value))) :
    Entries.find? (resolvedSlots slots) name = some (.ok value.resolved) := by
  induction slots with
  | nil => obtain h | ⟨_, h⟩ := h <;> cases h
  | cons slot slots ih =>
    obtain ⟨key, slot⟩ := slot
    by_cases hkey : key = name
    · subst hkey
      simp only [Entries.find?, if_pos, Option.some.injEq] at h
      obtain rfl | ⟨_, rfl⟩ := h <;> rw [resolvedSlots, Entries.find?, if_pos rfl]
    · simp only [Entries.find?, if_neg hkey] at h
      rcases slot with _ | ⟨_, _ | _⟩
      all_goals
        rw [resolvedSlots, Entries.find?, if_neg hkey]
        exact ih h

/-- The slots of an object with known fields. -/
theorem Object.HasFields.slots {o : Object Value} {names : List String} (h : o.HasFields names) :
    ∃ slots, o.wake.result = .ok slots ∧ (resolvedObject o).slots = .ok (resolvedSlots slots) ∧
      (slots.map (·.1)).Perm names ∧
      ∀ declared, (resolvedObject o).declared = some declared → declared.Perm names := by
  obtain ⟨identity, className, state⟩ := o
  match state with
  | .ready slots => exact ⟨slots, rfl, rfl, h, fun _ hd ↦ nomatch hd⟩
  | .ghost declared _ (.ok slots) =>
    refine ⟨slots, rfl, rfl, h.2, ?_⟩
    rintro _ ⟨⟩
    exact h.1
  | .ghost _ _ (.error _) => exact h.elim

theorem find?_of_get {o : Object Value} {slots : List (String × Slot Value)} {name : String}
    {value : Value} (hwake : o.wake.result = .ok slots)
    (h : (o.get name).result = .ok (some value)) :
    Entries.find? slots name = some (.initialized value) ∨
      ∃ cost, Entries.find? slots name = some (.pending cost (.ok value)) := by
  unfold Object.get at h
  simp only [hwake] at h
  cases hfind : Entries.find? slots name with
  | none =>
    rw [hfind] at h
    cases h
  | some slot =>
    rw [hfind] at h
    rcases slot with _ | ⟨cost, _ | _⟩
    · cases h
      exact .inl rfl
    · cases h
    · cases h
      exact .inr ⟨cost, rfl⟩

theorem eraseDups_of_nodup {names : List String} (h : names.Nodup) : names.eraseDups = names := by
  induction names with
  | nil => rfl
  | cons name names ih =>
    obtain ⟨hnew, hrest⟩ := List.nodup_cons.mp h
    have hkept : names.filter (fun other ↦ !other == name) = names := by
      refine List.filter_eq_self.mpr fun other hother ↦ ?_
      have hne : other ≠ name := fun heq ↦ hnew (heq ▸ hother)
      simp [hne]
    rw [List.eraseDups_cons, hkept, ih hrest]

/-- Reading all fields of an object with known fields answers each of them. -/
theorem Object.HasFields.read {o : Object Value} {names : List String} {value : String → Value}
    (h : o.HasFields names) (hdistinct : names.Nodup)
    (hvalue : ∀ name ∈ names, (o.get name).result = .ok (some (value name))) (log : List Access) :
    ∃ fields : List (String × Resolved), ((resolvedObject o).read log).1 = .ok fields ∧
      fields.length = names.length ∧
      ∀ name ∈ names, Entries.find? fields name = some (value name).resolved := by
  obtain ⟨slots, hwake, hslots, hkeys, hdeclared⟩ := h.slots
  have hperm : ((resolvedObject o).names log).Perm names := by
    obtain hnames | ⟨declared, hghost, hnames⟩ := ResolvedObject.names_eq_or hslots log
    · rw [hnames, keys_resolvedSlots]
      exact hkeys
    · have hnodup : declared.Nodup := (hdeclared declared hghost).nodup_iff.mpr hdistinct
      rw [hnames, eraseDups_of_nodup hnodup]
      exact hdeclared declared hghost
  have hread : ((resolvedObject o).read log).1 =
      .ok (((resolvedObject o).names log).map fun name ↦ (name, (value name).resolved)) := by
    refine ResolvedObject.read_eq_ok hslots (by simp [Function.comp_def]) fun field hfield ↦ ?_
    obtain ⟨name, hname, rfl⟩ := List.mem_map.mp hfield
    exact find?_resolvedSlots (find?_of_get hwake (hvalue name (hperm.mem_iff.mp hname)))
  refine ⟨_, hread, by rw [List.length_map, hperm.length_eq], fun name hname ↦ ?_⟩
  have hnames : (((resolvedObject o).names log).map fun name ↦
      (name, (value name).resolved)).map (·.1) = (resolvedObject o).names log := by
    simp [Function.comp_def]
  refine Entries.find?_of_mem ?_ (List.mem_map.mpr ⟨name, hperm.mem_iff.mpr hname, rfl⟩)
  rw [hnames]
  exact hperm.nodup_iff.mpr hdistinct

namespace Value.SameAs

/-! ## Values -/

theorem null : SameAs .null .null := fun _ ↦ rfl

theorem eq_null {a : Value} (h : a.SameAs .null) : a = .null := by
  cases a with
  | null => rfl
  | _ => cases h []

theorem bool (b : Bool) : SameAs (.bool b) (.bool b) := fun _ ↦ beq_self_eq_true b

theorem int (i : Int64) : SameAs (.int i) (.int i) := fun _ ↦ beq_self_eq_true i

theorem float {f g : Float} (h : sameFloat f g = true) : SameAs (.float f) (.float g) := fun _ ↦ h

theorem string (s : String) : SameAs (.string s) (.string s) := fun _ ↦ beq_self_eq_true s

theorem eq_string {a : Value} {s : String} (h : a.SameAs (.string s)) : a = .string s := by
  cases a with
  | string b => exact congrArg Value.string (beq_iff_eq.mp (h []))
  | _ => cases h []

theorem dateTime {t u : DateTime} (h : t.sameInstant u = true) :
    SameAs (.dateTime t) (.dateTime u) := fun _ ↦ h

theorem enum {className : String} {a b : Value} (h : a.SameAs b) :
    SameAs (.enum className a) (.enum className b) := by
  intro log
  show ((if className = className then a.resolved.same b.resolved
    else return false : Traced Bool) log).1 = true
  rw [if_pos rfl]
  exact h log

theorem list {as bs : List Value} (h : List.Forall₂ SameAs as bs) :
    SameAs (.list as) (.list bs) := by
  have hlength : (resolvedItems as).length = (resolvedItems bs).length := by
    induction h with
    | nil => rfl
    | cons _ _ ih => exact congrArg (· + 1) ih
  have hitems : (sameItems (resolvedItems as) (resolvedItems bs)).Holds := by
    clear hlength
    induction h with
    | nil => exact .pure
    | cons hab _ ih => exact .ite hab ih
  intro log
  show ((if (resolvedItems as).length = (resolvedItems bs).length
    then sameItems (resolvedItems as) (resolvedItems bs)
    else return false : Traced Bool) log).1 = true
  rw [if_pos hlength]
  exact hitems log

theorem resolvedEntries_eq_map (entries : List (DictKey × Value)) :
    resolvedEntries entries = entries.map fun entry ↦ (entry.1, entry.2.resolved) := by
  induction entries with
  | nil => rfl
  | cons entry entries ih => rw [resolvedEntries, ih, List.map_cons]

/-- Dictionaries with the same distinct keys in the same order, and the same values. -/
theorem dict {as bs : List (DictKey × Value)} (hdistinct : (bs.map (·.1)).Nodup)
    (h : List.Forall₂ (fun a b ↦ a.1 = b.1 ∧ a.2.SameAs b.2) as bs) :
    SameAs (.dict as) (.dict bs) := by
  have hlength : (resolvedEntries as).length = (resolvedEntries bs).length := by
    rw [resolvedEntries_eq_map, resolvedEntries_eq_map, List.length_map, List.length_map,
      h.length_eq]
  have hentries : ∀ others : List (DictKey × Resolved),
      (∀ b ∈ bs, Entries.find? others b.1 = some b.2.resolved) →
        (sameEntries (resolvedEntries as) others).Holds := by
    clear hlength hdistinct
    induction h with
    | nil => exact fun _ _ ↦ .pure
    | @cons a b as bs hab _ ih =>
      intro others hfind
      obtain ⟨key, a⟩ := a
      have hb := hfind b List.mem_cons_self
      rw [← hab.1] at hb
      rw [resolvedEntries, sameEntries, hb]
      exact .ite hab.2 (ih others fun b hb ↦ hfind b (List.mem_cons_of_mem _ hb))
  have hfind : ∀ b ∈ bs, Entries.find? (resolvedEntries bs) b.1 = some b.2.resolved := by
    intro b hb
    have hkeys : ((resolvedEntries bs).map (·.1)).Nodup := by
      rwa [resolvedEntries_eq_map, List.map_map]
    refine Entries.find?_of_mem hkeys ?_
    rw [resolvedEntries_eq_map]
    exact List.mem_map_of_mem hb
  intro log
  show ((if (resolvedEntries as).length = (resolvedEntries bs).length
    then sameEntries (resolvedEntries as) (resolvedEntries bs)
    else return false : Traced Bool) log).1 = true
  rw [if_pos hlength]
  exact hentries _ hfind log

theorem comparedSlots_resolvedSlots (fields : List (String × Value)) :
    comparedSlots (resolvedSlots (fields.map fun field ↦ (field.1, .initialized field.2))) =
      fields.map fun field ↦ (field.1, .ok field.2.resolved.same) := by
  induction fields with
  | nil => rfl
  | cons field fields ih => rw [List.map_cons, resolvedSlots, comparedSlots, ih, List.map_cons]

/-- An object that has been read and one with the same fields, each the same. -/
theorem object {identity : Identity} {fields : List (String × Value)} {o : Object Value}
    {value : String → Value} (hdistinct : (fields.map (·.1)).Nodup)
    (hfields : o.HasFields (fields.map (·.1)))
    (hvalue : ∀ field ∈ fields, (o.get field.1).result = .ok (some (value field.1)))
    (hsame : ∀ field ∈ fields, field.2.SameAs (value field.1)) :
    SameAs (.object ⟨identity, o.className,
      .ready (fields.map fun field ↦ (field.1, .initialized field.2))⟩) (.object o) := by
  have hclass : (resolvedObject o).className = o.className := by
    obtain ⟨_, _, state⟩ := o
    match state with
    | .ready _ | .ghost _ _ (.ok _) | .ghost _ _ (.error _) => rfl
  let tests := fields.map fun field ↦ (field.1, field.2.resolved.same)
  let compared : ResolvedObject (Resolved → Traced Bool) := ⟨identity, o.className, none,
    .ok (comparedSlots (resolvedSlots (fields.map fun field ↦ (field.1, .initialized field.2))))⟩
  have hleft : ∀ log, (compared.read log).1 = .ok tests := by
    intro log
    have hslots : compared.slots =
        .ok (fields.map fun field ↦ (field.1, .ok field.2.resolved.same)) :=
      congrArg Except.ok (comparedSlots_resolvedSlots fields)
    have hkeys : (fields.map fun field ↦
        (field.1, (Except.ok field.2.resolved.same : Except Failure _))).map (·.1) =
          fields.map (·.1) := by
      simp [Function.comp_def]
    refine ResolvedObject.read_eq_ok hslots ?_ fun test htest ↦ ?_
    · show ((compared.slots.toOption.map fun slots ↦ slots.map (·.1)).getD []) = tests.map (·.1)
      rw [hslots]
      exact hkeys.trans (by simp [tests])
    · obtain ⟨field, hfield, rfl⟩ := List.mem_map.mp htest
      refine Entries.find?_of_mem (hkeys ▸ hdistinct) ?_
      exact List.mem_map.mpr ⟨field, hfield, rfl⟩
  let Known (outcome : Except Failure (List (String × Resolved))) : Prop :=
    ∃ others, outcome = .ok others ∧ others.length = tests.length ∧
      ∀ field ∈ fields, Entries.find? others field.1 = some (value field.1).resolved
  have hright : ∀ log, Known ((resolvedObject o).read log).1 := by
    intro log
    have hnames : ∀ name ∈ fields.map (·.1), (o.get name).result = .ok (some (value name)) := by
      intro name hname
      obtain ⟨field, hfield, rfl⟩ := List.mem_map.mp hname
      exact hvalue field hfield
    obtain ⟨others, hread, hlength, hfind⟩ := hfields.read hdistinct hnames log
    refine ⟨others, hread, ?_, fun field hfield ↦ hfind _ (List.mem_map_of_mem hfield)⟩
    rw [hlength, List.length_map, List.length_map]
  have htests : ∀ others : List (String × Resolved),
      (∀ field ∈ fields, Entries.find? others field.1 = some (value field.1).resolved) →
        (sameFields others tests).Holds := by
    clear hleft hright hvalue hfields hdistinct
    intro others hfind
    induction fields with
    | nil => exact .pure
    | cons field fields ih =>
      have hrest := ih (fun f hf ↦ hsame f (List.mem_cons_of_mem _ hf))
        fun f hf ↦ hfind f (List.mem_cons_of_mem _ hf)
      show (sameFields others ((field.1, field.2.resolved.same) :: _)).Holds
      rw [sameFields, hfind field List.mem_cons_self]
      exact .ite (hsame field List.mem_cons_self) hrest
  show (if o.className = (resolvedObject o).className then _ else return false : Traced Bool).Holds
  rw [if_pos hclass.symm]
  refine @Traced.Holds.bind _ compared.read (· = .ok tests) _ hleft ?_
  rintro _ rfl
  refine .bind (P := Known) hright ?_
  rintro _ ⟨others, rfl, hlength, hfind⟩
  dsimp only
  rw [if_pos hlength.symm]
  exact htests others hfind

end Value.SameAs

end TypedJson
