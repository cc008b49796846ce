import Mathlib.Data.List.Nodup
import Mathlib.Data.List.Perm.Basic
import TypedJson.Proofs.Outcome
import TypedJson.Proofs.Value.Same

/-!
# Ghosts that are awake

A ghost answers the names that it is declared to have until it is read, and those of its slots from
then on. If every slot is declared the two agree up to their order, because names without a slot
are passed over: reading all fields then finds every slot, or fails if one of them does.

`Resolved.awake` is what a value looks like once all ghosts in it that can be read have been read.
Waking an object does not change that, wherever in a value the object is.
-/

namespace TypedJson

/-! ## Reading fields by name -/

namespace ResolvedObject

variable {α β : Type} {slots : List (String × Except Failure α)} {names : List String}
  {fields : List (String × α)}

/-- The fields of objects in which everything succeeds. -/
def known (fields : List (String × α)) : List (String × Except Failure α) :=
  fields.map fun field ↦ (field.1, .ok field.2)

/-- Only names that are asked for are answered, and in that order. -/
theorem keys_collect (h : collect slots names = .ok fields) :
    (fields.map (·.1)).Sublist names := by
  induction names generalizing fields with
  | nil =>
    cases h
    exact .slnil
  | cons name names ih =>
    unfold collect at h
    split at h
    · exact (ih h).cons _
    · cases h
    · obtain ⟨others, hothers, rfl⟩ := Outcome.map_eq_ok.mp h
      exact (ih hothers).cons_cons _

/-- Whatever is asked for and there is answered. -/
theorem mem_collect (h : collect slots names = .ok fields) {name : String} (hname : name ∈ names)
    {outcome : Except Failure α} (hfind : Entries.find? slots name = some outcome) :
    ∃ a, outcome = .ok a ∧ (name, a) ∈ fields := by
  induction names generalizing fields with
  | nil => exact absurd hname List.not_mem_nil
  | cons first names ih =>
    unfold collect at h
    rcases List.mem_cons.mp hname with rfl | hname
    · rw [hfind] at h
      cases outcome with
      | error failure => cases h
      | ok a =>
        obtain ⟨others, -, rfl⟩ := Outcome.map_eq_ok.mp h
        exact ⟨a, rfl, List.mem_cons_self⟩
    · split at h
      · exact ih h hname
      · cases h
      · obtain ⟨others, hothers, rfl⟩ := Outcome.map_eq_ok.mp h
        obtain ⟨a, ha, hmem⟩ := ih hothers hname
        exact ⟨a, ha, List.mem_cons_of_mem _ hmem⟩

/-- Nothing fails but a slot. -/
theorem mem_of_collect_error {failure : Failure} (h : collect slots names = .error failure) :
    ∃ name, (name, Except.error failure) ∈ slots := by
  induction names with
  | nil => cases h
  | cons name names ih =>
    unfold collect at h
    split at h
    · exact ih h
    · next found hfind =>
      cases h
      exact ⟨name, Entries.mem_of_find? hfind⟩
    · cases hrest : collect slots names with
      | error other =>
        rw [hrest] at h
        cases h
        exact ih hrest
      | ok others =>
        rw [hrest] at h
        cases h

/-- Names among which all slots are answer all slots, or the failure of one. -/
theorem collect_of_covers (hslots : (slots.map (·.1)).Nodup) (hnames : names.Nodup)
    (hcovers : ∀ name ∈ slots.map (·.1), name ∈ names) :
    (∃ fields, collect slots names = .ok fields ∧ slots.Perm (known fields)) ∨
      ∃ failure, collect slots names = .error failure ∧
        ∃ name, (name, Except.error failure) ∈ slots := by
  cases h : collect slots names with
  | error failure => exact .inr ⟨failure, rfl, mem_of_collect_error h⟩
  | ok fields =>
    refine .inl ⟨fields, rfl, ?_⟩
    have hknown : (known fields).Nodup := by
      refine List.Nodup.of_map Prod.fst ?_
      rw [known, List.map_map]
      exact (keys_collect h).nodup hnames
    -- Every name stands on each side once, so that the two need only have the same members.
    refine (List.perm_ext_iff_of_nodup (.of_map _ hslots) hknown).mpr fun ⟨name, outcome⟩ ↦ ?_
    constructor
    · intro hmem
      obtain ⟨a, rfl, ha⟩ := mem_collect h (hcovers name (List.mem_map_of_mem hmem))
        (Entries.find?_of_mem hslots hmem)
      exact List.mem_map.mpr ⟨(name, a), ha, rfl⟩
    · intro hmem
      obtain ⟨⟨name, a⟩, ha, heq⟩ := List.mem_map.mp hmem
      cases heq
      exact mem_of_collect h name a ha

theorem exists_known (h : ∀ slot ∈ slots, ∃ a, slot.2 = .ok a) :
    ∃ fields, slots = known fields := by
  induction slots with
  | nil => exact ⟨[], rfl⟩
  | cons slot slots ih =>
    obtain ⟨⟨a, ha⟩, hrest⟩ := List.forall_mem_cons.mp h
    obtain ⟨fields, rfl⟩ := ih hrest
    exact ⟨(slot.1, a) :: fields, List.cons_eq_cons.mpr ⟨Prod.ext rfl ha, rfl⟩⟩

/-- The slots of the object are declared, each of them once. -/
structure DeclaresSlots (o : ResolvedObject α) : Prop where
  distinct : ∀ slots, o.slots = .ok slots → (slots.map (·.1)).Nodup
  declared : ∀ slots names, o.slots = .ok slots → o.declared = some names →
    ∀ name ∈ slots.map (·.1), name ∈ names

theorem nodup_eraseDups (names : List String) : names.eraseDups.Nodup := by
  have hkeys := Entries.nodup_keys_ofList (names.map fun name ↦ (name, ()))
  rw [Entries.keys_ofList, List.map_map] at hkeys
  simpa [Function.comp_def] using hkeys

/-- The fields that an object has once it has been read, in any order. One that cannot be read shows
no fields if it is declared to have none. -/
inductive Shows (o : ResolvedObject α) : List (String × α) → Prop
  | slots {slots : List (String × Except Failure α)} {fields : List (String × α)}
    (hslots : o.slots = .ok slots) (hfields : slots.Perm (known fields)) : Shows o fields
  | unread {failure : Failure} (hslots : o.slots = .error failure)
    (hdeclared : o.declared.getD [] = []) : Shows o []

theorem Shows.perm {o : ResolvedObject α} {fields others : List (String × α)} (h : o.Shows fields)
    (h' : o.Shows others) : fields.Perm others := by
  cases h with
  | slots hslots hfields =>
    cases h' with
    | slots hslots' hothers =>
      obtain rfl := Except.ok.inj (hslots.symm.trans hslots')
      have hinj : Function.Injective fun field : String × α ↦
          (field.1, (Except.ok field.2 : Except Failure α)) := by
        intro a b heq
        obtain ⟨hname, hvalue⟩ := Prod.mk.inj heq
        exact Prod.ext hname (Except.ok.inj hvalue)
      exact (List.map_perm_map_iff hinj).mp (hfields.symm.trans hothers)
    | unread hslots' => cases hslots.symm.trans hslots'
  | unread hslots =>
    cases h' with
    | slots hslots' => cases hslots.symm.trans hslots'
    | unread => exact .nil

/-- What is shown are slots. -/
theorem Shows.mem {o : ResolvedObject α} {fields : List (String × α)} (h : o.Shows fields)
    {field : String × α} (hmem : field ∈ fields) :
    ∃ slots, o.slots = .ok slots ∧ (field.1, Except.ok field.2) ∈ slots := by
  cases h with
  | slots hslots hperm =>
    exact ⟨_, hslots, hperm.mem_iff.mpr (List.mem_map.mpr ⟨field, hmem, rfl⟩)⟩
  | unread => exact absurd hmem List.not_mem_nil

theorem read_of_slots {o : ResolvedObject α} (hslots : o.slots = .ok slots) (log : List Access) :
    (o.read log).1 = collect slots (o.names log) := by
  rw [read_eq, hslots]
  cases o.names log <;> rfl

/-- Reading all fields of an object that declares its slots answers what it shows, and fails if it
shows nothing, whatever has been read before. -/
theorem DeclaresSlots.read {o : ResolvedObject α} (h : o.DeclaresSlots) (log : List Access) :
    (∃ fields, (o.read log).1 = .ok fields ∧ o.Shows fields) ∨
      (∃ failure, (o.read log).1 = .error failure) ∧ ∀ fields, ¬o.Shows fields := by
  cases hslots : o.slots with
  | error failure =>
    have hnames : o.names log = o.declared.getD [] := by
      unfold names
      rw [hslots]
      cases o.declared <;> rfl
    rw [read_eq, hnames, hslots]
    -- An object that fails is read all the same if it is asked for no name.
    cases hdeclared : o.declared.getD [] with
    | nil => exact .inl ⟨[], rfl, .unread hslots hdeclared⟩
    | cons name names =>
      refine .inr ⟨⟨failure, rfl⟩, fun fields hshows ↦ ?_⟩
      cases hshows with
      | slots hslots' => cases hslots.symm.trans hslots'
      | unread _ hdeclared' => cases hdeclared.symm.trans hdeclared'
  | ok slots =>
    have hdistinct := h.distinct slots hslots
    -- Asleep or awake, the object is asked for names that cover its slots.
    have hnames : (o.names log).Nodup ∧ ∀ name ∈ slots.map (·.1), name ∈ o.names log := by
      obtain hnames | ⟨declared, hdeclared, hnames⟩ := names_eq_or hslots log
      · rw [hnames]
        exact ⟨hdistinct, fun _ hname ↦ hname⟩
      · rw [hnames]
        refine ⟨nodup_eraseDups declared, fun name hname ↦ ?_⟩
        exact List.mem_eraseDups.mpr (h.declared slots declared hslots hdeclared name hname)
    rw [read_of_slots hslots]
    obtain ⟨fields, hfields, hperm⟩ | ⟨failure, hfailure, name, hmem⟩ :=
      collect_of_covers hdistinct hnames.1 hnames.2
    · exact .inl ⟨fields, hfields, .slots hslots hperm⟩
    · refine .inr ⟨⟨failure, hfailure⟩, fun fields hshows ↦ ?_⟩
      cases hshows with
      | slots hslots' hperm =>
        obtain rfl := Except.ok.inj (hslots.symm.trans hslots')
        obtain ⟨field, -, heq⟩ := List.mem_map.mp (hperm.mem_iff.mp hmem)
        cases (Prod.mk.inj heq).2
      | unread hslots' => cases hslots.symm.trans hslots'

/-- The object with its fields changed. -/
def map (f : α → β) (o : ResolvedObject α) : ResolvedObject β :=
  ⟨o.identity, o.className, o.declared,
    o.slots.map (·.map fun slot ↦ (slot.1, slot.2.map f))⟩

theorem collect_map (f : α → β) (slots : List (String × Except Failure α)) (names : List String) :
    collect (slots.map fun slot ↦ (slot.1, slot.2.map f)) names =
      (collect slots names).map (·.map fun field ↦ (field.1, f field.2)) := by
  induction names with
  | nil => rfl
  | cons name names ih =>
    rw [collect, collect, Entries.find?_map_snd (Except.map f), ih]
    cases Entries.find? slots name with
    | none => rfl
    | some outcome =>
      cases outcome with
      | error failure => rfl
      | ok a => cases collect slots names <;> rfl

theorem keys_map (f : α → β) (slots : List (String × Except Failure α)) :
    (slots.map fun slot ↦ (slot.1, slot.2.map f)).map (·.1) = slots.map (·.1) := by
  rw [List.map_map]
  rfl

theorem names_map (f : α → β) (o : ResolvedObject α) (log : List Access) :
    (o.map f).names log = o.names log := by
  obtain ⟨identity, className, declared, failure | slots⟩ := o
  · cases declared <;> rfl
  · cases declared with
    | none => exact keys_map f slots
    | some declared => exact ite_congr rfl (fun _ ↦ keys_map f slots) fun _ ↦ rfl

/-- What is read of the fields does not depend on what they are. -/
theorem read_map (f : α → β) (o : ResolvedObject α) (log : List Access) :
    (o.map f).read log =
      ((o.read log).1.map (·.map fun field ↦ (field.1, f field.2)), (o.read log).2) := by
  rw [read_eq, read_eq, names_map]
  refine Prod.ext ?_ rfl
  obtain ⟨identity, className, declared, failure | slots⟩ := o
  · cases names _ log <;> rfl
  · cases names _ log with
    | nil => rfl
    | cons name names => exact collect_map f slots _

end ResolvedObject

/-! ## Values whose ghosts declare their slots -/

/-- Every ghost in the value declares the slots that it turns out to have. -/
inductive Resolved.IsDeclared : Resolved → Prop
  | null : IsDeclared .null
  | bool (b : Bool) : IsDeclared (.bool b)
  | int (i : Int64) : IsDeclared (.int i)
  | float (f : Float) : IsDeclared (.float f)
  | string (s : String) : IsDeclared (.string s)
  | list {items : List Resolved} (h : ∀ item ∈ items, item.IsDeclared) : IsDeclared (.list items)
  | dict {entries : List (DictKey × Resolved)} (h : ∀ entry ∈ entries, entry.2.IsDeclared) :
    IsDeclared (.dict entries)
  | object {o : ResolvedObject Resolved} (hslots : o.DeclaresSlots)
    (h : ∀ slots, o.slots = .ok slots → ∀ name v, (name, Except.ok v) ∈ slots → v.IsDeclared) :
    IsDeclared (.object o)
  | enum {className : String} {case : Resolved} (h : case.IsDeclared) :
    IsDeclared (.enum className case)
  | dateTime (t : DateTime) : IsDeclared (.dateTime t)

mutual

/-- The value after every ghost in it that can be read has been read. -/
def Resolved.awake : Resolved → Resolved
  | .list items => .list (awakeItems items)
  | .dict entries => .dict (awakeEntries entries)
  | .object o => .object (awakeObject o)
  | .enum className case => .enum className case.awake
  | value => value
termination_by structural value => value

/-- The items of a list after every ghost has been read. -/
def awakeItems : List Resolved → List Resolved
  | [] => []
  | item :: items => item.awake :: awakeItems items
termination_by structural items => items

/-- The entries of a dictionary after every ghost has been read. -/
def awakeEntries : List (DictKey × Resolved) → List (DictKey × Resolved)
  | [] => []
  | (key, value) :: entries => (key, value.awake) :: awakeEntries entries
termination_by structural entries => entries

/-- An object after every ghost has been read. One that cannot be read stays a ghost. -/
def awakeObject : ResolvedObject Resolved → ResolvedObject Resolved
  | ⟨identity, className, _, .ok slots⟩ => ⟨identity, className, none, .ok (awakeSlots slots)⟩
  | ⟨identity, className, declared, .error failure⟩ =>
    ⟨identity, className, declared, .error failure⟩
termination_by structural o => o

/-- Slots after every ghost has been read. -/
def awakeSlots : List (String × Except Failure Resolved) → List (String × Except Failure Resolved)
  | [] => []
  | (name, .ok value) :: slots => (name, .ok value.awake) :: awakeSlots slots
  | (name, .error failure) :: slots => (name, .error failure) :: awakeSlots slots
termination_by structural slots => slots

end

theorem awakeItems_eq_map (items : List Resolved) :
    awakeItems items = items.map Resolved.awake := by
  induction items with
  | nil => rfl
  | cons item items ih => rw [awakeItems, ih, List.map_cons]

theorem awakeEntries_eq_map (entries : List (DictKey × Resolved)) :
    awakeEntries entries = entries.map fun entry ↦ (entry.1, entry.2.awake) := by
  induction entries with
  | nil => rfl
  | cons entry entries ih => rw [awakeEntries, ih, List.map_cons]

theorem awakeSlots_eq_map (slots : List (String × Except Failure Resolved)) :
    awakeSlots slots = slots.map fun slot ↦ (slot.1, slot.2.map Resolved.awake) := by
  induction slots with
  | nil => rfl
  | cons slot slots ih =>
    match slot with
    | (_, .ok _) | (_, .error _) =>
      rw [awakeSlots, ih, List.map_cons]
      rfl

namespace ResolvedObject

variable {o : ResolvedObject Resolved}

theorem className_awake (o : ResolvedObject Resolved) :
    (awakeObject o).className = o.className := by
  obtain ⟨identity, className, declared, failure | slots⟩ := o <;> rfl

/-- An object that is awake declares its slots, since nothing else is declared. -/
theorem DeclaresSlots.awake (h : o.DeclaresSlots) : (awakeObject o).DeclaresSlots := by
  obtain ⟨identity, className, declared, failure | slots⟩ := o
  · exact ⟨fun _ h ↦ (nomatch h), fun _ _ h ↦ (nomatch h)⟩
  · refine ⟨?_, fun _ _ _ h ↦ (nomatch h)⟩
    rintro _ ⟨⟩
    rw [awakeSlots_eq_map, keys_map]
    exact h.distinct slots rfl

theorem awakeSlots_known (fields : List (String × Resolved)) :
    awakeSlots (known fields) = known (fields.map fun field ↦ (field.1, field.2.awake)) := by
  rw [awakeSlots_eq_map, known, known, List.map_map, List.map_map]
  rfl

theorem Shows.awake {fields : List (String × Resolved)} (h : o.Shows fields) :
    (awakeObject o).Shows (fields.map fun field ↦ (field.1, field.2.awake)) := by
  obtain ⟨identity, className, declared, outcome⟩ := o
  cases h with
  | slots hslots hfields =>
    obtain rfl : outcome = _ := hslots
    refine .slots rfl ?_
    rw [← awakeSlots_known, awakeSlots_eq_map, awakeSlots_eq_map]
    exact hfields.map _
  | unread hslots hdeclared =>
    obtain rfl : outcome = _ := hslots
    exact .unread rfl hdeclared

/-- An object that is awake shows nothing but what it would show before. -/
theorem exists_of_shows_awake {shown : List (String × Resolved)} (h : (awakeObject o).Shows shown) :
    ∃ fields, o.Shows fields ∧
      (fields.map fun field ↦ (field.1, field.2.awake)).Perm shown := by
  suffices hfields : ∃ fields, o.Shows fields by
    obtain ⟨fields, hfields⟩ := hfields
    exact ⟨fields, hfields, hfields.awake.perm h⟩
  obtain ⟨identity, className, declared, failure | slots⟩ := o
  · cases h with
    | slots hslots => cases hslots
    | unread hslots hdeclared => exact ⟨[], .unread rfl hdeclared⟩
  · cases h with
    | slots hslots hshown =>
      cases hslots
      -- Everything that is shown has come to a value, so no slot has failed.
      have hok : ∀ slot ∈ slots, ∃ v, slot.2 = .ok v := by
        intro slot hslot
        have hmem : (slot.1, slot.2.map Resolved.awake) ∈ awakeSlots slots := by
          rw [awakeSlots_eq_map]
          exact List.mem_map_of_mem hslot
        obtain ⟨field, -, heq⟩ := List.mem_map.mp (hshown.mem_iff.mp hmem)
        obtain ⟨v, hv, -⟩ := Outcome.map_eq_ok.mp (Prod.mk.inj heq).2.symm
        exact ⟨v, hv⟩
      obtain ⟨fields, rfl⟩ := exists_known hok
      exact ⟨fields, .slots rfl (.refl _)⟩
    | unread hslots => cases hslots

end ResolvedObject

/-! ## Waking objects in a value -/

/-- The second value is the first with some of its ghosts read. -/
structure Value.Wakes (v w : Value) : Prop where
  awake : w.resolved.awake = v.resolved.awake
  isDeclared : v.resolved.IsDeclared → w.resolved.IsDeclared

/-- What a slot comes to. -/
def Slot.outcome {α : Type} : Slot α → Except Failure α
  | .initialized value => .ok value
  | .pending _ outcome => outcome

theorem resolvedSlots_eq_map (slots : List (String × Slot Value)) :
    resolvedSlots slots = slots.map fun slot ↦ (slot.1, slot.2.outcome.map Value.resolved) := by
  induction slots with
  | nil => rfl
  | cons slot slots ih =>
    match slot with
    | (_, .initialized _) | (_, .pending _ (.ok _)) | (_, .pending _ (.error _)) =>
      rw [resolvedSlots, ih, List.map_cons]
      rfl

/-- The slots fail alike, or come to values the second of which is the first with ghosts read. -/
inductive Slot.Wakes : String × Slot Value → String × Slot Value → Prop
  | ok {name : String} {s t : Slot Value} {v w : Value} (hs : s.outcome = .ok v)
    (ht : t.outcome = .ok w) (h : v.Wakes w) : Wakes (name, s) (name, t)
  | error {name : String} {s t : Slot Value} {failure : Failure}
    (hs : s.outcome = .error failure) (ht : t.outcome = .error failure) : Wakes (name, s) (name, t)

namespace Value.Wakes

theorem refl (v : Value) : Wakes v v := ⟨rfl, id⟩

theorem trans {u v w : Value} (h : Wakes u v) (h' : Wakes v w) : Wakes u w :=
  ⟨h'.awake.trans h.awake, h'.isDeclared ∘ h.isDeclared⟩

/-- The object itself is read. -/
theorem wake (o : Object Value) : Wakes (.object o) (.object o.wake.object) := by
  obtain ⟨identity, className, ⟨declared, cost, failure | slots⟩ | slots⟩ := o
  · exact refl _
  · refine ⟨rfl, fun h ↦ ?_⟩
    cases h with
    | object hslots hvalues =>
      exact .object ⟨hslots.distinct, fun _ _ _ h ↦ nomatch h⟩ hvalues
  · exact refl _

theorem list {vs ws : List Value} (h : List.Forall₂ Wakes vs ws) :
    Wakes (.list vs) (.list ws) := by
  have hitems : awakeItems (resolvedItems ws) = awakeItems (resolvedItems vs) ∧
      ((∀ v ∈ resolvedItems vs, v.IsDeclared) → ∀ w ∈ resolvedItems ws, w.IsDeclared) := by
    induction h with
    | nil => exact ⟨rfl, id⟩
    | cons hvw _ ih =>
      refine ⟨List.cons_eq_cons.mpr ⟨hvw.awake, ih.1⟩, fun hall ↦ ?_⟩
      obtain ⟨hfirst, hrest⟩ := List.forall_mem_cons.mp hall
      exact List.forall_mem_cons.mpr ⟨hvw.isDeclared hfirst, ih.2 hrest⟩
  refine ⟨congrArg Resolved.list hitems.1, fun hdeclared ↦ ?_⟩
  cases hdeclared with
  | list hall => exact .list (hitems.2 hall)

theorem dict {vs ws : List (DictKey × Value)}
    (h : List.Forall₂ (fun v w ↦ v.1 = w.1 ∧ v.2.Wakes w.2) vs ws) :
    Wakes (.dict vs) (.dict ws) := by
  have hentries : awakeEntries (resolvedEntries ws) = awakeEntries (resolvedEntries vs) ∧
      ((∀ v ∈ resolvedEntries vs, v.2.IsDeclared) → ∀ w ∈ resolvedEntries ws, w.2.IsDeclared) := by
    induction h with
    | nil => exact ⟨rfl, id⟩
    | cons hvw _ ih =>
      refine ⟨List.cons_eq_cons.mpr ⟨Prod.ext hvw.1.symm hvw.2.awake, ih.1⟩, fun hall ↦ ?_⟩
      obtain ⟨hfirst, hrest⟩ := List.forall_mem_cons.mp hall
      exact List.forall_mem_cons.mpr ⟨hvw.2.isDeclared hfirst, ih.2 hrest⟩
  refine ⟨congrArg Resolved.dict hentries.1, fun hdeclared ↦ ?_⟩
  cases hdeclared with
  | dict hall => exact .dict (hentries.2 hall)

theorem enum {className : String} {v w : Value} (h : Wakes v w) :
    Wakes (.enum className v) (.enum className w) := by
  refine ⟨congrArg (Resolved.enum className) h.awake, fun hdeclared ↦ ?_⟩
  cases hdeclared with
  | enum hcase => exact .enum (h.isDeclared hcase)

theorem ready {identity : Identity} {className : String} {vs ws : List (String × Slot Value)}
    (h : List.Forall₂ Slot.Wakes vs ws) :
    Wakes (.object ⟨identity, className, .ready vs⟩)
      (.object ⟨identity, className, .ready ws⟩) := by
  have hkeys : vs.map (·.1) = ws.map (·.1) := by
    induction h with
    | nil => rfl
    | cons hvw _ ih => cases hvw <;> exact List.cons_eq_cons.mpr ⟨rfl, ih⟩
  have hslots : awakeSlots (resolvedSlots ws) = awakeSlots (resolvedSlots vs) ∧
      ((∀ name v, (name, Except.ok v) ∈ resolvedSlots vs → v.IsDeclared) →
        ∀ name w, (name, Except.ok w) ∈ resolvedSlots ws → w.IsDeclared) := by
    simp only [awakeSlots_eq_map, resolvedSlots_eq_map]
    clear hkeys
    induction h with
    | nil => exact ⟨rfl, id⟩
    | cons hvw _ ih =>
      obtain ⟨hawake, hdeclared⟩ := ih
      cases hvw with
      | ok hs ht hvw =>
        simp only [List.map_cons, hs, ht, Except.map]
        refine ⟨List.cons_eq_cons.mpr ⟨by rw [hvw.awake], hawake⟩, fun hall name w hmem ↦ ?_⟩
        rcases List.mem_cons.mp hmem with heq | hmem
        · cases heq
          exact hvw.isDeclared (hall _ _ List.mem_cons_self)
        · exact hdeclared (fun n u hu ↦ hall n u (List.mem_cons_of_mem _ hu)) name w hmem
      | error hs ht =>
        simp only [List.map_cons, hs, ht, Except.map]
        refine ⟨List.cons_eq_cons.mpr ⟨rfl, hawake⟩, fun hall name w hmem ↦ ?_⟩
        rcases List.mem_cons.mp hmem with heq | hmem
        · cases heq
        · exact hdeclared (fun n u hu ↦ hall n u (List.mem_cons_of_mem _ hu)) name w hmem
  constructor
  · show Resolved.object ⟨_, _, none, .ok (awakeSlots _)⟩ = .object ⟨_, _, none, .ok (awakeSlots _)⟩
    rw [hslots.1]
  · intro hdeclared
    cases hdeclared with
    | object hdeclares hvalues =>
      refine .object ⟨?_, fun _ _ _ h ↦ nomatch h⟩ ?_
      · rintro _ ⟨⟩
        rw [keys_resolvedSlots, ← hkeys, ← keys_resolvedSlots]
        exact hdeclares.distinct _ rfl
      · rintro _ ⟨⟩
        exact hslots.2 (hvalues _ rfl)

variable {change : Object Value → Object Value × Cost}

mutual

/-- Objects may be read anywhere in a value. -/
theorem alter (h : ∀ o, Wakes (.object o) (.object (change o).1)) :
    ∀ v : Value, Wakes v (v.alter change).1
  | .list items => .list (alterItems h items)
  | .dict entries => .dict (alterEntries h entries)
  | .enum _ case => .enum (alter h case)
  | .object o => (alterObject h o).trans (h _)
  | .null => .refl _
  | .bool _ => .refl _
  | .int _ => .refl _
  | .float _ => .refl _
  | .string _ => .refl _
  | .dateTime _ => .refl _
termination_by structural v => v

theorem alterItems (h : ∀ o, Wakes (.object o) (.object (change o).1)) :
    ∀ items : List Value, List.Forall₂ Wakes items (TypedJson.alterItems change items).1
  | [] => .nil
  | item :: items => .cons (alter h item) (alterItems h items)
termination_by structural items => items

theorem alterEntries (h : ∀ o, Wakes (.object o) (.object (change o).1)) :
    ∀ entries : List (DictKey × Value), List.Forall₂ (fun v w ↦ v.1 = w.1 ∧ v.2.Wakes w.2) entries
      (TypedJson.alterEntries change entries).1
  | [] => .nil
  | (_, value) :: entries => .cons ⟨rfl, alter h value⟩ (alterEntries h entries)
termination_by structural entries => entries

theorem alterObject (h : ∀ o, Wakes (.object o) (.object (change o).1)) :
    ∀ o : Object Value, Wakes (.object o) (.object (TypedJson.alterObject change o).1)
  | ⟨_, _, .ready slots⟩ => .ready (alterSlots h slots)
  | ⟨_, _, .ghost _ _ _⟩ => .refl _
termination_by structural o => o

theorem alterSlots (h : ∀ o, Wakes (.object o) (.object (change o).1)) :
    ∀ slots : List (String × Slot Value),
      List.Forall₂ Slot.Wakes slots (TypedJson.alterSlots change slots).1
  | [] => .nil
  | (_, .initialized value) :: slots => .cons (.ok rfl rfl (alter h value)) (alterSlots h slots)
  | (_, .pending _ (.ok value)) :: slots => .cons (.ok rfl rfl (.refl value)) (alterSlots h slots)
  | (_, .pending _ (.error _)) :: slots => .cons (.error rfl rfl) (alterSlots h slots)
termination_by structural slots => slots

end

/-- The object of an identity is read wherever it is. -/
theorem alterAt_wake (v : Value) (identity : Identity) :
    Wakes v (v.alterAt identity fun o ↦ (o.wake.object, o.wake.cost)).1 := by
  refine alter (fun o ↦ ?_) v
  split
  · exact wake o
  · exact refl _

end Value.Wakes

/-! ## Reading all fields -/

namespace Object

open ResolvedObject

variable {slots : List (String × Slot Value)}

/-- What slots come to, by name. -/
def outcomes (slots : List (String × Slot Value)) : List (String × Except Failure Value) :=
  slots.map fun slot ↦ (slot.1, slot.2.outcome)

theorem find?_outcomes (slots : List (String × Slot Value)) (name : String) :
    Entries.find? (outcomes slots) name = (Entries.find? slots name).map Slot.outcome :=
  Entries.find?_map_snd Slot.outcome slots name

theorem collect_congr {others : List (String × Except Failure Value)}
    {slots : List (String × Except Failure Value)}
    (h : ∀ name, Entries.find? slots name = Entries.find? others name) (names : List String) :
    collect slots names = collect others names := by
  induction names with
  | nil => rfl
  | cons name names ih => rw [collect, collect, h, ih]

theorem find?_outcomes_put {name : String} {cost : Cost} {value : Value}
    (h : Entries.find? slots name = some (.pending cost (.ok value))) (other : String) :
    Entries.find? (outcomes (Entries.put slots name (.initialized value))) other =
      Entries.find? (outcomes slots) other := by
  rw [find?_outcomes, find?_outcomes]
  by_cases heq : name = other
  · rw [← heq, Entries.find?_put_self, h]
    rfl
  · rw [Entries.find?_put_of_ne _ _ heq]

/-- Reading a field answers what its slot comes to, and changes what no slot comes to. -/
theorem get_spec {o : Object Value} (hslots : o.wake.result = .ok slots) (name : String) :
    (o.get name).result =
      (match Entries.find? (outcomes slots) name with
      | none => .ok none
      | some outcome => outcome.map some) ∧
    ∃ slots', (o.get name).object.wake.result = .ok slots' ∧
      ∀ other, Entries.find? (outcomes slots') other = Entries.find? (outcomes slots) other := by
  have hready : o.wake.object.wake.result = .ok slots := by
    obtain ⟨identity, className, ⟨declared, cost, failure | others⟩ | others⟩ := o
    · cases hslots
    · exact hslots
    · exact hslots
  rw [find?_outcomes]
  unfold get
  simp only [hslots]
  cases hfind : Entries.find? slots name with
  | none => exact ⟨rfl, slots, hready, fun _ ↦ rfl⟩
  | some slot =>
    rcases slot with value | ⟨cost, failure | value⟩
    · exact ⟨rfl, slots, hready, fun _ ↦ rfl⟩
    · exact ⟨rfl, slots, hready, fun _ ↦ rfl⟩
    · exact ⟨rfl, _, rfl, find?_outcomes_put hfind⟩

/-- Fields are read as their slots come out, though reading one changes the object. -/
theorem getEach_result {o : Object Value} (hslots : o.wake.result = .ok slots)
    (names : List String) : (o.getEach names).result = collect (outcomes slots) names := by
  induction names generalizing o slots with
  | nil => rfl
  | cons name names ih =>
    obtain ⟨hresult, slots', hslots', hsame⟩ := get_spec hslots name
    -- The other names are read from the object that this reading leaves.
    have hrest := (ih hslots').trans (collect_congr hsame names)
    rw [getEach, collect]
    cases hfind : Entries.find? (outcomes slots) name with
    | none =>
      rw [hfind] at hresult
      simp only [hresult, hrest]
      cases collect (outcomes slots) names <;> rfl
    | some outcome =>
      rw [hfind] at hresult
      cases outcome with
      | error failure => simp only [hresult, Except.map]
      | ok value => simp only [hresult, hrest, Except.map]

/-- Reading all fields of an object asks for the names that it has at the start. -/
theorem resolveAll_result {o : Object Value} (hslots : o.wake.result = .ok slots) :
    o.resolveAll.result = collect (outcomes slots) o.fieldNames.eraseDups :=
  getEach_result hslots _

/-- The fields are all the slots in some order, or the failure is that of a slot. -/
def ReadsAll (slots : List (String × Slot Value)) :
    Except Failure (Entries String Value) → Prop
  | .ok fields => (outcomes slots).Perm (known fields)
  | .error failure => ∃ name, (name, Except.error failure) ∈ outcomes slots

/-- An object that declares its slots reads all of them. -/
theorem readsAll_resolveAll {o : Object Value} (hslots : o.wake.result = .ok slots)
    (hdistinct : (slots.map (·.1)).Nodup)
    (hdeclared : ∀ name ∈ slots.map (·.1), name ∈ o.fieldNames) :
    ReadsAll slots o.resolveAll.result := by
  have hkeys : (outcomes slots).map (·.1) = slots.map (·.1) := by
    rw [outcomes, List.map_map]
    rfl
  have hcovers : ∀ name ∈ (outcomes slots).map (·.1), name ∈ o.fieldNames.eraseDups :=
    fun name hname ↦ List.mem_eraseDups.mpr (hdeclared name (hkeys ▸ hname))
  rw [resolveAll_result hslots]
  obtain ⟨fields, hfields, hperm⟩ | ⟨failure, hfailure, hslot⟩ :=
    collect_of_covers (hkeys ▸ hdistinct) (nodup_eraseDups _) hcovers
  · rw [hfields]
    exact hperm
  · rw [hfailure]
    exact hslot

end Object

end TypedJson
