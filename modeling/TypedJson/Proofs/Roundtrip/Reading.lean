import TypedJson.Proofs.Aligned
import TypedJson.Proofs.Decode.Looks
import TypedJson.Proofs.Entries
import TypedJson.Proofs.Value.Same

/-!
# Steps that read values

A step of decoding *gives* something of a kind if it succeeds from every state and changes nothing
but what decoding has cost. In particular it collects no errors. Reading a list, a dictionary or the
fields of an object gives the expected values if reading the members does.
-/

namespace TypedJson.Decode

/-- The step succeeds from every state with something of a kind, and collects nothing. -/
def Gives {α : Type} (x : Decode α) (P : α → Prop) : Prop :=
  ∀ state, ∃ a cost, x state = .ok a { state with cost } ∧ P a

namespace Gives

variable {α β : Type} {x : Decode α} {P P' : α → Prop} {Q : β → Prop}

theorem pure {a : α} (h : P a) : Gives (pure a) P := fun state ↦ ⟨a, state.cost, rfl, h⟩

theorem bind {f : α → Decode β} (hx : x.Gives P) (hf : ∀ a, P a → (f a).Gives Q) :
    Gives (x >>= f) Q := by
  intro state
  obtain ⟨a, cost, hstate, hP⟩ := hx state
  obtain ⟨b, cost', hstate', hQ⟩ := hf a hP { state with cost }
  refine ⟨b, cost', ?_, hQ⟩
  show EStateM.bind x f state = _
  rw [EStateM.bind, hstate]
  exact hstate'

theorem mono (hx : x.Gives P) (h : ∀ a, P a → P' a) : x.Gives P' := by
  intro state
  obtain ⟨a, cost, hstate, hP⟩ := hx state
  exact ⟨a, cost, hstate, h a hP⟩

theorem map {f : α → β} (hx : x.Gives P) (hf : ∀ a, P a → Q (f a)) : Gives (f <$> x) Q := by
  rw [map_eq_pure_bind]
  exact hx.bind fun a ha ↦ pure (hf a ha)

theorem pay_bind {cost : Cost} {f : Unit → Decode β} (h : (f ()).Gives Q) :
    Gives (Decode.pay cost >>= f) Q := fun state ↦ h { state with cost := state.cost + cost }

theorem look_bind {w : Window} {f : Unit → Decode β} (h : (f ()).Gives Q) :
    Gives (Decode.look w >>= f) Q := h.pay_bind

theorem found {outcome : Except Failure α} {a : α} (hok : outcome = .ok a) (h : P a) :
    Gives (Decode.found outcome) P := by
  rw [hok]
  exact pure h

theorem tryCatch {f : Failure → Decode α} (hx : x.Gives P) : Gives (tryCatch x f) P := by
  intro state
  obtain ⟨a, cost, hstate, hP⟩ := hx state
  refine ⟨a, cost, ?_, hP⟩
  show EStateM.tryCatch x f state = _
  rw [EStateM.tryCatch, hstate]

theorem locate {place : Place} (hx : x.Gives P) : Gives (Decode.locate place x) P := hx.tryCatch

/-- A step that succeeds is not recorded. -/
theorem orRecord (hx : x.Gives P) :
    Gives (Decode.orRecord x) fun found ↦ ∃ a, found = some a ∧ P a :=
  (hx.map fun a ha ↦ ⟨a, rfl, ha⟩).tryCatch

end Gives

/-! ## Members -/

/-- The plan reads a value from wherever the tree stands. -/
def Reads (plan : Plan) (tree : Parsed) (value : Value) : Prop :=
  ∀ w place, tree.In w → (plan.read w place).Gives (·.SameAs value)

theorem Reads.value {plan : Plan} {tree : Parsed} {value : Value} (h : Reads plan tree value)
    {w : Window} (hw : tree.In w) (place : Place) :
    (Decode.value plan w place).Gives (·.SameAs value) :=
  (h w place hw).locate

theorem gives_members_list {tree : Parsed} {trees : List Parsed} {w : Window} (hw : tree.In w)
    (hitems : tree.items = .ok trees) :
    (members .list w).Gives (List.Forall₂ (fun item m ↦ item.IsMember () m) trees) := by
  have hsplit := Container.split_list hw
  rw [hitems] at hsplit
  obtain ⟨ms, hms, hall⟩ := hsplit
  exact .look_bind (.found hms hall)

theorem gives_members_dict {tree : Parsed} {trees : List (String × Parsed)} {w : Window}
    (hw : tree.In w) (hentries : tree.entries = .ok trees) :
    (members .dict w).Gives
      (List.Forall₂ (fun entry m ↦ entry.2.IsMember entry.1 m) trees) := by
  have hsplit := Container.split_dict hw
  rw [hentries] at hsplit
  obtain ⟨ms, hms, hall⟩ := hsplit
  exact .look_bind (.found hms hall)

/-- Items are read if each of them is. -/
theorem gives_items {item : Plan} {trees : List Parsed} {values : List Value}
    (h : List.Forall₂ (Reads item) trees values)
    {ms : List (Except Failure (Member Unit))}
    (hms : List.Forall₂ (fun tree m ↦ tree.IsMember () m) trees ms) (place : Place) (i : Nat) :
    (items item place i ms).Gives fun read ↦ List.Forall₂ Value.SameAs read values := by
  induction h generalizing ms i with
  | nil =>
    cases hms
    exact .pure .nil
  | @cons tree expected trees values hread _ ih =>
    cases hms with
    | cons hm hms =>
      obtain ⟨w, rfl, hw⟩ := hm
      have hfirst : (locate (.item i :: place) do
          value item (← found (.ok ⟨(), w⟩ : Except Failure (Member Unit))).value
            (.item i :: place)).Gives (·.SameAs expected) := by
        refine .locate (.bind (.found (P := (· = ⟨(), w⟩)) rfl rfl) ?_)
        rintro _ rfl
        exact hread.value hw _
      refine hfirst.orRecord.bind fun first hfirst ↦ (ih hms (i + 1)).bind fun others hothers ↦ ?_
      obtain ⟨a, rfl, ha⟩ := hfirst
      exact .pure (.cons ha hothers)

/-! ## Entries -/

/-- The entry has the same key and the same value. -/
def SameEntry {κ : Type} (a b : κ × Value) : Prop := a.1 = b.1 ∧ a.2.SameAs b.2

/-- Entries with distinct keys are read one after another if each of them is. -/
theorem gives_entries {kind : ScalarKind} {item : Plan} {trees : List (String × Parsed)}
    {expected : List (DictKey × Value)} (hdistinct : (expected.map (·.1)).Nodup)
    (h : List.Forall₂ (fun tree entry ↦ DictKey.ofText kind tree.1 = .ok entry.1 ∧
      Reads item tree.2 entry.2) trees expected)
    {ms : List (Except Failure (Member String))}
    (hms : List.Forall₂ (fun tree m ↦ tree.2.IsMember tree.1 m) trees ms) (place : Place)
    {done : Entries DictKey Value} (hnew : ∀ a ∈ done, ∀ b ∈ expected, a.1 ≠ b.1) :
    (entries kind item place ms done).Gives fun read ↦
      ∃ others, read = done ++ others ∧ List.Forall₂ SameEntry others expected := by
  induction h generalizing ms done with
  | nil =>
    cases hms
    exact .pure ⟨[], (List.append_nil done).symm, .nil⟩
  | @cons tree entry trees expected hread _ ih =>
    cases hms with
    | cons hm hms =>
      obtain ⟨hfirst, hrest⟩ := List.nodup_cons.mp hdistinct
      obtain ⟨w, rfl, hw⟩ := hm
      have hentry : (locate (.entry tree.1 :: place) do
          let key ← found (DictKey.ofText kind tree.1)
          return (key, ← value item w (.entry tree.1 :: place))).Gives (SameEntry · entry) := by
        refine .locate (.bind (.found (P := (· = entry.1)) hread.1 rfl) fun key hkey ↦ ?_)
        exact (hread.2.value hw _).map fun a ha ↦ ⟨hkey, ha⟩
      refine hentry.orRecord.bind fun first hfirst' ↦ ?_
      obtain ⟨⟨key, a⟩, rfl, rfl, ha⟩ := hfirst'
      have hput := Entries.put_of_forall_ne
        (fun other hother ↦ hnew other hother _ List.mem_cons_self) a
      dsimp only
      rw [hput]
      refine (ih hrest hms ?_).mono ?_
      · intro other hother b hb
        rcases List.mem_append.mp hother with hother | hother
        · exact hnew other hother b (List.mem_cons_of_mem _ hb)
        · rw [List.mem_singleton.mp hother]
          exact fun heq ↦ hfirst (List.mem_map.mpr ⟨b, hb, heq.symm⟩)
      · rintro _ ⟨others, rfl, hall⟩
        exact ⟨(entry.1, a) :: others, by rw [List.append_assoc]; rfl, .cons ⟨rfl, ha⟩ hall⟩

/-! ## Objects -/

/-- The window of each entry, the last one first. -/
theorem gives_windows {trees : List (String × Parsed)} {ms : List (Except Failure (Member String))}
    (hms : List.Forall₂ (fun tree m ↦ tree.2.IsMember tree.1 m) trees ms) (place : Place)
    (done : List (String × Window)) :
    (windows place ms done).Gives fun texts ↦ ∃ found, texts = found.reverse ++ done ∧
      List.Forall₂ (fun tree text ↦ text.1 = tree.1 ∧ tree.2.In text.2) trees found := by
  induction hms generalizing done with
  | nil => exact .pure ⟨[], rfl, .nil⟩
  | @cons tree m trees ms hm _ ih =>
    obtain ⟨w, rfl, hw⟩ := hm
    refine (ih ((tree.1, w) :: done)).mono ?_
    rintro _ ⟨found, rfl, hall⟩
    refine ⟨(tree.1, w) :: found, ?_, .cons ⟨rfl, hw⟩ hall⟩
    rw [List.reverse_cons, List.append_assoc]
    rfl

section

variable {context : DecodeContext} {properties : List (PropertyNode Plan)}
  {value : String → Value}

/-- The step reads a field under the source name of a property. -/
def IsStepFor (value : String → Value) (p : PropertyNode Plan) (step : String × Decode Value) :
    Prop :=
  step.1 = p.sourceName ∧ step.2.Gives (·.SameAs (value p.sourceName))

/-- Properties that are in the text under distinct source names have a step each. -/
theorem fieldSteps_eq {place : Place} {texts : List (String × Window)}
    (hdistinct : (properties.map (·.sourceName)).Nodup)
    (hread : ∀ p ∈ properties, ∃ w, Entries.find? texts p.encodedName = some w ∧
      ∀ place, (field context p w place).Gives (·.SameAs (value p.sourceName)))
    {steps : FieldSteps} (hnew : ∀ step ∈ steps, ∀ p ∈ properties, step.1 ≠ p.sourceName) :
    ∃ others, fieldSteps context place texts properties steps = steps ++ others ∧
      List.Forall₂ (IsStepFor value) properties others := by
  induction properties generalizing steps with
  | nil => exact ⟨[], (List.append_nil steps).symm, .nil⟩
  | cons p properties ih =>
    obtain ⟨hfirst, hrest⟩ := List.nodup_cons.mp hdistinct
    obtain ⟨w, hfind, hgives⟩ := hread p List.mem_cons_self
    let step := field context p w (.property p.sourceName p.encodedName :: place)
    have hput : Entries.put steps p.sourceName step = steps ++ [(p.sourceName, step)] :=
      Entries.put_of_forall_ne (fun other hother ↦ hnew other hother p List.mem_cons_self) step
    have hnew' : ∀ other ∈ steps ++ [(p.sourceName, step)], ∀ q ∈ properties,
        other.1 ≠ q.sourceName := by
      intro other hother q hq
      rcases List.mem_append.mp hother with hother | hother
      · exact hnew other hother q (List.mem_cons_of_mem p hq)
      · rw [List.mem_singleton.mp hother]
        exact fun heq ↦ hfirst (List.mem_map.mpr ⟨q, hq, heq.symm⟩)
    obtain ⟨others, hothers, hall⟩ :=
      ih hrest (fun q hq ↦ hread q (List.mem_cons_of_mem p hq)) hnew'
    refine ⟨(p.sourceName, step) :: others, ?_, .cons ⟨rfl, hgives _⟩ hall⟩
    rw [fieldSteps, hfind]
    dsimp only
    rw [hput, hothers, List.append_assoc]
    rfl

/-- Fields whose steps succeed are all there. -/
theorem gives_readFields {steps : FieldSteps}
    (h : List.Forall₂ (IsStepFor value) properties steps) :
    (readFields steps).Gives fun slots ↦ ∃ fields : List (String × Value),
      slots = fields.map (fun field ↦ (field.1, .initialized field.2)) ∧
        fields.map (·.1) = properties.map (·.sourceName) ∧
          ∀ field ∈ fields, field.2.SameAs (value field.1) := by
  induction h with
  | nil => exact .pure ⟨[], rfl, rfl, fun _ h ↦ absurd h List.not_mem_nil⟩
  | @cons p step properties steps hstep _ ih =>
    obtain ⟨name, step⟩ := step
    obtain ⟨rfl, hgives⟩ := hstep
    refine hgives.orRecord.bind fun first hfirst ↦ ih.bind fun others hothers ↦ ?_
    obtain ⟨a, rfl, ha⟩ := hfirst
    obtain ⟨fields, rfl, hnames, hsame⟩ := hothers
    refine .pure ⟨(p.sourceName, a) :: fields, rfl, by rw [List.map_cons, hnames]; rfl, ?_⟩
    intro field hfield
    rcases List.mem_cons.mp hfield with rfl | hfield
    · exact ha
    · exact hsame field hfield

/-- The property reads the value of its field from wherever the tree stands under its name. -/
def ReadsField (context : DecodeContext) (value : String → Value) (p : PropertyNode Plan)
    (tree : String × Parsed) : Prop :=
  tree.1 = p.encodedName ∧ ∀ w place, tree.2.In w →
    (field context p w place).Gives (·.SameAs (value p.sourceName))

/-- Each property finds its text under its name. -/
theorem find?_windows {trees : List (String × Parsed)} {found : List (String × Window)}
    (hdistinct : (properties.map (·.encodedName)).Nodup)
    (hread : List.Forall₂ (ReadsField context value) properties trees)
    (hfound : List.Forall₂ (fun tree text ↦ text.1 = tree.1 ∧ tree.2.In text.2) trees found) :
    ∀ p ∈ properties, ∃ w, Entries.find? (found.reverse ++ []) p.encodedName = some w ∧
      ∀ place, (field context p w place).Gives (·.SameAs (value p.sourceName)) := by
  have hboth := forall₂_trans hread hfound
  have hnames : properties.map (·.encodedName) = found.map (·.1) :=
    map_eq_map_of_forall₂ hboth fun p text ⟨tree, hp, htext⟩ ↦ (htext.1.trans hp.1).symm
  intro p hp
  obtain ⟨⟨name, w⟩, htext, tree, hread, hname, hw⟩ := exists_of_forall₂_left hboth hp
  obtain rfl : name = p.encodedName := hname.trans hread.1
  refine ⟨w, ?_, fun place ↦ hread.2 w place hw⟩
  rw [List.append_nil]
  refine Entries.find?_of_mem ?_ (List.mem_reverse.mpr htext)
  rw [List.map_reverse, ← hnames]
  exact List.pairwise_reverse.mpr (hdistinct.imp Ne.symm)

/-- An object is read if its fields are. -/
theorem gives_makeObject {tree : Parsed} {trees : List (String × Parsed)}
    (hentries : tree.entries = .ok trees)
    (hsource : (properties.map (·.sourceName)).Nodup)
    (hencoded : (properties.map (·.encodedName)).Nodup)
    (hread : List.Forall₂ (ReadsField context value) properties trees)
    {w : Window} (hw : tree.In w) (identity : Identity) (className : String)
    (layout : List (String × String)) (place : Place) :
    (makeObject false identity className layout (loadFields context properties w place)).Gives
      fun o ↦ ∃ fields : List (String × Value),
        o = ⟨identity, className,
          .ready (fields.map fun field ↦ (field.1, .initialized field.2))⟩ ∧
          fields.map (·.1) = properties.map (·.sourceName) ∧
            ∀ field ∈ fields, field.2.SameAs (value field.1) := by
  have hload : (loadFields context properties w place).Gives
      (List.Forall₂ (IsStepFor value) properties) := by
    refine (gives_members_dict hw hentries).locate.bind fun ms hms ↦ ?_
    refine (gives_windows hms place []).bind fun texts htexts ↦ ?_
    obtain ⟨found, rfl, hfound⟩ := htexts
    have hfind := find?_windows hencoded hread hfound
    obtain ⟨steps, hsteps, hall⟩ := @fieldSteps_eq context properties value place _ hsource hfind []
      fun _ h ↦ absurd h List.not_mem_nil
    rw [hsteps]
    exact .pure hall
  refine hload.bind fun steps hsteps ↦ (gives_readFields hsteps).bind fun slots hslots ↦ ?_
  obtain ⟨fields, rfl, hnames, hsame⟩ := hslots
  exact .pure ⟨fields, rfl, hnames, hsame⟩

end

end TypedJson.Decode
