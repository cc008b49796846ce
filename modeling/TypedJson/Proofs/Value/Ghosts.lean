import TypedJson.Proofs.Aligned
import TypedJson.Proofs.Codec.Compile
import TypedJson.Proofs.Roundtrip.Writing
import TypedJson.Proofs.Value.Comparing

/-!
# Ghosts that do not show

A ghost that declares its slots does not show: resolving all of its fields, comparing it and writing
it come to the same whether it has been read or not. Only the order of fields may differ, so two
texts of one value are compared through `Resolved.WrittenAs`, which leaves the order open. A writer
fails exactly if the value has no text of this kind, since a member that cannot be written cannot be
written anywhere.

Declaring the slots is needed. The names of the fields are asked for before the ghost is read, and a
slot that is not among them is passed over.
-/

namespace TypedJson

/-! ## Texts of a value -/

mutual

/-- The text is one of the value, with the fields of each object in some order. -/
inductive Resolved.WrittenAs (config : Config) : Resolved → String → Prop
  | null : WrittenAs config .null "null"
  | bool (b : Bool) : WrittenAs config (.bool b) (if b then "true" else "false")
  | int (i : Int64) : WrittenAs config (.int i) (toString i.toInt)
  | float {f : Float} {text : String} (h : Json.floatText? config.jsonFlags f = some text) :
    WrittenAs config (.float f) text
  | string (s : String) : WrittenAs config (.string s) (Json.quote config.jsonFlags s)
  | list {items : List Resolved} {texts : List String}
    (h : List.Forall₂ (WrittenAs config) items texts) :
    WrittenAs config (.list items) ("[" ++ (",".intercalate texts ++ "]"))
  | dict {entries : List (DictKey × Resolved)} {members : List String}
    (h : List.Forall₂ (MemberWrittenAs config) (entries.map fun entry ↦ (entry.1.text, entry.2))
      members) :
    WrittenAs config (.dict entries) ("\x7b" ++ (",".intercalate members ++ "\x7d"))
  | object {o : ResolvedObject Resolved} {fields : List (String × Resolved)}
    {members : List String} (hfields : o.Shows fields)
    (h : List.Forall₂ (MemberWrittenAs config) fields members) :
    WrittenAs config (.object o) ("\x7b" ++ (",".intercalate members ++ "\x7d"))
  | enum {className : String} {case : Resolved} {text : String} (h : WrittenAs config case text) :
    WrittenAs config (.enum className case) text
  | dateTime {t : DateTime} {text : String} (h : t.write config.dateTimeFormat = .ok text) :
    WrittenAs config (.dateTime t) (Json.quote config.jsonFlags text)

/-- The text is a name, a colon and one of the texts of a value. -/
inductive Resolved.MemberWrittenAs (config : Config) : String × Resolved → String → Prop
  | mk {name : String} {value : Resolved} {text : String} (h : WrittenAs config value text) :
    MemberWrittenAs config (name, value) (Json.quote config.jsonFlags name ++ (":" ++ text))

end

/-- What can be found for each member can be found for all of them. -/
theorem exists_forall₂_iff {α β : Type} {R : α → β → Prop} {as : List α} :
    (∃ bs, List.Forall₂ R as bs) ↔ ∀ a ∈ as, ∃ b, R a b := by
  constructor
  · rintro ⟨bs, h⟩ a ha
    obtain ⟨b, -, hab⟩ := exists_of_forall₂_left h ha
    exact ⟨b, hab⟩
  · intro h
    induction as with
    | nil => exact ⟨[], .nil⟩
    | cons a as ih =>
      obtain ⟨⟨b, hab⟩, hrest⟩ := List.forall_mem_cons.mp h
      obtain ⟨bs, hbs⟩ := ih hrest
      exact ⟨b :: bs, .cons hab hbs⟩

namespace Run

/-! ## Steps that write a text of a kind -/

/-- The step adds a text of a kind from every state, or fails from every state because there is
none. -/
def WritesSome (P : String → Prop) (x : Run Unit) : Prop :=
  (∀ state, ∃ text log, P text ∧ x state = .ok () { state with out := state.out ++ text, log }) ∨
    (∀ text, ¬P text) ∧ ∀ state, ∃ failure state', x state = .error failure state'

namespace WritesSome

variable {P Q : String → Prop} {x : Run Unit} {f : Unit → Run Unit} {text : String}

theorem mono (h : WritesSome P x) (hPQ : ∀ text, P text → Q text)
    (hex : ∀ text, Q text → ∃ text, P text) : WritesSome Q x := by
  rcases h with h | ⟨hnone, h⟩
  · refine .inl fun state ↦ ?_
    obtain ⟨text, log, htext, hstate⟩ := h state
    exact ⟨text, log, hPQ text htext, hstate⟩
  · refine .inr ⟨fun text htext ↦ ?_, h⟩
    obtain ⟨other, hother⟩ := hex text htext
    exact hnone other hother

theorem congr (h : WritesSome P x) (hPQ : ∀ text, P text ↔ Q text) : WritesSome Q x :=
  h.mono (fun text ↦ (hPQ text).mp) fun text htext ↦ ⟨text, (hPQ text).mpr htext⟩

theorem bind (hx : WritesSome P x) (hf : WritesSome Q (f ())) :
    WritesSome (fun text ↦ ∃ front back, P front ∧ Q back ∧ text = front ++ back) (x >>= f) := by
  rcases hx with hx | ⟨hnone, hx⟩
  · rcases hf with hf | ⟨hnone, hf⟩
    · refine .inl fun state ↦ ?_
      obtain ⟨front, log, hfront, hstate⟩ := hx state
      obtain ⟨back, log', hback, hstate'⟩ := hf { state with out := state.out ++ front, log }
      refine ⟨front ++ back, log', ⟨front, back, hfront, hback, rfl⟩, ?_⟩
      show EStateM.bind x f state = _
      rw [EStateM.bind, hstate]
      dsimp only
      rw [hstate', String.append_assoc]
    · refine .inr ⟨fun _ ⟨_, back, _, hback, _⟩ ↦ hnone back hback, fun state ↦ ?_⟩
      obtain ⟨front, log, -, hstate⟩ := hx state
      obtain ⟨failure, state', hstate'⟩ := hf { state with out := state.out ++ front, log }
      refine ⟨failure, state', ?_⟩
      show EStateM.bind x f state = _
      rw [EStateM.bind, hstate]
      exact hstate'
  · refine .inr ⟨fun _ ⟨front, _, hfront, _⟩ ↦ hnone front hfront, fun state ↦ ?_⟩
    obtain ⟨failure, state', hstate⟩ := hx state
    refine ⟨failure, state', ?_⟩
    show EStateM.bind x f state = _
    rw [EStateM.bind, hstate]

end WritesSome

theorem Adds.writesSome {x : Run Unit} {text : String} (h : x.Adds text) :
    WritesSome (· = text) x := by
  refine .inl fun state ↦ ?_
  obtain ⟨log, hstate⟩ := h state
  exact ⟨text, log, rfl, hstate⟩

theorem writesSome_throw {P : String → Prop} (hnone : ∀ text, ¬P text) (failure : Failure) :
    WritesSome P (throw failure) := .inr ⟨hnone, fun state ↦ ⟨failure, state, rfl⟩⟩

/-- A computation that answers is followed by the step for its answer. -/
theorem traced_found_ok {α : Type} {c : Traced (Except Failure α)} {a : α} {f : α → Run Unit}
    {state : RunState} (h : (c state.log).1 = .ok a) :
    (do let a ← found (← traced c); f a : Run Unit) state =
      f a { state with log := (c state.log).2 } := by
  show (found (c state.log).1 >>= f) { state with log := (c state.log).2 } = _
  rw [h]
  rfl

theorem traced_found_error {α : Type} {c : Traced (Except Failure α)} {failure : Failure}
    {f : α → Run Unit} {state : RunState} (h : (c state.log).1 = .error failure) :
    (do let a ← found (← traced c); f a : Run Unit) state =
      .error failure { state with log := (c state.log).2 } := by
  show (found (c state.log).1 >>= f) { state with log := (c state.log).2 } = _
  rw [h]
  rfl

namespace WritesSome

variable {α : Type} {P : String → Prop} {Q : α → String → Prop} {x : Run Unit}

/-- A fixed text in front. -/
theorem after (h : WritesSome P x) (front : String) :
    WritesSome (fun text ↦ ∃ back, P back ∧ text = front ++ back) (do write front; x) := by
  refine ((Adds.write front).writesSome.bind h).congr fun text ↦ ?_
  constructor
  · rintro ⟨_, back, rfl, hback, rfl⟩
    exact ⟨back, hback, rfl⟩
  · rintro ⟨back, hback, rfl⟩
    exact ⟨front, back, rfl, hback, rfl⟩

/-- Fixed texts in front and behind. -/
theorem enclosed (h : WritesSome P x) (front back : String) :
    WritesSome (fun text ↦ ∃ inner, P inner ∧ text = front ++ (inner ++ back))
      (do write front; x; write back) := by
  refine ((h.bind (Adds.write back).writesSome).after front).congr fun text ↦ ?_
  constructor
  · rintro ⟨_, ⟨inner, _, hinner, rfl, rfl⟩, rfl⟩
    exact ⟨inner, hinner, rfl⟩
  · rintro ⟨inner, hinner, rfl⟩
    exact ⟨_, ⟨inner, back, hinner, rfl, rfl⟩, rfl⟩

/-! ## Members with commas between them -/

/-- Texts with commas between them, and a comma in front unless the first is the first of all. -/
def joined (isFirst : Bool) : List String → String
  | [] => ""
  | text :: texts => (if isFirst then "" else ",") ++ (text ++ joined false texts)

theorem joined_true (texts : List String) : joined true texts = ",".intercalate texts := by
  induction texts with
  | nil => rfl
  | cons text texts ih =>
    cases texts with
    | nil => simp [joined]
    | cons next texts =>
      rw [String.intercalate_cons_cons, ← ih]
      simp [joined, String.append_assoc]

/-- A member in front of others, with a comma if it is not the first. -/
theorem separated {member rest : Run Unit} {R : List String → Prop} (h : WritesSome P member)
    (hrest : WritesSome (fun text ↦ ∃ texts, R texts ∧ text = joined false texts) rest)
    (isFirst : Bool) :
    WritesSome (fun text ↦ ∃ first texts, P first ∧ R texts ∧
      text = joined isFirst (first :: texts)) (do
        if !isFirst then write ","
        member
        rest) := by
  have hmembers := (h.bind (f := fun _ ↦ rest) hrest).congr
    (Q := fun text ↦ ∃ first texts, P first ∧ R texts ∧ text = first ++ joined false texts) ?_
  · cases isFirst with
    | true =>
      refine hmembers.congr fun text ↦ ?_
      simp [joined]
    | false =>
      refine (hmembers.after ",").congr fun text ↦ ?_
      constructor
      · rintro ⟨_, ⟨first, texts, hfirst, htexts, rfl⟩, rfl⟩
        exact ⟨first, texts, hfirst, htexts, rfl⟩
      · rintro ⟨first, texts, hfirst, htexts, rfl⟩
        exact ⟨_, ⟨first, texts, hfirst, htexts, rfl⟩, rfl⟩
  · intro text
    constructor
    · rintro ⟨first, _, hfirst, ⟨texts, htexts, rfl⟩, rfl⟩
      exact ⟨first, texts, hfirst, htexts, rfl⟩
    · rintro ⟨first, texts, hfirst, htexts, rfl⟩
      exact ⟨first, _, hfirst, ⟨texts, htexts, rfl⟩, rfl⟩

/-! ## Values -/

section

variable {config : Config}

theorem items {items : List Resolved}
    (h : ∀ item ∈ items, WritesSome (item.awake.WrittenAs config) (writeResolved config item))
    (isFirst : Bool) :
    WritesSome (fun text ↦ ∃ texts,
      List.Forall₂ (Resolved.WrittenAs config) (items.map Resolved.awake) texts ∧
        text = joined isFirst texts) (writeItems config isFirst items) := by
  induction items generalizing isFirst with
  | nil =>
    refine Adds.pure.writesSome.congr fun text ↦ ?_
    constructor
    · rintro rfl
      exact ⟨[], .nil, rfl⟩
    · rintro ⟨_, ⟨⟩, rfl⟩
      rfl
  | cons item items ih =>
    obtain ⟨hitem, hitems⟩ := List.forall_mem_cons.mp h
    refine (separated hitem (ih hitems false) isFirst).congr fun text ↦ ?_
    constructor
    · rintro ⟨first, texts, hfirst, htexts, rfl⟩
      exact ⟨_, .cons hfirst htexts, rfl⟩
    · rintro ⟨_, hall, rfl⟩
      cases hall with
      | cons hfirst htexts => exact ⟨_, _, hfirst, htexts, rfl⟩

theorem member {v : Resolved} {x : Run Unit} (h : WritesSome (v.WrittenAs config) x)
    (name : String) : WritesSome (Resolved.MemberWrittenAs config (name, v)) (do
      write (Json.quote config.jsonFlags name)
      write ":"
      x) := by
  refine ((h.after ":").after _).congr fun text ↦ ?_
  constructor
  · rintro ⟨_, ⟨value, hvalue, rfl⟩, rfl⟩
    exact .mk hvalue
  · rintro ⟨hvalue⟩
    exact ⟨_, ⟨_, hvalue, rfl⟩, rfl⟩

theorem fields {fields : List (String × Resolved)}
    (h : ∀ field ∈ fields, WritesSome (field.2.awake.WrittenAs config)
      (writeResolved config field.2)) (isFirst : Bool) :
    WritesSome (fun text ↦ ∃ members, List.Forall₂ (Resolved.MemberWrittenAs config)
        (fields.map fun field ↦ (field.1, field.2.awake)) members ∧ text = joined isFirst members)
      (writeObject.writeFields config.jsonFlags isFirst
        (fields.map fun field ↦ (field.1, writeResolved config field.2))) := by
  induction fields generalizing isFirst with
  | nil =>
    refine Adds.pure.writesSome.congr fun text ↦ ?_
    constructor
    · rintro rfl
      exact ⟨[], .nil, rfl⟩
    · rintro ⟨_, ⟨⟩, rfl⟩
      rfl
  | cons field fields ih =>
    obtain ⟨hfield, hfields⟩ := List.forall_mem_cons.mp h
    rw [List.map_cons, List.map_cons, writeFields_cons]
    refine (separated (hfield.member field.1) (ih hfields false) isFirst).congr fun text ↦ ?_
    constructor
    · rintro ⟨first, texts, hfirst, htexts, rfl⟩
      exact ⟨_, .cons hfirst htexts, rfl⟩
    · rintro ⟨_, hall, rfl⟩
      cases hall with
      | cons hfirst htexts => exact ⟨_, _, hfirst, htexts, rfl⟩

theorem writeEntries_eq (isFirst : Bool) (entries : List (DictKey × Resolved)) :
    writeEntries config isFirst entries =
      writeObject.writeFields config.jsonFlags isFirst
        ((entries.map fun entry ↦ (entry.1.text, entry.2)).map fun field ↦
          (field.1, writeResolved config field.2)) := by
  induction entries generalizing isFirst with
  | nil => rfl
  | cons entry entries ih =>
    rw [writeEntries, ih, List.map_cons, List.map_cons, writeObject.writeFields]

theorem entries {entries : List (DictKey × Resolved)}
    (h : ∀ entry ∈ entries, WritesSome (entry.2.awake.WrittenAs config)
      (writeResolved config entry.2)) (isFirst : Bool) :
    WritesSome (fun text ↦ ∃ members, List.Forall₂ (Resolved.MemberWrittenAs config)
        (entries.map fun entry ↦ (entry.1.text, entry.2.awake)) members ∧
          text = joined isFirst members)
      (writeEntries config isFirst entries) := by
  have hfields := fields (List.forall_mem_map.mpr h :
    ∀ field ∈ entries.map fun entry ↦ (entry.1.text, entry.2), _) isFirst
  rw [List.map_map] at hfields
  rw [writeEntries_eq]
  exact hfields

theorem objectWriter_eq_map (o : ResolvedObject Resolved) :
    objectWriter config o = o.map (writeResolved config) := by
  have hslots : ∀ slots : List (String × Except Failure Resolved),
      slotWriters config slots =
        slots.map fun slot ↦ (slot.1, slot.2.map (writeResolved config)) := by
    intro slots
    induction slots with
    | nil => rfl
    | cons slot slots ih =>
      match slot with
      | (_, .ok _) | (_, .error _) =>
        rw [slotWriters, ih, List.map_cons]
        rfl
  obtain ⟨identity, className, declared, failure | slots⟩ := o
  · rfl
  · show (⟨_, _, _, .ok (slotWriters config slots)⟩ : ResolvedObject _) = _
    rw [hslots]
    rfl

/-- Which members can be written does not depend on the order of fields. -/
theorem exists_members {o : ResolvedObject Resolved} {shown others : List (String × Resolved)}
    (hshown : o.Shows shown) (hothers : o.Shows others)
    (h : ∃ members, List.Forall₂ (Resolved.MemberWrittenAs config) shown members) :
    ∃ members, List.Forall₂ (Resolved.MemberWrittenAs config) others members :=
  exists_forall₂_iff.mpr fun field hfield ↦
    exists_forall₂_iff.mp h field ((hshown.perm hothers).mem_iff.mpr hfield)

/-- The fields of an object are written in the order in which reading it answers them. -/
theorem readFields {o : ResolvedObject Resolved} (ho : o.DeclaresSlots)
    (h : ∀ fields, o.Shows fields → ∀ field ∈ fields,
      WritesSome (field.2.awake.WrittenAs config) (writeResolved config field.2)) :
    WritesSome (fun text ↦ ∃ members,
        (∃ shown, (awakeObject o).Shows shown ∧
          List.Forall₂ (Resolved.MemberWrittenAs config) shown members) ∧
            text = joined true members)
      (do
        let fields ← found (← traced (objectWriter config o).read)
        writeObject.writeFields config.jsonFlags true fields) := by
  have hread := ResolvedObject.read_map (writeResolved config) o
  rw [objectWriter_eq_map]
  by_cases hsome : ∃ members shown, (awakeObject o).Shows shown ∧
      List.Forall₂ (Resolved.MemberWrittenAs config) shown members
  · obtain ⟨members, shown, hshown, hmembers⟩ := hsome
    obtain ⟨others, hothers, -⟩ := ResolvedObject.exists_of_shows_awake hshown
    refine .inl fun state ↦ ?_
    rcases ho.read state.log with ⟨answered, hanswered, hshows⟩ | ⟨-, hnone⟩
    · rcases fields (h answered hshows) true with hwrites | ⟨hnone, -⟩
      · obtain ⟨text, log, ⟨members, hmembers, htext⟩, hstate⟩ := hwrites _
        refine ⟨text, log, ⟨members, ⟨_, hshows.awake, hmembers⟩, htext⟩, ?_⟩
        rw [traced_found_ok (by rw [hread, hanswered]; rfl)]
        exact hstate
      · -- The other order has texts of all members, and so has this one.
        obtain ⟨members, hmembers⟩ := exists_members hshown hshows.awake ⟨members, hmembers⟩
        exact (hnone _ ⟨members, hmembers, rfl⟩).elim
    · exact (hnone others hothers).elim
  · refine .inr ⟨fun text ⟨members, hmembers, _⟩ ↦ hsome ⟨members, hmembers⟩, fun state ↦ ?_⟩
    rcases ho.read state.log with ⟨answered, hanswered, hshows⟩ | ⟨⟨failure, hfailure⟩, -⟩
    · rcases fields (h answered hshows) true with hwrites | ⟨-, hfails⟩
      · obtain ⟨_, _, ⟨members, hmembers, -⟩, -⟩ := hwrites state
        exact (hsome ⟨members, _, hshows.awake, hmembers⟩).elim
      · rw [traced_found_ok (by rw [hread, hanswered]; rfl)]
        exact hfails _
    · rw [traced_found_error (by rw [hread, hfailure]; rfl)]
      exact ⟨failure, _, rfl⟩

end

end WritesSome

theorem WritesSome.only {config : Config} {v : Resolved} {x : Run Unit} {text : String}
    (h : x.Adds text) (htext : v.WrittenAs config text)
    (honly : ∀ other, v.WrittenAs config other → other = text) :
    WritesSome (v.WrittenAs config) x := by
  refine h.writesSome.congr fun other ↦ ⟨?_, honly other⟩
  rintro rfl
  exact htext

/-- A value whose ghosts declare their slots is written as one of its texts, or is not written if it
has none. -/
theorem writesSome_writeResolved (config : Config) {v : Resolved} (h : v.IsDeclared) :
    WritesSome (v.awake.WrittenAs config) (writeResolved config v) := by
  induction h with
  | null => exact .only (.write _) .null (by rintro _ ⟨⟩; rfl)
  | bool b => exact .only (.write _) (.bool b) (by rintro _ ⟨⟩; rfl)
  | int i => exact .only (.write _) (.int i) (by rintro _ ⟨⟩; rfl)
  | string s => exact .only (.write _) (.string s) (by rintro _ ⟨⟩; rfl)
  | float f =>
    show WritesSome _ (writeFloat config.jsonFlags f)
    unfold writeFloat
    split
    · next text htext =>
      refine .only (.write text) (.float htext) fun other hother ↦ ?_
      cases hother with
      | float hother => exact Option.some.inj (hother.symm.trans htext)
    · next hnone =>
      refine writesSome_throw (fun text hsome ↦ ?_) _
      cases hsome with
      | float hsome => cases hnone.symm.trans hsome
  | dateTime t =>
    show WritesSome _ (do
      let text ← found ((t.write config.dateTimeFormat).mapError (.formatter "datetime.format"))
      write (Json.quote config.jsonFlags text))
    cases htext : t.write config.dateTimeFormat with
    | ok text =>
      refine .only (.write _) (.dateTime htext) fun other hother ↦ ?_
      cases hother with
      | dateTime hother => rw [Except.ok.inj (hother.symm.trans htext)]
    | error message =>
      refine writesSome_throw (fun text hsome ↦ ?_) _
      cases hsome with
      | dateTime hsome => cases htext.symm.trans hsome
  | @list items _ ih =>
    refine ((WritesSome.items ih true).enclosed "[" "]").congr fun text ↦ ?_
    show _ ↔ Resolved.WrittenAs config (.list (awakeItems items)) text
    rw [awakeItems_eq_map]
    constructor
    · rintro ⟨_, ⟨texts, htexts, rfl⟩, rfl⟩
      rw [WritesSome.joined_true]
      exact .list htexts
    · intro hlist
      cases hlist with
      | list htexts => exact ⟨_, ⟨_, htexts, rfl⟩, by rw [WritesSome.joined_true]⟩
  | @dict entries _ ih =>
    refine ((WritesSome.entries ih true).enclosed "\x7b" "\x7d").congr fun text ↦ ?_
    show _ ↔ Resolved.WrittenAs config (.dict (awakeEntries entries)) text
    rw [awakeEntries_eq_map]
    constructor
    · rintro ⟨_, ⟨members, hmembers, rfl⟩, rfl⟩
      rw [WritesSome.joined_true]
      refine .dict ?_
      rw [List.map_map]
      exact hmembers
    · intro hdict
      cases hdict with
      | dict hmembers =>
        rw [List.map_map] at hmembers
        exact ⟨_, ⟨_, hmembers, rfl⟩, by rw [WritesSome.joined_true]⟩
  | @object o hslots _ ih =>
    have hshown : ∀ fields, o.Shows fields → ∀ field ∈ fields,
        WritesSome (Resolved.WrittenAs config field.2.awake) (writeResolved config field.2) := by
      intro fields hfields field hfield
      obtain ⟨slots, heq, hmem⟩ := hfields.mem hfield
      exact ih slots heq field.1 field.2 hmem
    have hfields := WritesSome.readFields hslots hshown
    have hsteps : writeResolved config (.object o) = (do
        write "\x7b"
        (do let fields ← found (← traced (objectWriter config o).read)
            writeObject.writeFields config.jsonFlags true fields)
        write "\x7d") := by
      show writeObject config.jsonFlags (objectWriter config o) = _
      simp only [writeObject, bind_assoc]
    rw [hsteps]
    refine (hfields.enclosed "\x7b" "\x7d").congr fun text ↦ ?_
    constructor
    · rintro ⟨_, ⟨members, ⟨shown, hshown, hmembers⟩, rfl⟩, rfl⟩
      rw [WritesSome.joined_true]
      exact .object hshown hmembers
    · intro hobject
      cases hobject with
      | object hshown hmembers =>
        exact ⟨_, ⟨_, ⟨_, hshown, hmembers⟩, rfl⟩, by rw [WritesSome.joined_true]⟩
  | enum _ ih =>
    refine ih.congr fun text ↦ ⟨.enum, fun henum ↦ ?_⟩
    cases henum with
    | enum hcase => exact hcase

end Run

/-! ## Encoding a value of unknown type -/

theorem Run.WritesSome.atAccessor {P : String → Prop} {x : Run Unit} (h : WritesSome P x)
    (accessor : Accessor) : WritesSome P (Run.atAccessor accessor x) := by
  rcases h with h | ⟨hnone, h⟩
  · refine .inl fun state ↦ ?_
    obtain ⟨text, log, htext, hstate⟩ := h state
    refine ⟨text, log, htext, ?_⟩
    show EStateM.tryCatch x _ state = _
    rw [EStateM.tryCatch, hstate]
  · refine .inr ⟨hnone, fun state ↦ ?_⟩
    obtain ⟨failure, state', hstate⟩ := h state
    refine ⟨failure.locate accessor.text, state', ?_⟩
    show EStateM.tryCatch x _ state = _
    rw [EStateM.tryCatch, hstate]
    rfl

/-- The encoder of values of unknown type writes one of the texts of a value, or fails if there is
none. -/
theorem encode_mixed (registry : Registry) (config : Config) {v : Value}
    (h : v.resolved.IsDeclared) :
    (∃ text, (compile .mixed config.jsonFlags).encode registry config v = .ok text ∧
      v.resolved.awake.WrittenAs config text) ∨
    (∃ failure, (compile .mixed config.jsonFlags).encode registry config v = .error failure) ∧
      ∀ text, ¬v.resolved.awake.WrittenAs config text := by
  have hcompile : compile .mixed config.jsonFlags = ⟨[.writeValue .root .mixed], 1⟩ := rfl
  have hrun : Run.instructions ⟨registry, config⟩ [.writeValue .root .mixed] ⟨"", [], [v]⟩ =
      Run.atAccessor .root (Run.writeResolved config v.resolved) ⟨"", [], [v]⟩ := by
    rw [Run.instructions_singleton]
    rfl
  rw [hcompile, Codec.encode, Codec.run]
  have hwrites := (Run.writesSome_writeResolved config h).atAccessor .root
  rcases hwrites with hwrites | ⟨hnone, hfails⟩
  · obtain ⟨text, log, htext, hstate⟩ := hwrites ⟨"", [], [v]⟩
    refine .inl ⟨text, ?_, htext⟩
    simp only [Nat.sub_self, List.replicate_zero, hrun, hstate]
    exact congrArg Except.ok String.empty_append
  · obtain ⟨failure, state, hstate⟩ := hfails ⟨"", [], [v]⟩
    refine .inr ⟨⟨failure, ?_⟩, hnone⟩
    simp only [Nat.sub_self, List.replicate_zero, hrun, hstate]
    rfl

/-! ## Reading an object beforehand -/

/-- Both computations end in values of a relation, or both in failures. -/
def Outcome.Alike {α β : Type} (R : α → β → Prop) :
    Except Failure α → Except Failure β → Prop
  | .ok a, .ok b => R a b
  | .error _, .error _ => True
  | _, _ => False

namespace Object

open ResolvedObject

/-- Whether an object with these slots has been read before does not show. -/
structure IsTransparent (o : Object Value) (slots : List (String × Slot Value)) : Prop where
  /-- Reading all fields answers every slot either way, and the same fields. -/
  reads : ReadsAll slots o.resolveAll.result ∧ ReadsAll slots o.wake.object.resolveAll.result ∧
    Outcome.Alike List.Perm o.resolveAll.result o.wake.object.resolveAll.result
  /-- The object equals the same values either way, also those in which it occurs itself. -/
  same : ∀ v w : Value, v.resolved.IsDeclared →
    w = v ∨ w = (v.alterAt o.identity fun p ↦ (p.wake.object, p.wake.cost)).1 →
    (Value.object o.wake.object).same w = (Value.object o).same v ∧
      w.same (.object o.wake.object) = v.same (.object o)
  /-- It is written either way, as texts of one value, or not written either way. -/
  encode : ∀ (registry : Registry) (config : Config),
    Outcome.Alike (fun text other ↦
        (Value.object o).resolved.awake.WrittenAs config text ∧
          (Value.object o).resolved.awake.WrittenAs config other)
      ((compile .mixed config.jsonFlags).encode registry config (.object o))
      ((compile .mixed config.jsonFlags).encode registry config (.object o.wake.object))

variable {o : Object Value} {declared : List String} {cost : Cost}
  {slots : List (String × Slot Value)}

/-- Two answers with all fields have the same fields, since what failed for one fails for both. -/
theorem ReadsAll.alike {a b : Except Failure (Entries String Value)} (ha : ReadsAll slots a)
    (hb : ReadsAll slots b) : Outcome.Alike List.Perm a b := by
  have hno : ∀ fields failure, ReadsAll slots (.ok fields) → ¬ReadsAll slots (.error failure) := by
    rintro fields failure hfields ⟨name, hname⟩
    obtain ⟨field, -, heq⟩ := List.mem_map.mp (hfields.mem_iff.mp hname)
    cases heq
  match a, b with
  | .ok fields, .ok others =>
    -- The two are what one object shows.
    let o : ResolvedObject Value := ⟨.made 0, "", none, .ok (outcomes slots)⟩
    have hfields : o.Shows fields := .slots rfl ha
    exact hfields.perm (.slots rfl hb)
  | .ok fields, .error failure => exact (hno fields failure ha hb).elim
  | .error failure, .ok fields => exact (hno fields failure hb ha).elim
  | .error _, .error _ => trivial

theorem wake_ghost (hghost : o.state = .ghost declared cost (.ok slots)) :
    o.wake.result = .ok slots ∧ o.wake.object.wake.result = .ok slots := by
  obtain ⟨identity, className, state⟩ := o
  obtain rfl : state = _ := hghost
  exact ⟨rfl, rfl⟩

theorem fieldNames_ghost (hghost : o.state = .ghost declared cost (.ok slots)) :
    o.fieldNames = declared ∧ o.wake.object.fieldNames = slots.map (·.1) := by
  obtain ⟨identity, className, state⟩ := o
  obtain rfl : state = _ := hghost
  exact ⟨rfl, rfl⟩

/-- A ghost that has been woken reads all slots, whatever it was declared to have. -/
theorem readsAll_wake (hghost : o.state = .ghost declared cost (.ok slots))
    (hdistinct : (slots.map (·.1)).Nodup) : ReadsAll slots o.wake.object.resolveAll.result := by
  refine readsAll_resolveAll (wake_ghost hghost).2 hdistinct fun name hname ↦ ?_
  rw [(fieldNames_ghost hghost).2]
  exact hname

theorem readsAll_ghost (hghost : o.state = .ghost declared cost (.ok slots))
    (hdistinct : (slots.map (·.1)).Nodup) (hdeclared : ∀ name ∈ slots.map (·.1), name ∈ declared) :
    ReadsAll slots o.resolveAll.result := by
  refine readsAll_resolveAll (wake_ghost hghost).1 hdistinct fun name hname ↦ ?_
  rw [(fieldNames_ghost hghost).1]
  exact hdeclared name hname

/-- A ghost does not show, provided that it and the ghosts in its slots declare what they have. -/
theorem isTransparent_of_isDeclared (hghost : o.state = .ghost declared cost (.ok slots))
    (hdeclared : (Value.object o).resolved.IsDeclared) : o.IsTransparent slots := by
  have hwakes := Value.Wakes.wake o
  constructor
  case reads =>
    have hslots : (slots.map (·.1)).Nodup ∧ ∀ name ∈ slots.map (·.1), name ∈ declared := by
      obtain ⟨identity, className, state⟩ := o
      obtain rfl : state = _ := hghost
      rw [← keys_resolvedSlots]
      cases hdeclared with
      | object hdeclares => exact ⟨hdeclares.distinct _ rfl, hdeclares.declared _ _ rfl rfl⟩
    have hbefore := readsAll_ghost hghost hslots.1 hslots.2
    have hafter := readsAll_wake hghost hslots.1
    exact ⟨hbefore, hafter, hbefore.alike hafter⟩
  case same =>
    rintro v w hv hw
    have hw : v.Wakes w := by
      rcases hw with rfl | rfl
      · exact .refl _
      · exact .alterAt_wake v o.identity
    exact ⟨hwakes.same hw hdeclared hv, hw.same hwakes hv hdeclared⟩
  case encode =>
    intro registry config
    have hbefore := encode_mixed registry config hdeclared
    have hafter := encode_mixed registry config (hwakes.isDeclared hdeclared)
    rw [hwakes.awake] at hafter
    rcases hbefore with ⟨text, hok, htext⟩ | ⟨⟨failure, hfailure⟩, hnone⟩
    · rcases hafter with ⟨other, hok', hother⟩ | ⟨-, hnone⟩
      · rw [hok, hok']
        exact ⟨htext, hother⟩
      · exact (hnone text htext).elim
    · rcases hafter with ⟨other, -, hother⟩ | ⟨⟨failure', hfailure'⟩, -⟩
      · exact (hnone other hother).elim
      · rw [hfailure, hfailure']
        trivial

/-- The slots of an order: its total, which has not been read, and a line that is a ghost. -/
def orderSlots : List (String × Slot Value) :=
  [("total", .pending ⟨1, 0⟩ (.ok (.int 3))),
    ("line", .initialized (.object ⟨.made 1, "Line",
      .ghost ["sku"] ⟨1, 0⟩ (.ok [("sku", .initialized (.string "a"))])⟩))]

/-- An order that has not been read, declared in another order. -/
def ghostOrder : Object Value :=
  ⟨.made 0, "Order", .ghost ["line", "total"] ⟨1, 0⟩ (.ok orderSlots)⟩

theorem isTransparent_ghostOrder :
    ghostOrder.state = .ghost ["line", "total"] ⟨1, 0⟩ (.ok orderSlots) ∧
      (Value.object ghostOrder).resolved.IsDeclared ∧ ghostOrder.IsTransparent orderSlots := by
  have hdeclared : (Value.object ghostOrder).resolved.IsDeclared := by
    refine .object ⟨?_, ?_⟩ ?_
    · rintro _ ⟨⟩
      decide
    · rintro _ _ ⟨⟩ ⟨⟩
      decide
    · rintro _ ⟨⟩ name v hmem
      rcases List.mem_cons.mp hmem with heq | hmem
      · cases heq
        exact .int 3
      · cases List.mem_singleton.mp hmem
        refine .object ⟨?_, ?_⟩ ?_
        · rintro _ ⟨⟩
          decide
        · rintro _ _ ⟨⟩ ⟨⟩
          decide
        · rintro _ ⟨⟩ name v hmem
          cases List.mem_singleton.mp hmem
          exact .string "a"
  exact ⟨rfl, hdeclared, isTransparent_of_isDeclared rfl hdeclared⟩

/-- For the ghost itself nothing less will do: where nothing fails, reading all fields answers the
same fields before and after only if every slot is declared. -/
theorem alike_resolveAll_iff (hghost : o.state = .ghost declared cost (.ok slots))
    (hdistinct : (slots.map (·.1)).Nodup) (hok : ∀ slot ∈ slots, ∃ v, slot.2.outcome = .ok v) :
    Outcome.Alike List.Perm o.resolveAll.result o.wake.object.resolveAll.result ↔
      ∀ name ∈ slots.map (·.1), name ∈ declared := by
  have hafter := readsAll_wake hghost hdistinct
  constructor
  · intro halike name hname
    have hbefore := resolveAll_result (wake_ghost hghost).1
    rw [(fieldNames_ghost hghost).1] at hbefore
    rw [hbefore] at halike
    match hothers : o.wake.object.resolveAll.result,
        hfields : collect (outcomes slots) declared.eraseDups with
    | .error failure, _ =>
      rw [hothers] at hafter
      obtain ⟨failing, hfailing⟩ := hafter
      obtain ⟨slot, hslot, heq⟩ := List.mem_map.mp hfailing
      obtain ⟨v, hv⟩ := hok slot hslot
      cases hv.symm.trans (Prod.mk.inj heq).2
    | .ok others, .error failure =>
      rw [hothers, hfields] at halike
      exact halike.elim
    | .ok others, .ok fields =>
      -- The answer before has the names of all slots, and none that is not declared.
      rw [hothers, hfields] at halike
      rw [hothers] at hafter
      have hkeys := hafter.map Prod.fst
      rw [outcomes, known, List.map_map, List.map_map] at hkeys
      have hnames : (slots.map (·.1)).Perm (fields.map (·.1)) :=
        hkeys.trans (halike.symm.map Prod.fst)
      exact List.mem_eraseDups.mp ((keys_collect hfields).subset (hnames.mem_iff.mp hname))
  · intro hdeclared
    exact (readsAll_ghost hghost hdistinct hdeclared).alike hafter

example : (Object.resolveAll ⟨.made 0, "P", .ghost [] ⟨1, 0⟩ (.ok orderSlots)⟩).result = .ok [] :=
  rfl

end Object

end TypedJson
