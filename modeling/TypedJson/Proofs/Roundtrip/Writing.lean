import Mathlib.Data.List.Forall2
import TypedJson.Proofs.Codec.Direct
import TypedJson.Proofs.Codec.Optimize
import TypedJson.Proofs.Json.Quoted
import TypedJson.Proofs.Split.Exact

/-!
# Steps that write values

A step of a run *writes a value* of some description if it succeeds from every state and what it
adds to the text is the text of such a value, wherever it stands. The description speaks about the
parsed value. Lists and dictionaries are written in this sense if their members are.
-/

namespace TypedJson.Run

/-! ## Texts -/

/-- What follows a step that succeeds starts from where that step ends. -/
theorem bind_of_ok {α β : Type} {x : Run α} {f : α → Run β} {s s' : RunState} {a : α}
    (h : x s = .ok a s') : (x >>= f) s = f a s' := by
  change EStateM.bind x f s = _
  rw [EStateM.bind, h]

/-- The step succeeds from every state and adds the text. -/
def Adds (x : Run Unit) (text : String) : Prop :=
  ∀ state, ∃ log, x state = .ok () { state with out := state.out ++ text, log }

namespace Adds

variable {α : Type} {x : Run Unit} {a b text : String}

theorem pure : Adds (Pure.pure ()) "" := by
  intro state
  refine ⟨state.log, ?_⟩
  rw [String.append_empty]
  rfl

theorem write (text : String) : Adds (Run.write text) text := fun state ↦ ⟨state.log, rfl⟩

theorem bind {f : Unit → Run Unit} (hx : x.Adds a) (hf : (f ()).Adds b) :
    Adds (x >>= f) (a ++ b) := by
  intro state
  obtain ⟨log, hstate⟩ := hx state
  obtain ⟨log', hstate'⟩ := hf { state with out := state.out ++ a, log }
  refine ⟨log', (bind_of_ok hstate).trans ?_⟩
  rw [hstate', String.append_assoc]

theorem look_bind {source : Source} {value : Value} {f : Value → Run Unit}
    (h : source.outcome = .ok value) (hf : (f value).Adds text) :
    Adds (look source >>= f) text := by
  intro state
  obtain ⟨log, hstate⟩ := hf { state with log := source.accesses ++ state.log }
  have hlook : look source state =
      .ok value { state with log := source.accesses ++ state.log } := by
    change found source.outcome _ = _
    rw [h]
    rfl
  exact ⟨log, (bind_of_ok hlook).trans hstate⟩

theorem traced_bind {computation : Traced α} {a : α} {f : α → Run Unit}
    (h : ∀ log, (computation log).1 = a) (hf : (f a).Adds text) :
    Adds (traced computation >>= f) text := by
  intro state
  obtain ⟨log, hstate⟩ := hf { state with log := (computation state.log).2 }
  refine ⟨log, ?_⟩
  show f (computation state.log).1 { state with log := (computation state.log).2 } = _
  rw [h]
  exact hstate

end Adds

/-! ## Values -/

/-- The step adds the text of a value that fits a description, wherever it stands. -/
def WritesValue (x : Run Unit) (P : Parsed → Prop) : Prop :=
  ∃ text, x.Adds text ∧ ∀ offset, ∃ tree : Parsed, tree.Fills offset (Utf8.encode text) ∧ P tree

theorem WritesValue.mono {x : Run Unit} {P Q : Parsed → Prop} (h : x.WritesValue P)
    (hPQ : ∀ tree, P tree → Q tree) : x.WritesValue Q := by
  obtain ⟨text, hadds, hfills⟩ := h
  refine ⟨text, hadds, fun offset ↦ ?_⟩
  obtain ⟨tree, htree, hP⟩ := hfills offset
  exact ⟨tree, htree, hPQ tree hP⟩

theorem WritesValue.look_bind {source : Source} {value : Value} {f : Value → Run Unit}
    {P : Parsed → Prop} (h : source.outcome = .ok value) (hf : (f value).WritesValue P) :
    WritesValue (look source >>= f) P := by
  obtain ⟨text, hadds, hfills⟩ := hf
  exact ⟨text, hadds.look_bind h, hfills⟩

theorem WritesValue.traced_bind {α : Type} {computation : Traced α} {a : α} {f : α → Run Unit}
    {P : Parsed → Prop} (h : ∀ log, (computation log).1 = a) (hf : (f a).WritesValue P) :
    WritesValue (traced computation >>= f) P := by
  obtain ⟨text, hadds, hfills⟩ := hf
  exact ⟨text, hadds.traced_bind h, hfills⟩

theorem WritesValue.scalar {text : String} {value : Json} {P : Parsed → Prop}
    (h : Parsed.IsScalar (Utf8.encode text) value)
    (hP : ∀ offset, P (.scalar offset (Utf8.encode text) value)) : (write text).WritesValue P :=
  ⟨text, .write text, fun offset ↦ ⟨.scalar offset _ value, (Parsed.Stands.scalar h).isIn,
    hP offset⟩⟩

/-! ## Lists -/

section

variable {body : Value → Run Unit} {Q : Value → Parsed → Prop}

/-- The items after the first one. -/
theorem writes_items {items : List Value}
    (h : ∀ item ∈ items, (body item).WritesValue (Q item)) :
    ∃ text, (forItems "," body false items).Adds text ∧
      ∀ (first : Parsed) (offset : Nat) (bytes : List UInt8), first.Fills offset bytes →
        ∃ trees, Parsed.ItemsStand (first :: trees) offset (bytes ++ Utf8.encode text) ∧
          List.Forall₂ Q items trees := by
  induction items with
  | nil =>
    refine ⟨"", .pure, fun first offset bytes hfirst ↦ ⟨[], ?_, .nil⟩⟩
    rw [show Utf8.encode "" = [] from rfl, List.append_nil]
    exact .one hfirst
  | cons item items ih =>
    obtain ⟨text, hadds, hfills⟩ := h item List.mem_cons_self
    obtain ⟨rest, hrest, hstand⟩ := ih fun other hother ↦ h other (List.mem_cons_of_mem item hother)
    refine ⟨"," ++ (text ++ rest), (Adds.write ",").bind (hadds.bind hrest), ?_⟩
    intro first offset bytes hfirst
    obtain ⟨tree, htree, hQ⟩ := hfills (offset + bytes.length + 1)
    obtain ⟨trees, htrees, hall⟩ := hstand tree _ _ htree
    refine ⟨tree :: trees, ?_, .cons hQ hall⟩
    rw [Utf8.encode_append, Utf8.encode_append]
    exact .more hfirst htrees

/-- A list is written by a step that adds its items and its end, if each of them is written. -/
theorem writesValue_list {items : List Value} {P : Parsed → Prop} {x : Run Unit}
    (hx : ∀ text, Adds (do forItems "," body true items; write "]") text → x.Adds text)
    (h : ∀ item ∈ items, (body item).WritesValue (Q item))
    (hP : ∀ offset trees, List.Forall₂ Q items trees → P (.list offset trees)) :
    WritesValue (do write "["; x) P := by
  cases items with
  | nil =>
    refine ⟨"[" ++ ("" ++ "]"), (Adds.write "[").bind (hx _ (Adds.pure.bind (.write "]"))), ?_⟩
    intro offset
    exact ⟨.list offset [], (Parsed.Stands.emptyList Parsed.isBlank_nil).isIn, hP offset [] .nil⟩
  | cons item items =>
    obtain ⟨text, hadds, hfills⟩ := h item List.mem_cons_self
    obtain ⟨rest, hrest, hstand⟩ :=
      writes_items fun other hother ↦ h other (List.mem_cons_of_mem item hother)
    refine ⟨"[" ++ ((text ++ rest) ++ "]"),
      (Adds.write "[").bind (hx _ ((hadds.bind hrest).bind (.write "]"))), fun offset ↦ ?_⟩
    obtain ⟨tree, htree, hQ⟩ := hfills (offset + 1)
    obtain ⟨trees, htrees, hall⟩ := hstand tree _ _ htree
    refine ⟨.list offset (tree :: trees), ?_, hP offset _ (.cons hQ hall)⟩
    rw [Utf8.encode_append, Utf8.encode_append, Utf8.encode_append]
    exact (Parsed.Stands.list htrees).isIn

end

/-! ## Dictionaries -/

section

variable {flags : JsonFlags} {α : Type} {name : α → String} {body : α → Run Unit}
  {Q : α → Parsed → Prop}

/-- The entry has the name of the field, and its value fits the description of the field. -/
def FitsField (name : α → String) (Q : α → Parsed → Prop) (field : α)
    (entry : String × Parsed) : Prop :=
  entry.1 = name field ∧ Q field entry.2

/-- The step adds the text of an entry under a key, wherever it stands. -/
def WritesEntry (x : Run Unit) (key : String) (P : Parsed → Prop) : Prop :=
  ∃ text, x.Adds text ∧ ∀ offset, ∃ tree : Parsed,
    Parsed.EntryFills key tree offset (Utf8.encode text) ∧ P tree

theorem entryFills_quote {key text : String} {value : Parsed} {offset : Nat}
    (h : value.Fills (offset + (Json.quotedBody flags key).length + 2) (Utf8.encode text)) :
    Parsed.EntryFills key value offset
      (Utf8.encode (Json.quote flags key ++ (":" ++ text))) := by
  have hbytes : Utf8.encode (Json.quote flags key ++ (":" ++ text)) =
      [] ++ Byte.quote :: (Json.quotedBody flags key ++
        ([] ++ Byte.colon :: Utf8.encode text)) := by
    rw [Utf8.encode_append, Utf8.encode_append, Json.encode_quote]
    rfl
  rw [hbytes]
  exact .mk Parsed.isBlank_nil (Json.isBody_quotedBody flags key) (Utf8.decode?_encode key)
    Parsed.isBlank_nil h

/-- A key, a colon and a value are an entry. -/
theorem WritesValue.entry {x : Run Unit} {P : Parsed → Prop} (h : x.WritesValue P)
    (flags : JsonFlags) (key : String) :
    WritesEntry (do write (Json.quote flags key); write ":"; x) key P := by
  obtain ⟨text, hadds, hfills⟩ := h
  refine ⟨Json.quote flags key ++ (":" ++ text),
    (Adds.write _).bind ((Adds.write ":").bind hadds), fun offset ↦ ?_⟩
  obtain ⟨tree, htree, hP⟩ := hfills (offset + (Json.quotedBody flags key).length + 2)
  exact ⟨tree, entryFills_quote htree, hP⟩

/-- Fields are written entry by entry. -/
theorem writeFields_cons (isFirst : Bool) (key : String) (value : Run Unit)
    (fields : List (String × Run Unit)) :
    writeObject.writeFields flags isFirst ((key, value) :: fields) = (do
      if !isFirst then write ","
      (do write (Json.quote flags key); write ":"; value)
      writeObject.writeFields flags false fields) := by
  simp only [writeObject.writeFields, bind_assoc]

/-- The fields after the first one. -/
theorem writes_fields {fields : List α} (h : ∀ field ∈ fields, (body field).WritesValue (Q field)) :
    ∃ text, (writeObject.writeFields flags false
        (fields.map fun field ↦ (name field, body field))).Adds text ∧
      ∀ (key : String) (first : Parsed) (offset : Nat) (bytes : List UInt8),
        Parsed.EntryFills key first offset bytes →
          ∃ trees, Parsed.EntriesStand ((key, first) :: trees) offset (bytes ++ Utf8.encode text) ∧
            List.Forall₂ (FitsField name Q) fields trees := by
  induction fields with
  | nil =>
    refine ⟨"", .pure, fun key first offset bytes hfirst ↦ ⟨[], ?_, .nil⟩⟩
    rw [show Utf8.encode "" = [] from rfl, List.append_nil]
    exact .one hfirst
  | cons field fields ih =>
    obtain ⟨text, hadds, hfills⟩ := (h field List.mem_cons_self).entry flags (name field)
    obtain ⟨rest, hrest, hstand⟩ := ih fun other hother ↦ h other (List.mem_cons_of_mem _ hother)
    refine ⟨"," ++ (text ++ rest), ?_, ?_⟩
    · rw [List.map_cons, writeFields_cons]
      exact (Adds.write ",").bind (hadds.bind hrest)
    · intro key first offset bytes hfirst
      obtain ⟨tree, htree, hQ⟩ := hfills (offset + bytes.length + 1)
      obtain ⟨trees, htrees, hall⟩ := hstand (name field) tree _ _ htree
      refine ⟨(name field, tree) :: trees, ?_, .cons ⟨rfl, hQ⟩ hall⟩
      rw [Utf8.encode_append, Utf8.encode_append]
      exact .more hfirst htrees

/-- A dictionary is written by a step that adds its entries and its end, if each of its values is
written. -/
theorem writesValue_dict (flags : JsonFlags) (name : α → String) {fields : List α}
    {P : Parsed → Prop} {x : Run Unit}
    (hx : ∀ text, Adds (do
      writeObject.writeFields flags true (fields.map fun field ↦ (name field, body field))
      write "\x7d") text → x.Adds text)
    (h : ∀ field ∈ fields, (body field).WritesValue (Q field))
    (hP : ∀ offset trees, List.Forall₂ (FitsField name Q) fields trees →
      P (.dict offset trees)) :
    WritesValue (do write "\x7b"; x) P := by
  cases fields with
  | nil =>
    refine ⟨"\x7b" ++ ("" ++ "\x7d"), (Adds.write _).bind (hx _ (Adds.pure.bind (.write _))), ?_⟩
    intro offset
    exact ⟨.dict offset [], (Parsed.Stands.emptyDict Parsed.isBlank_nil).isIn, hP offset [] .nil⟩
  | cons field fields =>
    obtain ⟨text, hadds, hfills⟩ := (h field List.mem_cons_self).entry flags (name field)
    obtain ⟨rest, hrest, hstand⟩ := @writes_fields flags α name body Q fields
      fun other hother ↦ h other (List.mem_cons_of_mem _ hother)
    refine ⟨"\x7b" ++ ((text ++ rest) ++ "\x7d"), ?_, fun offset ↦ ?_⟩
    · refine (Adds.write _).bind (hx _ (Adds.bind ?_ (.write _)))
      rw [List.map_cons, writeFields_cons]
      exact hadds.bind hrest
    · obtain ⟨tree, htree, hQ⟩ := hfills (offset + 1)
      obtain ⟨trees, htrees, hall⟩ := hstand (name field) tree _ _ htree
      refine ⟨.dict offset ((name field, tree) :: trees), ?_, hP offset _ (.cons ⟨rfl, hQ⟩ hall)⟩
      rw [Utf8.encode_append, Utf8.encode_append, Utf8.encode_append]
      exact (Parsed.Stands.dict htrees).isIn

end

/-! ## Other ways of writing members -/

theorem writeItems_resolved (config : Config) (isFirst : Bool) (items : List Value) :
    writeItems config isFirst (resolvedItems items) =
      forItems "," (fun item ↦ writeResolved config item.resolved) isFirst items := by
  induction items generalizing isFirst with
  | nil => rfl
  | cons item items ih => rw [resolvedItems, writeItems, forItems, ih]

theorem writeEntries_resolved (config : Config) (isFirst : Bool)
    (entries : List (DictKey × Value)) :
    writeEntries config isFirst (resolvedEntries entries) =
      writeObject.writeFields config.jsonFlags isFirst
        (entries.map fun entry ↦ (entry.1.text, writeResolved config entry.2.resolved)) := by
  induction entries generalizing isFirst with
  | nil => rfl
  | cons entry entries ih =>
    rw [resolvedEntries, writeEntries, ih, List.map_cons, writeObject.writeFields]

theorem forEntries_eq (flags : JsonFlags) (body : Value → Run Unit) (isFirst : Bool)
    (entries : List (DictKey × Value)) :
    forEntries "," (fun key value ↦ do
        write (Json.quote flags key.text)
        write ":"
        body value) isFirst entries =
      writeObject.writeFields flags isFirst
        (entries.map fun entry ↦ (entry.1.text, body entry.2)) := by
  induction entries generalizing isFirst with
  | nil => rfl
  | cons entry entries ih => rw [forEntries, ih, List.map_cons, writeFields_cons]

/-- How a property of an object is written. -/
def propertyWriter (context : RunContext) (object : Source) (p : PropertyNode Node) : Run Unit :=
  writeFormatted context p.accessor p.node.acceptsNull p.formatters (p.node.writeDirect context)
    (object.property p.accessor)

theorem writeProperties_eq (context : RunContext) (isFirst : Bool)
    (properties : List (PropertyNode Node)) (object : Source) :
    writeProperties context isFirst properties object =
      writeObject.writeFields context.config.jsonFlags isFirst
        (properties.map fun p ↦ (p.encodedName, propertyWriter context object p)) := by
  induction properties generalizing isFirst with
  | nil => rfl
  | cons p properties ih =>
    rw [writeProperties, List.map_cons, writeFields_cons]
    simp only [ih, write_append, bind_assoc]
    rfl

end TypedJson.Run
