import TypedJson.Proofs.Codec.Compact
import TypedJson.Proofs.Split.WellFormed

/-!
# Keys of encoded dictionaries

An encoded dictionary has one entry for each entry of the value, in order, under the text of its
key. This holds of any dictionary that is encoded at all, whatever its items are written as: a loop
fills a slot with the key, and nothing is run between filling the slot and writing the key.
-/

namespace TypedJson

open Grammar

/-! ## Entries -/

/-- The bytes of an entry under a key. -/
def Grammar.IsEntryOf (key : DictKey) (bytes : List UInt8) : Prop :=
  ∃ e : Entry, e.key = key.text ∧ bytes = e.bytes

/-- The bytes of entries under keys, with commas between them, and a comma in front unless the first
is the first entry of all. -/
def Grammar.AreEntriesOf (keys : List DictKey) (isFirst : Bool) (bytes : List UInt8) : Prop :=
  ∃ written : List Entry, written.map (·.key) = keys.map (·.text) ∧
    bytes = if isFirst then [Byte.comma].intercalate (written.map Entry.bytes)
      else (written.map Entry.bytes).flatMap (Byte.comma :: ·)

/-- Braces around all entries make a dictionary. -/
theorem Grammar.AreEntriesOf.exists_text {keys : List DictKey} {bytes : List UInt8}
    (h : AreEntriesOf keys true bytes) :
    ∃ written : List Entry, written.map (·.key) = keys.map (·.text) ∧
      Byte.openDict :: (bytes ++ [Byte.closeDict]) =
        Container.dict.text (between [] (written.map Entry.bytes)) := by
  obtain ⟨written, hkeys, rfl⟩ := h
  refine ⟨written, hkeys, ?_⟩
  cases written <;> rfl

namespace Run

variable {context : RunContext}

theorem areEntriesOf_nil (isFirst : Bool) : AreEntriesOf [] isFirst [] := by
  refine ⟨[], rfl, ?_⟩
  cases isFirst <;> rfl

theorem areEntriesOf_cons {key : DictKey} {keys : List DictKey} {isFirst : Bool}
    {bytes : List UInt8} (h : Then (· = if isFirst then [] else [Byte.comma])
      (Then (IsEntryOf key) (AreEntriesOf keys false)) bytes) :
    AreEntriesOf (key :: keys) isFirst bytes := by
  obtain ⟨comma, _, rfl, rfl, _, _, rfl, ⟨e, he, rfl⟩, written, hwritten, rfl⟩ := h
  refine ⟨e :: written, by rw [List.map_cons, List.map_cons, he, hwritten], ?_⟩
  cases isFirst with
  | true => exact (intercalate_comma _ _).symm
  | false => rfl

/-- The quoted text of a key, a colon and a compact text are an entry under the key. -/
theorem isEntryOf_quote {flags : JsonFlags} {key : DictKey} {bytes : List UInt8}
    (h : Then (· = Utf8.encode (Json.quote flags key.text))
      (Then (· = [Byte.colon]) (IsCompact (QuotedBody flags))) bytes) : IsEntryOf key bytes := by
  obtain ⟨_, _, rfl, rfl, _, text, rfl, rfl, htext⟩ := h
  have hvalue : IsValue text := htext.isValue fun _ ↦ isString_of_quotedBody
  let value : Element := ⟨[], text, [], Parsed.isBlank_nil, hvalue, Parsed.isBlank_nil⟩
  let e : Entry := ⟨[], Json.quotedBody flags key.text, key.text, [], value, Parsed.isBlank_nil,
    Json.spells_quotedBody flags key.text, Parsed.isBlank_nil⟩
  refine ⟨e, rfl, ?_⟩
  rw [Json.encode_quote]
  simp [Entry.bytes, Element.bytes, e, value, Byte.quote]

/-! ## Loops -/

/-- What is written in place of a key is the key, if anything is. -/
theorem emits_writeKey_getD (flags : JsonFlags) (a : Accessor) (key : DictKey)
    {found : Option Value} (h : found = some (.ofKey key) ∨ found = none) :
    (atAccessor a (writeKey flags (found.getD .null))).Emits
      (· = Utf8.encode (Json.quote flags key.text)) := by
  refine Emits.atAccessor ?_ a
  obtain rfl | rfl := h
  · rw [Option.getD_some, write_key]
    exact emits_write rfl
  · exact emits_throw _

/-- Filling the slots of an entry and running its body writes the entry. Were there no slot for the
key, the body would fail. -/
theorem emits_dictEntry {n : Nat} {body : List Instruction}
    (hbody : (instructions context body).Emits (IsCompact (QuotedBody context.config.jsonFlags)))
    (key : DictKey) (value : Value) :
    Emits (IsEntryOf key) (do
      setSlot n (.ofKey key)
      setSlot (n + 1) value
      instructions context [.writeKey (.slot n), .writeLiteral ":", .block body]) := by
  intro state a state' hrun
  let slots := (state.slots.set n (.ofKey key)).set (n + 1) value
  have hslot : slots[n]? = some (.ofKey key) ∨ slots[n]? = none := by
    rw [List.getElem?_set_ne (Nat.succ_ne_self n)]
    by_cases hn : n < state.slots.length
    · exact .inl (List.getElem?_set_self hn)
    · refine .inr (List.getElem?_eq_none ?_)
      rw [List.length_set]
      exact Nat.le_of_not_lt hn
  have hkey := emits_writeKey_getD context.config.jsonFlags (.slot n) key hslot
  have hcolon : (instruction context (.writeLiteral ":")).Emits (· = [Byte.colon]) :=
    emits_literal rfl
  have hrest := emits_cons hcolon (emits_singleton (emits_block hbody))
  obtain ⟨text, hout, htext⟩ := hkey.bind (fun _ ↦ hrest) { state with slots } a state' hrun
  exact ⟨text, hout, isEntryOf_quote htext⟩

theorem emits_forEntries_keys {body : DictKey → Value → Run Unit}
    (h : ∀ key value, (body key value).Emits (IsEntryOf key)) (isFirst : Bool)
    (entries : List (DictKey × Value)) :
    (forEntries "," body isFirst entries).Emits (AreEntriesOf (entries.map (·.1)) isFirst) := by
  induction entries generalizing isFirst with
  | nil => exact emits_pure () (areEntriesOf_nil isFirst)
  | cons entry entries ih =>
    exact ((h entry.1 entry.2).member (ih false) isFirst).mono fun _ ↦ areEntriesOf_cons

theorem instruction_dictLoop {a : Accessor} {n : Nat} {body : List Instruction}
    {entries : List (DictKey × Value)} {state : RunState}
    (h : read a state = .ok (.dict entries) state) :
    instruction context (.loop a .dict [n, n + 1] "," body) state =
      forEntries "," (fun key value ↦ do
        setSlot n (.ofKey key)
        setSlot (n + 1) value
        instructions context body) true entries state := by
  rw [instruction]
  change EStateM.bind (read a) _ state = _
  rw [EStateM.bind, h]
  rfl

end Run

/-! ## Texts -/

/-- **Encoding keeps keys.** The text of a dictionary has the keys of the dictionary, in order. -/
theorem exists_entries_of_encode {kind : ScalarKind} {item : Node} {registry : Registry}
    {config : Config} {entries : List (DictKey × Value)} {text : String}
    (h : (compile (.dict kind item) config.jsonFlags).encode registry config (.dict entries) =
      .ok text) :
    ∃ written : List Entry, written.map (·.key) = entries.map (·.1.text) ∧
      Utf8.encode text = Container.dict.text (between [] (written.map Entry.bytes)) := by
  obtain ⟨state, hrun, rfl⟩ := exists_run_of_encode h
  -- The run is a brace, the loop, and another brace.
  obtain ⟨_, opened, hopen, hrun⟩ := Outcome.exists_of_run_bind hrun
  obtain ⟨-, rfl⟩ := EStateM.Result.ok.inj hopen
  obtain ⟨_, looped, hloop, hrun⟩ := Outcome.exists_of_run_bind hrun
  obtain ⟨_, closed, hclose, hend⟩ := Outcome.exists_of_run_bind hrun
  obtain ⟨-, rfl⟩ := EStateM.Result.ok.inj hclose
  obtain ⟨-, rfl⟩ := EStateM.Result.ok.inj hend
  -- The value is still in its slot, since only a brace has been written.
  rw [Run.instruction_dictLoop rfl] at hloop
  have hitem := @Run.emits_node ⟨registry, config⟩ (.slot 2) 3 item
  obtain ⟨inner, hinner, hentries⟩ :=
    Run.emits_forEntries_keys (fun key value ↦ Run.emits_dictEntry hitem key value) true entries
      _ _ _ hloop
  obtain ⟨written, hkeys, htext⟩ := hentries.exists_text
  refine ⟨written, hkeys.trans (List.map_map ..), ?_⟩
  have hout : looped.out = "" ++ "\x7b" ++ inner := hinner
  change Utf8.encode (looped.out ++ "\x7d") = _
  rw [← htext, hout, String.empty_append, Utf8.encode_append, Utf8.encode_append]
  rfl

end TypedJson
