import TypedJson.Proofs.Codec.Compile
import TypedJson.Proofs.Decimal.Shortest
import TypedJson.Proofs.Json.Compact
import TypedJson.Proofs.Outcome
import TypedJson.Proofs.Roundtrip.Writing

/-!
# Encoders write compact texts

A step of a run *emits* bytes of a kind if whatever it has added to the text by the time it succeeds
is of that kind. Nothing is said about steps that fail, so a step may be given any value: one that
does not conform fails, or is written as something of the kind all the same.

Brackets, commas and colons come from literals, and what stands between them from writers, so no
single step emits the text of a value. What steps emit one after another is put together by
`Emits.bind`, members with commas between them by `Emits.separated`, and the instructions of a node
emit a compact text by induction on the node (`emits_node`).
-/

namespace TypedJson

open Grammar

namespace Run

variable {α β : Type} {p q r : List UInt8 → Prop} {c : Run α} {f : α → Run β}

/-- If the step succeeds, what it has added to the text is of a kind. -/
def Emits (p : List UInt8 → Prop) (c : Run α) : Prop :=
  ∀ state a state', c state = .ok a state' →
    ∃ text, state'.out = state.out ++ text ∧ p (Utf8.encode text)

/-- Bytes of one kind followed by bytes of another. -/
def Then (p q : List UInt8 → Prop) (bytes : List UInt8) : Prop :=
  ∃ front back, bytes = front ++ back ∧ p front ∧ q back

/-- If the step succeeds, it has not written anything. -/
abbrev Silent (c : Run α) : Prop := c.Emits (· = [])

/-! ## Steps one after another -/

theorem Emits.mono (h : c.Emits p) (hpq : ∀ bytes, p bytes → q bytes) : c.Emits q := by
  intro state a state' hc
  obtain ⟨text, hout, htext⟩ := h state a state' hc
  exact ⟨text, hout, hpq _ htext⟩

/-- What follows a step may rely on where the value comes from that it is given. -/
theorem Emits.bind_of (hc : c.Emits p)
    (hf : ∀ state a state', c state = .ok a state' → (f a).Emits q) :
    (c >>= f).Emits (Then p q) := by
  intro state b state' h
  obtain ⟨a, between, hca, hfa⟩ := Outcome.exists_of_run_bind h
  obtain ⟨front, hfront, hp⟩ := hc state a between hca
  obtain ⟨back, hback, hq⟩ := hf state a between hca between b state' hfa
  refine ⟨front ++ back, ?_, Utf8.encode front, Utf8.encode back, Utf8.encode_append _ _, hp, hq⟩
  rw [hback, hfront, String.append_assoc]

theorem Emits.bind (hc : c.Emits p) (hf : ∀ a, (f a).Emits q) : (c >>= f).Emits (Then p q) :=
  hc.bind_of fun _ a _ _ ↦ hf a

theorem Silent.bind_of (hc : c.Silent)
    (hf : ∀ state a state', c state = .ok a state' → (f a).Emits q) : (c >>= f).Emits q := by
  refine (Emits.bind_of hc hf).mono ?_
  rintro _ ⟨front, back, rfl, rfl, hq⟩
  exact hq

theorem Silent.bind (hc : c.Silent) (hf : ∀ a, (f a).Emits q) : (c >>= f).Emits q :=
  hc.bind_of fun _ a _ _ ↦ hf a

theorem emits_pure (a : α) (h : p []) : (pure a : Run α).Emits p := by
  intro state b state' hc
  obtain ⟨-, rfl⟩ := EStateM.Result.ok.inj hc
  exact ⟨"", (String.append_empty).symm, h⟩

theorem emits_throw (failure : Failure) : (throw failure : Run α).Emits p := by
  intro state b state' hc
  exact nomatch hc

theorem emits_write {text : String} (h : p (Utf8.encode text)) : (write text).Emits p := by
  intro state b state' hc
  obtain ⟨-, rfl⟩ := EStateM.Result.ok.inj hc
  exact ⟨text, rfl, h⟩

theorem silent_found (outcome : Except Failure α) : (found outcome).Silent := by
  cases outcome with
  | ok a => exact emits_pure a rfl
  | error failure => exact emits_throw failure

theorem silent_traced (computation : Traced α) : (traced computation).Silent := by
  intro state a state' hc
  obtain ⟨-, rfl⟩ := EStateM.Result.ok.inj hc
  exact ⟨"", (String.append_empty).symm, rfl⟩

theorem silent_setSlot (n : Nat) (value : Value) : (setSlot n value).Silent := by
  intro state a state' hc
  obtain ⟨-, rfl⟩ := EStateM.Result.ok.inj hc
  exact ⟨"", (String.append_empty).symm, rfl⟩

theorem Emits.atAccessor (h : c.Emits p) (a : Accessor) : (atAccessor a c).Emits p := by
  intro state b state' hc
  refine h state b state' ?_
  change EStateM.tryCatch c _ state = _ at hc
  unfold EStateM.tryCatch at hc
  cases hstate : c state with
  | ok b between =>
    simp only [hstate] at hc
    exact hc
  | error failure between =>
    simp only [hstate] at hc
    exact nomatch hc

theorem silent_read (a : Accessor) : (read a).Silent := by
  induction a with
  | slot n =>
    intro state b state' hc
    obtain ⟨-, rfl⟩ := EStateM.Result.ok.inj hc
    exact ⟨"", (String.append_empty).symm, rfl⟩
  | property base name ih =>
    rw [read]
    refine ih.bind fun value ↦ ?_
    split
    · refine Silent.bind (Emits.atAccessor ?_ _) fun field ↦ emits_pure _ rfl
      exact (silent_traced _).bind silent_found
    · exact (emits_throw _).atAccessor _

theorem silent_select (context : RunContext) (value : Value) (selector : Selector) :
    (select context value selector).Silent := by
  unfold select
  split
  · exact emits_pure _ rfl
  · exact emits_pure _ rfl
  · split
    · exact emits_throw _
    · refine (silent_traced _).bind fun key ↦ ?_
      split
      · exact emits_pure _ rfl
      · exact emits_throw _

/-! ## Members with commas between them -/

/-- Texts of a kind with commas between them, and a comma in front unless the first is the first
member of all. -/
def Separated (p : List UInt8 → Prop) (isFirst : Bool) (bytes : List UInt8) : Prop :=
  ∃ texts, (∀ text ∈ texts, p text) ∧
    bytes = if isFirst then [Byte.comma].intercalate texts else texts.flatMap (Byte.comma :: ·)

theorem Separated.nil (isFirst : Bool) : Separated p isFirst [] := by
  refine ⟨[], List.forall_mem_nil _, ?_⟩
  cases isFirst <;> rfl

theorem Separated.cons {isFirst : Bool} {bytes : List UInt8}
    (h : Then (· = if isFirst then [] else [Byte.comma]) (Then p (Separated p false)) bytes) :
    Separated p isFirst bytes := by
  obtain ⟨comma, _, rfl, rfl, text, _, rfl, htext, texts, htexts, rfl⟩ := h
  refine ⟨text :: texts, List.forall_mem_cons.mpr ⟨htext, htexts⟩, ?_⟩
  cases isFirst with
  | true => exact (intercalate_comma text texts).symm
  | false => rfl

/-- A member in front of others, with a comma if it is not the first. -/
theorem Emits.member {rest : Run Unit} {member : Run Unit} (h : member.Emits p)
    (hrest : rest.Emits q) (isFirst : Bool) :
    Emits (Then (· = if isFirst then [] else [Byte.comma]) (Then p q)) (do
      if !isFirst then write ","
      member
      rest) := by
  have hmembers := h.bind fun _ ↦ hrest
  cases isFirst with
  | true => exact hmembers.mono fun bytes hbytes ↦ ⟨[], bytes, rfl, rfl, hbytes⟩
  | false =>
    have hcomma : (write ",").Emits (· = [Byte.comma]) := emits_write rfl
    exact hcomma.bind fun _ ↦ hmembers

theorem Emits.separated {rest : Run Unit} {member : Run Unit} (h : member.Emits p)
    (hrest : rest.Emits (Separated p false)) (isFirst : Bool) :
    Emits (Separated p isFirst) (do
      if !isFirst then write ","
      member
      rest) :=
  (h.member hrest isFirst).mono fun _ ↦ .cons

/-- The bytes of a string whose body is of a kind. -/
def StartsString (isBody : List UInt8 → Prop) (bytes : List UInt8) : Prop :=
  ∃ body, isBody body ∧ bytes = Byte.quote :: body

variable {isBody : List UInt8 → Prop} {bytes : List UInt8}

theorem isCompactEntry_of_then
    (h : Then (StartsString isBody) (Then (· = [Byte.colon]) (IsCompact isBody)) bytes) :
    IsCompactEntry isBody bytes := by
  obtain ⟨_, _, rfl, ⟨body, hbody, rfl⟩, _, text, rfl, rfl, htext⟩ := h
  exact .mk hbody htext

theorem isCompact_list (h : Then (· = [Byte.openList])
    (Then (Separated (IsCompact isBody) true) (· = [Byte.closeList])) bytes) :
    IsCompact isBody bytes := by
  obtain ⟨_, _, rfl, rfl, _, _, rfl, ⟨texts, htexts, rfl⟩, rfl⟩ := h
  exact .list htexts

theorem isCompact_dict (h : Then (· = [Byte.openDict])
    (Then (Separated (IsCompactEntry isBody) true) (· = [Byte.closeDict])) bytes) :
    IsCompact isBody bytes := by
  obtain ⟨_, _, rfl, rfl, _, _, rfl, ⟨texts, htexts, rfl⟩, rfl⟩ := h
  exact .dict htexts

/-- A key, a colon and a value. -/
theorem Emits.entry {key value : Run Unit} (hkey : key.Emits (StartsString isBody))
    (hvalue : value.Emits (IsCompact isBody)) :
    Emits (IsCompactEntry isBody) (do
      key
      write ":"
      value) := by
  refine Emits.mono ?_ fun _ ↦ isCompactEntry_of_then
  exact hkey.bind fun _ ↦ Emits.bind (emits_write rfl) fun _ ↦ hvalue

theorem emits_forItems {body : Value → Run Unit} (h : ∀ item, (body item).Emits p) (isFirst : Bool)
    (items : List Value) : (forItems "," body isFirst items).Emits (Separated p isFirst) := by
  induction items generalizing isFirst with
  | nil => exact emits_pure () (.nil isFirst)
  | cons item items ih => exact (h item).separated (ih false) isFirst

theorem emits_forEntries {body : DictKey → Value → Run Unit}
    (h : ∀ key value, (body key value).Emits p) (isFirst : Bool)
    (entries : List (DictKey × Value)) :
    (forEntries "," body isFirst entries).Emits (Separated p isFirst) := by
  induction entries generalizing isFirst with
  | nil => exact emits_pure () (.nil isFirst)
  | cons entry entries ih => exact (h entry.1 entry.2).separated (ih false) isFirst

/-! ## Values -/

/-- The bodies of the strings that are written under flags. -/
def QuotedBody (flags : JsonFlags) (body : List UInt8) : Prop :=
  ∃ s, body = Json.quotedBody flags s

section

variable {flags : JsonFlags}

theorem emits_quote (flags : JsonFlags) (s : String) :
    (write (Json.quote flags s)).Emits (StartsString (QuotedBody flags)) :=
  emits_write ⟨_, ⟨s, rfl⟩, Json.encode_quote flags s⟩

theorem emits_string (flags : JsonFlags) (s : String) :
    (write (Json.quote flags s)).Emits (IsCompact (QuotedBody flags)) := by
  refine (emits_quote flags s).mono ?_
  rintro _ ⟨body, hbody, rfl⟩
  exact .string hbody

theorem emits_bool (b : Bool) :
    (write (if b then "true" else "false")).Emits (IsCompact isBody) := by
  cases b with
  | true => exact emits_write .true
  | false => exact emits_write .false

theorem emits_int (i : Int64) :
    (write (toString i.toInt)).Emits (IsCompact isBody) := by
  obtain ⟨l, hl, -⟩ := Decimal.isLiteral_int i
  exact emits_write (.number hl)

theorem emits_writeFloat (flags : JsonFlags) (f : Float) :
    (writeFloat flags f).Emits (IsCompact isBody) := by
  unfold writeFloat
  split
  · next text htext =>
    obtain ⟨l, hl⟩ := Decimal.exists_isLiteral_of_floatText? htext
    exact emits_write (.number hl)
  · exact emits_throw _

/-- A value that is no scalar of the kind is not written. -/
theorem emits_writeScalar (flags : JsonFlags) (kind : ScalarKind) (value : Value) :
    (writeScalar flags kind value).Emits (IsCompact (QuotedBody flags)) := by
  unfold writeScalar
  split
  · exact emits_int _
  · exact emits_writeFloat flags _
  · exact emits_writeFloat flags _
  · exact emits_bool _
  · exact emits_string flags _
  · exact emits_throw _

theorem emits_writeKey (flags : JsonFlags) (value : Value) :
    (writeKey flags value).Emits (StartsString (QuotedBody flags)) := by
  unfold writeKey
  split
  · exact emits_quote flags _
  · exact emits_quote flags _
  · exact emits_throw _

/-- Slots whose writers emit values. -/
def EmittingSlots (flags : JsonFlags) (slots : List (String × Except Failure (Run Unit))) : Prop :=
  ∀ name writer, (name, Except.ok writer) ∈ slots → writer.Emits (IsCompact (QuotedBody flags))

theorem emits_writeFields (fields : List (String × Run Unit)) (isFirst : Bool)
    (h : ∀ name writer, (name, writer) ∈ fields → writer.Emits (IsCompact (QuotedBody flags))) :
    (writeObject.writeFields flags isFirst fields).Emits
      (Separated (IsCompactEntry (QuotedBody flags)) isFirst) := by
  induction fields generalizing isFirst with
  | nil => exact emits_pure () (.nil isFirst)
  | cons field fields ih =>
    obtain ⟨name, writer⟩ := field
    rw [writeFields_cons]
    have hentry := (emits_quote flags name).entry (h name writer List.mem_cons_self)
    exact hentry.separated
      (ih false fun name writer hmem ↦ h name writer (List.mem_cons_of_mem _ hmem)) isFirst

/-- The fields that an object answers are among its slots. -/
theorem emits_readFields (flags : JsonFlags) (o : ResolvedObject (Run Unit))
    (h : ∀ slots, o.slots = .ok slots → EmittingSlots flags slots) :
    Emits (Separated (IsCompactEntry (QuotedBody flags)) true) (do
      let fields ← found (← traced o.read)
      writeObject.writeFields flags true fields) := by
  -- The writers that are run are those that reading the object has answered, so they emit values.
  refine (silent_traced _).bind_of fun state outcome _ hread ↦ ?_
  refine (silent_found _).bind_of fun _ fields _ hfound ↦ ?_
  have hfields : (o.read state.log).1 = .ok fields :=
    (EStateM.Result.ok.inj hread).1.trans (eq_ok_of_found hfound)
  refine emits_writeFields fields true fun name writer hmem ↦ ?_
  obtain ⟨slots, hslots, hwriter⟩ := ResolvedObject.exists_slots_of_read hfields hmem
  exact h slots hslots name writer hwriter

theorem emits_writeObject (flags : JsonFlags) (o : ResolvedObject (Run Unit))
    (h : ∀ slots, o.slots = .ok slots → EmittingSlots flags slots) :
    (writeObject flags o).Emits (IsCompact (QuotedBody flags)) := by
  -- The fields are read and written between the braces as one step.
  have hmembers : writeObject flags o = (do
      write "\x7b"
      (do let fields ← found (← traced o.read); writeObject.writeFields flags true fields)
      write "\x7d") := by
    simp only [writeObject, bind_assoc]
  rw [hmembers]
  refine Emits.mono ?_ fun _ ↦ isCompact_dict
  exact Emits.bind (emits_write rfl) fun _ ↦
    (emits_readFields flags o h).bind fun _ ↦ emits_write rfl

mutual

theorem emits_writeResolved (config : Config) : ∀ value : Resolved,
    (writeResolved config value).Emits (IsCompact (QuotedBody config.jsonFlags))
  | .null => emits_write .null
  | .bool b => emits_bool b
  | .int i => emits_int i
  | .float f => emits_writeFloat _ f
  | .string s => emits_string _ s
  | .list items => by
    rw [writeResolved]
    refine Emits.mono ?_ fun _ ↦ isCompact_list
    exact Emits.bind (emits_write rfl) fun _ ↦
      (emits_writeItems config true items).bind fun _ ↦ emits_write rfl
  | .dict entries => by
    rw [writeResolved]
    refine Emits.mono ?_ fun _ ↦ isCompact_dict
    exact Emits.bind (emits_write rfl) fun _ ↦
      (emits_writeEntries config true entries).bind fun _ ↦ emits_write rfl
  | .object o => emits_writeObject _ _ (emitting_objectWriter config o)
  | .enum _ case => emits_writeResolved config case
  | .dateTime t => by
    rw [writeResolved]
    exact (silent_found _).bind fun _ ↦ emits_string _ _
termination_by structural value => value

theorem emits_writeItems (config : Config) (isFirst : Bool) : ∀ items : List Resolved,
    (writeItems config isFirst items).Emits
      (Separated (IsCompact (QuotedBody config.jsonFlags)) isFirst)
  | [] => emits_pure () (.nil isFirst)
  | item :: items =>
    (emits_writeResolved config item).separated (emits_writeItems config false items) isFirst
termination_by structural items => items

theorem emits_writeEntries (config : Config) (isFirst : Bool) :
    ∀ entries : List (DictKey × Resolved),
      (writeEntries config isFirst entries).Emits
        (Separated (IsCompactEntry (QuotedBody config.jsonFlags)) isFirst)
  | [] => emits_pure () (.nil isFirst)
  | (key, value) :: entries => by
    have hentry := (emits_quote config.jsonFlags key.text).entry (emits_writeResolved config value)
    have hall := hentry.separated (emits_writeEntries config false entries) isFirst
    simpa only [writeEntries, bind_assoc] using hall
termination_by structural entries => entries

theorem emitting_objectWriter (config : Config) : ∀ o : ResolvedObject Resolved,
    ∀ slots, (objectWriter config o).slots = .ok slots → EmittingSlots config.jsonFlags slots
  | ⟨_, _, _, .ok slots⟩ => by
    rintro _ ⟨⟩
    exact emitting_slotWriters config slots
  | ⟨_, _, _, .error _⟩ => fun _ h ↦ nomatch h
termination_by structural o => o

theorem emitting_slotWriters (config : Config) : ∀ slots : List (String × Except Failure Resolved),
    EmittingSlots config.jsonFlags (slotWriters config slots)
  | [] => fun _ _ hmem ↦ absurd hmem List.not_mem_nil
  | (first, .ok value) :: slots => by
    intro name writer hmem
    obtain hhead | hmem := List.mem_cons.mp hmem
    · obtain ⟨-, hwriter⟩ := Prod.mk.inj hhead
      rw [Except.ok.inj hwriter]
      exact emits_writeResolved config value
    · exact emitting_slotWriters config slots name writer hmem
  | (first, .error failure) :: slots => by
    intro name writer hmem
    obtain hhead | hmem := List.mem_cons.mp hmem
    · exact nomatch (Prod.mk.inj hhead).2
    · exact emitting_slotWriters config slots name writer hmem
termination_by structural slots => slots

end

theorem emits_writeValue (config : Config) (kind : WriteKind) (value : Value) :
    (writeValue config kind value).Emits (IsCompact (QuotedBody config.jsonFlags)) := by
  unfold writeValue
  split
  · exact emits_writeResolved config _
  · exact emits_writeScalar _ _ _
  · exact emits_writeScalar _ _ _
  · exact emits_writeScalar _ _ _

end

end Run

end TypedJson
