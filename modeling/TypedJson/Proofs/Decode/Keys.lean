import Mathlib.Data.List.Nodup
import TypedJson.Proofs.Decimal.Integer
import TypedJson.Proofs.Decode.Deferring
import TypedJson.Proofs.Split.WellFormed

/-!
# Entries of dictionaries

Where a dictionary is read and no error is collected, each entry of its text has been read: as a
pair of a key and a value, in the order of the text. What becomes of the pairs is a matter of their
keys alone. Pairs with distinct keys are the dictionary. Where two texts are read as one key, the
dictionary has one entry for both.

A string is read as itself. An integer is read from more texts than the one that it is written as:
`01`, `+1` and `1` are the same key.
-/

namespace TypedJson

open Grammar

/-! ## Keys -/

/-- A text that is written as it stands when it is read as a key: any string, and an integer in
decimals without leading zeros and without a sign, or with a minus sign if it is negative. -/
def ScalarKind.IsPlainKey (kind : ScalarKind) (text : String) : Prop :=
  kind = .int → ∃ i : Int64, text = toString i.toInt

namespace DictKey

variable {kind : ScalarKind} {text : String} {key : DictKey}

theorem ofText_of_ne_int (h : kind ≠ .int) (text : String) :
    ofText kind text = .ok (.string text) := by
  cases kind with
  | int => exact absurd rfl h
  | _ => rfl

theorem exists_of_ofText_int (h : ofText .int text = .ok key) :
    ∃ i, Decimal.int64? text = some i ∧ key = .int i := by
  unfold ofText at h
  cases hi : Decimal.int64? text with
  | none =>
    rw [hi] at h
    cases h
  | some i =>
    rw [hi] at h
    exact ⟨i, rfl, (Except.ok.inj h).symm⟩

/-- A key is written as the text that it is read from exactly if the text is plain. -/
theorem text_eq_iff_isPlainKey (h : ofText kind text = .ok key) :
    key.text = text ↔ kind.IsPlainKey text := by
  by_cases hkind : kind = .int
  · subst hkind
    obtain ⟨i, hi, rfl⟩ := exists_of_ofText_int h
    constructor
    · exact fun htext _ ↦ ⟨i, htext.symm⟩
    · intro hplain
      obtain ⟨j, rfl⟩ := hplain rfl
      rw [Decimal.int64?_toString, Option.some.injEq] at hi
      rw [hi, DictKey.text]
  · rw [ofText_of_ne_int hkind] at h
    obtain rfl := Except.ok.inj h
    exact iff_of_true rfl fun hint ↦ absurd hint hkind

/-- The keys are written as the texts that they are read from exactly if all of these are plain. -/
theorem map_text_eq_iff {texts : List String} {keys : List DictKey}
    (h : List.Forall₂ (fun text key ↦ ofText kind text = .ok key) texts keys) :
    keys.map DictKey.text = texts ↔ ∀ text ∈ texts, kind.IsPlainKey text := by
  induction h with
  | nil => simp
  | cons hkey _ ih =>
    rw [List.map_cons, List.cons_eq_cons, List.forall_mem_cons, text_eq_iff_isPlainKey hkey, ih]

end DictKey

/-- Pairs that are read from distinct texts keep the texts as their keys exactly if all of these are
plain. Then all of the pairs are entries. -/
theorem Entries.map_text_ofList_eq_iff {α : Type} {kind : ScalarKind} {texts : List String}
    {pairs : List (DictKey × α)} (hdistinct : texts.Nodup)
    (h : List.Forall₂ (fun text key ↦ DictKey.ofText kind text = .ok key) texts
      (pairs.map (·.1))) :
    (Entries.ofList pairs).map (·.1.text) = texts ↔ ∀ text ∈ texts, kind.IsPlainKey text := by
  have hall := DictKey.map_text_eq_iff h
  have hlength := h.length_eq
  rw [List.length_map] at hlength
  constructor
  · intro heq
    -- There are as many keys as texts, so that no pair has been lost.
    have hpairs : (Entries.ofList pairs).length = pairs.length := by
      rw [← hlength, ← heq, List.length_map]
    rw [Entries.ofList_of_nodup ((Entries.length_ofList_eq_iff pairs).mp hpairs)] at heq
    rw [← hall, List.map_map]
    exact heq
  · intro hplain
    have htexts := hall.mpr hplain
    -- Keys that are written as distinct texts are distinct.
    have hkeys : (pairs.map (·.1)).Nodup := by
      rw [← htexts] at hdistinct
      exact hdistinct.of_map
    rw [Entries.ofList_of_nodup hkeys, ← htexts, List.map_map]
    rfl

/-! ## Steps without errors -/

theorem Collector.errors_ne_nil_of_record? {c c' : Collector} {failure : Failure}
    (h : c.record? failure = some c') : c'.errors ≠ [] := by
  unfold Collector.record? at h
  split at h
  · obtain rfl := Option.some.inj h
    exact List.append_ne_nil_of_right_ne_nil _ (List.cons_ne_nil _ _)
  · cases h

/-- Collected errors are kept. -/
theorem DecodeState.isInvariant_errors_ne_nil :
    DecodeState.IsInvariant fun state ↦ state.collector.errors ≠ [] where
  pay _ h := h
  record _ hrecord := Collector.errors_ne_nil_of_record? hrecord
  remember _ _ h := h

namespace Decode

variable {α : Type} {kind : ScalarKind} {item : Plan} {place : Place}

/-- A part is left out only if its error is collected. -/
theorem exists_of_orRecord {x : Decode α} {a : Option α} {state state' : DecodeState}
    (h : orRecord x state = .ok a state') (herrors : state'.collector.errors = []) :
    ∃ b, a = some b ∧ x state = .ok b state' := by
  cases hrun : x state with
  | ok b after =>
    obtain ⟨rfl, rfl⟩ := EStateM.Result.ok.inj ((orRecord_of_ok hrun).symm.trans h)
    exact ⟨b, rfl, rfl⟩
  | error failure after =>
    cases hrecord : after.collector.record? failure with
    | none =>
      rw [orRecord_of_error hrun hrecord] at h
      cases h
    | some collector =>
      rw [orRecord_of_recorded hrun hrecord] at h
      obtain ⟨-, rfl⟩ := EStateM.Result.ok.inj h
      exact absurd herrors (Collector.errors_ne_nil_of_record? hrecord)

/-- What a member of a dictionary is read as. -/
structure EntryFrom (kind : ScalarKind) (item : Plan) (place : Place) (m : Member String)
    (pair : DictKey × Value) : Prop where
  key : DictKey.ofText kind m.key = .ok pair.1
  value : (Decode.value item m.value (.entry m.key :: place)).Answers pair.2

theorem returns_entryFrom (kind : ScalarKind) (item : Plan) (place : Place) (m : Member String) :
    Returns (EntryFrom kind item place m) (entry kind item place m) := by
  refine Returns.locate ?_ _
  refine (returns_found _).bind_of_returns fun key hkey ↦ ?_
  refine (returns_answers _).bind_of_returns fun v hv ↦ ?_
  have hentry : EntryFrom kind item place m (key, v) := ⟨hkey, hv⟩
  exact returns_pure hentry

/-- Without an error, each member is read and put behind what is already there. -/
theorem exists_pairs_of_entries
    (hitem : ∀ w place, Keeps (·.collector.errors ≠ []) (item.read w place))
    {ms : List (Member String)} {done all : Entries DictKey Value} {state state' : DecodeState}
    (h : entries kind item place (ms.map .ok) done state = .ok all state')
    (herrors : state'.collector.errors = []) :
    ∃ pairs, List.Forall₂ (EntryFrom kind item place) ms pairs ∧
      all = pairs.foldl (fun entries pair ↦ Entries.put entries pair.1 pair.2) done := by
  induction ms generalizing done state with
  | nil =>
    obtain ⟨rfl, -⟩ := EStateM.Result.ok.inj h
    exact ⟨[], .nil, rfl⟩
  | cons m ms ih =>
    rw [List.map_cons, Decode.entries] at h
    obtain ⟨first, between, hfirst, hrest⟩ := Outcome.exists_of_run_bind h
    -- An error of this member would still be there at the end.
    have hbetween : between.collector.errors = [] := by
      by_contra hne
      have hkeeps := Keeps.entries DecodeState.isInvariant_errors_ne_nil hitem kind place
        (ms.map .ok)
      exact (hkeeps _).of_ok hne hrest herrors
    obtain ⟨pair, rfl, hentry⟩ := exists_of_orRecord hfirst hbetween
    obtain ⟨pairs, hpairs, rfl⟩ := ih hrest
    exact ⟨pair :: pairs, .cons (returns_entryFrom _ _ _ _ _ _ _ hentry) hpairs, rfl⟩

/-- Without an error, a dictionary is made of one pair for each of its members, in order. -/
theorem exists_pairs_of_read_dict {item : Node} {context : DecodeContext} {w : Window}
    {ms : List (Member String)} (hsplit : Container.dict.split w = .ok (ms.map .ok)) {v : Value}
    {state state' : DecodeState}
    (h : (Node.dict kind item).read context w place state = .ok v state')
    (herrors : state'.collector.errors = []) :
    ∃ pairs, v = .dict (Entries.ofList pairs) ∧
      List.Forall₂ (EntryFrom kind (item.plan context) place) ms pairs := by
  obtain ⟨members, between, hmembers, hrest⟩ := Outcome.exists_of_run_bind h
  obtain rfl := Except.ok.inj ((returns_members _ _ _ _ _ hmembers).symm.trans hsplit)
  obtain ⟨all, after, hentries, hpure⟩ := Outcome.exists_of_run_bind hrest
  obtain ⟨rfl, rfl⟩ := EStateM.Result.ok.inj hpure
  have hitem := Keeps.node DecodeState.isInvariant_errors_ne_nil context item
  obtain ⟨pairs, hpairs, rfl⟩ := exists_pairs_of_entries hitem hentries herrors
  exact ⟨pairs, rfl, hpairs⟩

end Decode

/-! ## Texts -/

theorem Grammar.keys_placed (offset : Nat) (entries : List Entry) :
    (placed Entry.bytes Entry.member offset entries).map (·.key) = entries.map (·.key) := by
  induction entries generalizing offset with
  | nil => rfl
  | cons e entries ih =>
    rw [placed, List.map_cons, List.map_cons, ih]
    rfl

/-- Blanks may stand in front of a dictionary, and anything behind it. -/
theorem Container.split_whole_entries {lead blanks : List UInt8} (hlead : Parsed.IsBlank lead)
    (hblanks : Parsed.IsBlank blanks) (entries : List Entry) (rest : List UInt8) :
    dict.split (Window.whole (lead ++ (dict.text (between blanks (entries.map Entry.bytes)) ++
      rest))) = .ok ((placed Entry.bytes Entry.member (lead.length + 1) entries).map .ok) := by
  rw [Window.whole, split_blanks_append hlead rfl, Nat.zero_add]
  exact split_entries hblanks entries lead.length rest

/-- Where a dictionary is decoded and no error is collected, it has been put together from one pair
for each entry of the text, in order. -/
theorem Node.exists_pairs_of_decode_dict {kind : ScalarKind} {item : Node} {registry : Registry}
    {config : Config} {shapes : GhostShapes} {lead blanks rest : List UInt8}
    (hlead : Parsed.IsBlank lead) (hblanks : Parsed.IsBlank blanks) {entries : List Entry}
    {decoded : Decoded}
    (h : ((Node.dict kind item).decode registry config shapes
      (lead ++ (Container.dict.text (between blanks (entries.map Entry.bytes)) ++ rest))).1 =
        .ok decoded)
    (herrors : decoded.errors = []) :
    ∃ pairs, decoded.value = .dict (Entries.ofList pairs) ∧
      List.Forall₂ (Decode.EntryFrom kind (item.plan ⟨registry, config⟩) [])
        (placed Entry.bytes Entry.member (lead.length + 1) entries) pairs := by
  have hsplit := Container.split_whole_entries hlead hblanks entries rest
  generalize lead ++ (Container.dict.text (between blanks (entries.map Entry.bytes)) ++ rest) = text
    at h hsplit
  cases hrun : Decode.value ((Node.dict kind item).plan ⟨registry, config⟩) (Window.whole text) []
      { collector := { isEnabled := config.collectErrors }, shapes } with
  | ok v state =>
    rw [Node.decode_of_ok hrun] at h
    obtain rfl := Except.ok.inj h
    exact Decode.exists_pairs_of_read_dict hsplit (Decode.locate_eq_ok_iff.mp hrun) herrors
  | error failure state =>
    rw [Node.decode_of_error hrun] at h
    cases h

end TypedJson
