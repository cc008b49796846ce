import TypedJson.Proofs.Codec.Keys
import TypedJson.Proofs.Decode.Keys

/-!
# Keys on the way in and out

A dictionary keeps all its entries, and the text of each key, as long as the keys of the text are
plain. All strings are. An integer that is written in another way than the encoder's is read
nevertheless, and its key is written anew; and if the same integer stands in the text twice, in two
ways, the earlier value is gone without an error.
-/

namespace TypedJson

open Grammar

/-- **Keys of dictionaries.** If a dictionary with distinct keys in its text is decoded and no error
is collected, it is made of one pair for each entry of the text, in order, and has lost an entry
exactly if two of the pairs have the same key. Its keys are those of the text, and stay so when it
is encoded, exactly if the keys of the text are plain. -/
theorem Node.decode_dict_keys {kind : ScalarKind} {item : Node} {registry : Registry}
    {config : Config} {shapes : GhostShapes} {lead blanks rest : List UInt8}
    (hlead : Parsed.IsBlank lead) (hblanks : Parsed.IsBlank blanks) {entries : List Entry}
    (hdistinct : (entries.map (·.key)).Nodup) {decoded : Decoded}
    (h : ((Node.dict kind item).decode registry config shapes
      (lead ++ (Container.dict.text (between blanks (entries.map Entry.bytes)) ++ rest))).1 =
        .ok decoded)
    (herrors : decoded.errors = []) :
    ∃ pairs : List (DictKey × Value), decoded.value = .dict (Entries.ofList pairs) ∧
      List.Forall₂ (Decode.EntryFrom kind (item.plan ⟨registry, config⟩) [])
        (placed Entry.bytes Entry.member (lead.length + 1) entries) pairs ∧
      ((Entries.ofList pairs).length = entries.length ↔ (pairs.map (·.1)).Nodup) ∧
      ((Entries.ofList pairs).map (·.1.text) = entries.map (·.key) ↔
        ∀ e ∈ entries, kind.IsPlainKey e.key) ∧
      ∀ (kind' : ScalarKind) (item' : Node) (registry' : Registry) (config' : Config)
        (text : String),
        (TypedJson.compile (.dict kind' item') config'.jsonFlags).encode registry' config'
          decoded.value = .ok text →
        ∃ written : List Entry,
          Utf8.encode text = Container.dict.text (between [] (written.map Entry.bytes)) ∧
          (written.map (·.key) = entries.map (·.key) ↔ ∀ e ∈ entries, kind.IsPlainKey e.key) := by
  obtain ⟨pairs, hvalue, hpairs⟩ := exists_pairs_of_decode_dict hlead hblanks h herrors
  have hkeys : List.Forall₂ (fun text key ↦ DictKey.ofText kind text = .ok key)
      (entries.map (·.key)) (pairs.map (·.1)) := by
    rw [← keys_placed (lead.length + 1), List.forall₂_map_left_iff, List.forall₂_map_right_iff]
    exact hpairs.imp fun _ _ hentry ↦ hentry.key
  have hlength : entries.length = pairs.length := by
    simpa only [List.length_map] using hkeys.length_eq
  have hplain := Entries.map_text_ofList_eq_iff hdistinct hkeys
  rw [List.forall_mem_map] at hplain
  refine ⟨pairs, hvalue, hpairs, ?_, hplain, ?_⟩
  · rw [hlength]
    exact Entries.length_ofList_eq_iff pairs
  · intro kind' item' registry' config' text hencode
    rw [hvalue] at hencode
    obtain ⟨written, hwritten, htext⟩ := exists_entries_of_encode hencode
    refine ⟨written, htext, ?_⟩
    rw [hwritten]
    exact hplain

/-- The entry `"1":true`. -/
def plainEntry : Entry where
  before := []
  body := [0x31, 0x22]
  key := "1"
  between := []
  value := ⟨[], _, [], Parsed.isBlank_nil, .true, Parsed.isBlank_nil⟩
  isBlank_before := Parsed.isBlank_nil
  spells := @Spells.character '1' _ _ (by decide) (by decide) (by decide) .close
  isBlank_between := Parsed.isBlank_nil

/-- The entry `"01":false`. -/
def paddedEntry : Entry where
  before := []
  body := [0x30, 0x31, 0x22]
  key := "01"
  between := []
  value := ⟨[], _, [], Parsed.isBlank_nil, .false, Parsed.isBlank_nil⟩
  isBlank_before := Parsed.isBlank_nil
  spells := @Spells.character '0' _ _ (by decide) (by decide) (by decide)
    (@Spells.character '1' _ _ (by decide) (by decide) (by decide) .close)
  isBlank_between := Parsed.isBlank_nil

/-- The text of both: `{"1":true,"01":false}`. -/
def paddedText : List UInt8 :=
  [0x7B, 0x22, 0x31, 0x22, 0x3A, 0x74, 0x72, 0x75, 0x65, 0x2C,
    0x22, 0x30, 0x31, 0x22, 0x3A, 0x66, 0x61, 0x6C, 0x73, 0x65, 0x7D]

/-- As a dictionary with integers for keys, the text has one entry, since `01` is not plain, and
`{"1":false}` is written. -/
theorem Node.decode_dict_keys_padded :
    (((Node.dict .int (.scalar .bool)).decode {} {} [] paddedText).1.map fun decoded ↦
        (decoded.value, decoded.errors)) = .ok (.dict [(.int 1, .bool false)], []) ∧
      (¬ ∀ e ∈ [plainEntry, paddedEntry], ScalarKind.int.IsPlainKey e.key) ∧
      ∃ written : List Entry, written.map (·.key) ≠ ["1", "01"] ∧
        Utf8.encode "\x7b\"1\":false\x7d" =
          Container.dict.text (between [] (written.map Entry.bytes)) := by
  have hrun : (((Node.dict .int (.scalar .bool)).decode {} {} [] paddedText).1.map fun decoded ↦
      (decoded.value, decoded.errors)) = .ok (.dict [(.int 1, .bool false)], []) := by
    with_unfolding_all rfl
  refine ⟨hrun, ?_⟩
  have htext : paddedText = [] ++ (Container.dict.text
      (between [] ([plainEntry, paddedEntry].map Entry.bytes)) ++ []) := rfl
  rw [htext] at hrun
  obtain ⟨decoded, hdecode, hdecoded⟩ := Outcome.map_eq_ok.mp hrun
  obtain ⟨hvalue, herrors⟩ := Prod.mk.inj hdecoded
  obtain ⟨pairs, hpairs, -, -, hplain, hwrites⟩ :=
    Node.decode_dict_keys Parsed.isBlank_nil Parsed.isBlank_nil (by decide) hdecode herrors
  -- There are two keys in the text, and one is left.
  have hnot : ¬ ∀ e ∈ [plainEntry, paddedEntry], ScalarKind.int.IsPlainKey e.key := by
    rw [← hplain, ← Value.dict.inj (hvalue.symm.trans hpairs)]
    exact fun hkeys ↦ absurd (congrArg List.length hkeys) (by decide)
  obtain ⟨written, hwritten, hkeys⟩ := hwrites .int (.scalar .bool) {} {} "\x7b\"1\":false\x7d"
    (by rw [hvalue]; rfl)
  exact ⟨hnot, written, fun heq ↦ hnot (hkeys.mp heq), hwritten⟩

end TypedJson
