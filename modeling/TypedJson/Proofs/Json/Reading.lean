import TypedJson.Proofs.Json.Parsed

/-!
# The strict reader and the grammar

The strict reader reads a text exactly if it is the text of a value, and answers that value.
-/

namespace TypedJson.Json

/-! ## Blanks -/

section

variable {blanks bytes : List UInt8} {b : UInt8}

theorem skipBlanks_append (h : Parsed.IsBlank blanks) :
    skipBlanks (blanks ++ bytes) = skipBlanks bytes := by
  induction blanks with
  | nil => rfl
  | cons b blanks ih =>
    rw [List.cons_append, skipBlanks, if_pos (h b List.mem_cons_self)]
    exact ih fun c hc ↦ h c (List.mem_cons_of_mem b hc)

theorem skipBlanks_cons (h : Text.isJsonBlank b = false) :
    skipBlanks (b :: bytes) = b :: bytes := by
  rw [skipBlanks, h, if_neg Bool.false_ne_true]

theorem skipBlanks_idem (bytes : List UInt8) :
    skipBlanks (skipBlanks bytes) = skipBlanks bytes := by
  induction bytes with
  | nil => rfl
  | cons b bytes ih =>
    by_cases hb : Text.isJsonBlank b = true
    · rw [skipBlanks, if_pos hb]
      exact ih
    · have hkeep : skipBlanks (b :: bytes) = b :: bytes :=
        skipBlanks_cons (Bool.eq_false_iff.mpr hb)
      rw [hkeep, hkeep]

theorem exists_blanks (bytes : List UInt8) :
    ∃ blanks, Parsed.IsBlank blanks ∧ bytes = blanks ++ skipBlanks bytes := by
  induction bytes with
  | nil => exact ⟨[], fun b hb ↦ absurd hb List.not_mem_nil, rfl⟩
  | cons b bytes ih =>
    by_cases hb : Text.isJsonBlank b = true
    · obtain ⟨blanks, hblanks, hbytes⟩ := ih
      refine ⟨b :: blanks, ?_, ?_⟩
      · rintro c (_ | ⟨_, hc⟩)
        · exact hb
        · exact hblanks c hc
      · rw [skipBlanks, if_pos hb, List.cons_append, ← hbytes]
    · refine ⟨[], fun c hc ↦ absurd hc List.not_mem_nil, ?_⟩
      rw [skipBlanks, if_neg hb, List.nil_append]

end

/-! ## Steps of the scan -/

section

variable {fuel : Nat} {input rest after : List UInt8}

theorem scanAt_string {decoded : Option (List UInt8)} (hinput : skipBlanks input = 0x22 :: rest)
    (hbody : scanString rest = some (decoded, after)) :
    Tree.scanAt (fuel + 1) input = (.string (bodyText? decoded), after) := by
  rw [Tree.scanAt, hinput]
  simp [hbody]

theorem scanAt_number {b : UInt8} {l : Decimal.Literal} (hinput : skipBlanks input = b :: rest)
    (hb : b = 0x2D ∨ 0x30 ≤ b ∧ b ≤ 0x39)
    (hscan : Decimal.Literal.scan (b :: rest) = some (l, after)) :
    Tree.scanAt (fuel + 1) input = (.number l.value?, after) := by
  have hne : ∀ c : UInt8, ¬ (c = 0x2D ∨ 0x30 ≤ c ∧ c ≤ 0x39) → b ≠ c := by
    rintro c hc rfl
    exact hc hb
  rw [Tree.scanAt, hinput]
  simp [hne 0x22 (by decide), hne 0x5B (by decide), hne 0x7B (by decide), hne 0x6E (by decide),
    hne 0x74 (by decide), hne 0x66 (by decide), hb, scanNumber, hscan]

theorem scanAt_emptyList (hinput : skipBlanks input = 0x5B :: rest)
    (hrest : skipBlanks rest = 0x5D :: after) :
    Tree.scanAt (fuel + 1) input = (.list [] true, after) := by
  rw [Tree.scanAt, hinput]
  simp [hrest]

theorem scanAt_list {items : List Tree} {closed : Bool} (hinput : skipBlanks input = 0x5B :: rest)
    (hne : ∀ tail, skipBlanks rest ≠ 0x5D :: tail)
    (hitems : Tree.scanItems fuel (skipBlanks rest) = (items, closed, after)) :
    Tree.scanAt (fuel + 1) input = (.list items closed, after) := by
  rw [Tree.scanAt, hinput]
  simp [hitems]

theorem scanAt_emptyDict (hinput : skipBlanks input = 0x7B :: rest)
    (hrest : skipBlanks rest = 0x7D :: after) :
    Tree.scanAt (fuel + 1) input = (.dict [] true, after) := by
  rw [Tree.scanAt, hinput]
  simp [hrest]

theorem scanAt_dict {entries : List (Option String × Tree)} {closed : Bool}
    (hinput : skipBlanks input = 0x7B :: rest) (hne : ∀ tail, skipBlanks rest ≠ 0x7D :: tail)
    (hentries : Tree.scanEntries fuel (skipBlanks rest) = (entries, closed, after)) :
    Tree.scanAt (fuel + 1) input = (.dict entries closed, after) := by
  rw [Tree.scanAt, hinput]
  simp [hentries]

variable {next last : List UInt8}

theorem scanItems_last {b : UInt8} {item : Tree} (hinput : skipBlanks input = b :: rest)
    (hb : b ≠ 0x5D) (hitem : Tree.scanAt fuel (b :: rest) = (item, after))
    (hopen : item.isOpen = false) (hafter : skipBlanks after = 0x5D :: last) :
    Tree.scanItems (fuel + 1) input = ([item], true, last) := by
  rw [Tree.scanItems, hinput]
  simp [hitem, hopen, hb, hafter]

theorem scanItems_more {b : UInt8} {item : Tree} {items : List Tree} {closed : Bool}
    (hinput : skipBlanks input = b :: rest) (hb : b ≠ 0x5D)
    (hitem : Tree.scanAt fuel (b :: rest) = (item, after)) (hopen : item.isOpen = false)
    (hafter : skipBlanks after = 0x2C :: next)
    (hitems : Tree.scanItems fuel next = (items, closed, last)) :
    Tree.scanItems (fuel + 1) input = (item :: items, closed, last) := by
  rw [Tree.scanItems, hinput]
  simp [hitem, hopen, hb, hafter, hitems]

variable {decoded : Option (List UInt8)} {value : Tree} {afterKey colon : List UInt8}

theorem scanEntries_last (hinput : skipBlanks input = 0x22 :: rest)
    (hkey : scanString rest = some (decoded, afterKey))
    (hcolon : skipBlanks afterKey = 0x3A :: colon)
    (hvalue : Tree.scanAt fuel colon = (value, after)) (hopen : value.isOpen = false)
    (hafter : skipBlanks after = 0x7D :: last) :
    Tree.scanEntries (fuel + 1) input = ([(bodyText? decoded, value)], true, last) := by
  rw [Tree.scanEntries, hinput]
  simp [hkey, hcolon, hvalue, hopen, hafter]

theorem scanEntries_more {entries : List (Option String × Tree)} {closed : Bool}
    (hinput : skipBlanks input = 0x22 :: rest)
    (hkey : scanString rest = some (decoded, afterKey))
    (hcolon : skipBlanks afterKey = 0x3A :: colon)
    (hvalue : Tree.scanAt fuel colon = (value, after)) (hopen : value.isOpen = false)
    (hafter : skipBlanks after = 0x2C :: next)
    (hentries : Tree.scanEntries fuel next = (entries, closed, last)) :
    Tree.scanEntries (fuel + 1) input = ((bodyText? decoded, value) :: entries, closed, last) := by
  rw [Tree.scanEntries, hinput]
  simp [hkey, hcolon, hvalue, hopen, hafter, hentries]

end

end TypedJson.Json

namespace TypedJson.Parsed

open Json (skipBlanks skipBlanks_append skipBlanks_cons)

/-! ## Texts are read -/

/-- A scanned value is the value of the text. -/
structure Scanned (tree : Parsed) (t : Json.Tree) : Prop where
  isOpen : t.isOpen = false
  toJson : ∀ depth, tree.height ≤ depth → t.toJson? depth = some tree.json

theorem endsLiteral_blanks_append {blanks rest : List UInt8} (hblanks : IsBlank blanks)
    (hrest : Decimal.EndsLiteral rest) : Decimal.EndsLiteral (blanks ++ rest) := by
  cases blanks with
  | nil => exact hrest
  | cons b blanks =>
    rintro b ⟨⟩
    have hb := hblanks b List.mem_cons_self
    simp only [Text.isJsonBlank, Bool.or_eq_true, beq_iff_eq] at hb
    obtain ((rfl | rfl) | rfl) | rfl := hb <;> decide

theorem endsLiteral_cons (b : UInt8) (rest : List UInt8)
    (hb : Decimal.digit? b = none ∧ b ≠ 0x2E ∧ b ≠ 0x65 ∧ b ≠ 0x45) :
    Decimal.EndsLiteral (b :: rest) := by
  rintro c ⟨⟩
  exact hb

theorem Fills.skipBlanks {tree : Parsed} {offset : Nat} {bytes : List UInt8}
    (h : Fills tree offset bytes) (rest : List UInt8) :
    ∃ tail, Json.skipBlanks (bytes ++ rest) = tree.firstByte :: tail ∧
      tree.firstByte ≠ Byte.closeList := by
  obtain ⟨-, hbefore, h, -⟩ := h
  obtain ⟨tail, rfl⟩ := h.head
  rw [List.append_assoc, skipBlanks_append hbefore, List.cons_append, List.cons_append,
    skipBlanks_cons h.startsValue.1]
  refine ⟨_, rfl, fun hfirst ↦ ?_⟩
  exact absurd h.startsValue.2 (by rw [hfirst]; decide)

theorem ItemsStand.skipBlanks {items : List Parsed} {offset : Nat} {bytes : List UInt8}
    (h : ItemsStand items offset bytes) (rest : List UInt8) :
    ∃ b tail, Json.skipBlanks (bytes ++ rest) = b :: tail ∧ b ≠ Byte.closeList := by
  cases h with
  | one h =>
    obtain ⟨tail, htail, hne⟩ := h.skipBlanks rest
    exact ⟨_, tail, htail, hne⟩
  | more h _ =>
    rw [List.append_assoc]
    obtain ⟨tail, htail, hne⟩ := h.skipBlanks _
    exact ⟨_, tail, htail, hne⟩

theorem EntryFills.skipBlanks {key : String} {value : Parsed} {offset : Nat} {bytes : List UInt8}
    (h : EntryFills key value offset bytes) (rest : List UInt8) :
    ∃ tail, Json.skipBlanks (bytes ++ rest) = Byte.quote :: tail := by
  obtain ⟨hbefore, _, _, _, _⟩ := h
  rw [List.append_assoc, skipBlanks_append hbefore, List.cons_append, skipBlanks_cons rfl]
  exact ⟨_, rfl⟩

theorem EntriesStand.skipBlanks {entries : List (String × Parsed)} {offset : Nat}
    {bytes : List UInt8} (h : EntriesStand entries offset bytes) (rest : List UInt8) :
    ∃ tail, Json.skipBlanks (bytes ++ rest) = Byte.quote :: tail := by
  cases h with
  | one h => exact h.skipBlanks rest
  | more h _ =>
    rw [List.append_assoc]
    exact h.skipBlanks _

theorem IsScalar.scanAt {literal : List UInt8} {value : Json} (h : IsScalar literal value)
    {fuel offset : Nat} {input rest : List UInt8} (hinput : Json.skipBlanks input = literal ++ rest)
    (hrest : Decimal.EndsLiteral rest) :
    ∃ t, Json.Tree.scanAt (fuel + 1) input = (t, rest) ∧
      Scanned (.scalar offset literal value) t := by
  cases h with
  | null =>
    refine ⟨.null, ?_, rfl, fun _ _ ↦ rfl⟩
    rw [Json.Tree.scanAt, hinput]
    simp [Json.scanWord, Json.afterWord?]
  | true =>
    refine ⟨.bool Bool.true, ?_, rfl, fun _ _ ↦ rfl⟩
    rw [Json.Tree.scanAt, hinput]
    simp [Json.scanWord, Json.afterWord?]
  | false =>
    refine ⟨.bool Bool.false, ?_, rfl, fun _ _ ↦ rfl⟩
    rw [Json.Tree.scanAt, hinput]
    simp [Json.scanWord, Json.afterWord?]
  | @string body decoded s hbody htext =>
    refine ⟨.string (some s), ?_, rfl, fun depth _ ↦ rfl⟩
    rw [Json.scanAt_string hinput (hbody.scanString_append rest)]
    simp [Json.bodyText?, htext]
  | @number literal l n hliteral hvalue =>
    refine ⟨.number (some n), ?_, rfl, fun _ _ ↦ rfl⟩
    have hscan := hliteral.scan_append hrest
    obtain ⟨b, tail, rfl, hb⟩ := hliteral.head
    rw [Json.scanAt_number hinput hb hscan, hvalue]

mutual

theorem Stands.scanAt {tree : Parsed} {bytes : List UInt8} (h : Stands tree bytes) {fuel : Nat}
    {input rest : List UInt8} (hfuel : bytes.length ≤ fuel)
    (hinput : Json.skipBlanks input = bytes ++ rest) (hrest : Decimal.EndsLiteral rest) :
    ∃ t, Json.Tree.scanAt fuel input = (t, rest) ∧ tree.Scanned t := by
  obtain ⟨fuel, rfl⟩ : ∃ n, fuel = n + 1 := by
    obtain ⟨tail, rfl⟩ := h.head
    exact ⟨fuel - 1, by rw [List.length_cons] at hfuel; omega⟩
  match h with
  | .scalar h => exact h.scanAt hinput hrest
  | .emptyList h =>
    rw [List.cons_append, List.append_assoc] at hinput
    refine ⟨.list [] true, Json.scanAt_emptyList hinput ?_, rfl, ?_⟩
    · rw [skipBlanks_append h]
      exact skipBlanks_cons rfl
    · rintro (_ | depth) hdepth
      · exact absurd hdepth (Nat.not_succ_le_zero _)
      · rfl
  | @Stands.list _ _ bytes h =>
    rw [List.cons_append, List.append_assoc] at hinput
    have hlength : bytes.length < fuel := by
      rw [List.length_cons, List.length_append, List.length_singleton] at hfuel
      omega
    obtain ⟨ts, hts, hvalues⟩ := h.scanItems hlength
      (Json.skipBlanks_idem (bytes ++ ([Byte.closeList] ++ rest)))
    obtain ⟨b, tail, hb, hne⟩ := h.skipBlanks ([Byte.closeList] ++ rest)
    refine ⟨.list ts true, Json.scanAt_list hinput ?_ hts, rfl, ?_⟩
    · intro after hafter
      rw [hb] at hafter
      exact hne (List.cons.inj hafter).1
    · rintro (_ | depth) hdepth
      · exact absurd hdepth (Nat.not_succ_le_zero _)
      · rw [Json.Tree.toJson?, if_pos rfl, hvalues depth (Nat.le_of_succ_le_succ hdepth)]
        rfl
  | .emptyDict h =>
    rw [List.cons_append, List.append_assoc] at hinput
    refine ⟨.dict [] true, Json.scanAt_emptyDict hinput ?_, rfl, ?_⟩
    · rw [skipBlanks_append h]
      exact skipBlanks_cons rfl
    · rintro (_ | depth) hdepth
      · exact absurd hdepth (Nat.not_succ_le_zero _)
      · rfl
  | @Stands.dict _ _ bytes h =>
    rw [List.cons_append, List.append_assoc] at hinput
    have hlength : bytes.length < fuel := by
      rw [List.length_cons, List.length_append, List.length_singleton] at hfuel
      omega
    obtain ⟨ts, hts, hvalues⟩ := h.scanEntries hlength
      (Json.skipBlanks_idem (bytes ++ ([Byte.closeDict] ++ rest)))
    obtain ⟨tail, htail⟩ := h.skipBlanks ([Byte.closeDict] ++ rest)
    refine ⟨.dict ts true, Json.scanAt_dict hinput ?_ hts, rfl, ?_⟩
    · intro after hafter
      rw [htail] at hafter
      exact absurd (List.cons.inj hafter).1 (by decide)
    · rintro (_ | depth) hdepth
      · exact absurd hdepth (Nat.not_succ_le_zero _)
      · rw [Json.Tree.toJson?, if_pos rfl, hvalues depth [] (Nat.le_of_succ_le_succ hdepth)]
        rfl

theorem Fills.scanAt {tree : Parsed} {offset : Nat} {bytes : List UInt8}
    (h : Fills tree offset bytes) {fuel : Nat} {input rest : List UInt8}
    (hfuel : bytes.length ≤ fuel)
    (hinput : Json.skipBlanks input = Json.skipBlanks (bytes ++ rest))
    (hrest : Decimal.EndsLiteral rest) :
    ∃ t after, Json.Tree.scanAt fuel input = (t, after) ∧
      Json.skipBlanks after = Json.skipBlanks rest ∧ tree.Scanned t := by
  match h with
  | @Fills.mk _ _ _ bytes after _ hbefore h hafter =>
    have hlength : bytes.length ≤ fuel := by
      simp only [List.length_append] at hfuel
      omega
    have hstart : Json.skipBlanks input = bytes ++ (after ++ rest) := by
      rw [hinput, List.append_assoc, skipBlanks_append hbefore, List.append_assoc]
      obtain ⟨tail, htail⟩ := h.head
      rw [htail, List.cons_append, skipBlanks_cons h.startsValue.1]
    obtain ⟨t, ht, hscanned⟩ :=
      h.scanAt hlength hstart (endsLiteral_blanks_append hafter hrest)
    exact ⟨t, _, ht, skipBlanks_append hafter, hscanned⟩

theorem ItemsStand.scanItems {items : List Parsed} {offset : Nat} {bytes : List UInt8}
    (h : ItemsStand items offset bytes) {fuel : Nat} {input rest : List UInt8}
    (hfuel : bytes.length < fuel)
    (hinput : Json.skipBlanks input = Json.skipBlanks (bytes ++ Byte.closeList :: rest)) :
    ∃ ts, Json.Tree.scanItems fuel input = (ts, true, rest) ∧
      ∀ depth, heightItems items ≤ depth →
        Json.Tree.itemsToJson? depth ts = some (jsonItems items) := by
  obtain ⟨fuel, rfl⟩ : ∃ n, fuel = n + 1 := ⟨fuel - 1, by omega⟩
  match h with
  | @ItemsStand.one item _ bytes h =>
    obtain ⟨tail, htail, hne⟩ := h.skipBlanks (Byte.closeList :: rest)
    obtain ⟨t, after, ht, hafter, hscanned⟩ := h.scanAt (Nat.le_of_lt_succ hfuel)
      (Json.skipBlanks_idem _) (endsLiteral_cons Byte.closeList rest (by decide))
    rw [htail] at hinput ht
    refine ⟨[t], Json.scanItems_last hinput hne ht hscanned.isOpen
      (hafter.trans (skipBlanks_cons rfl)), fun depth hdepth ↦ ?_⟩
    have hvalue := hscanned.toJson depth (Nat.le_trans (Nat.le_max_left _ _) hdepth)
    simp [Json.Tree.itemsToJson?, hvalue, jsonItems]
  | @ItemsStand.more item items _ bytes others h hitems =>
    rw [List.length_append, List.length_cons] at hfuel
    rw [List.append_assoc, List.cons_append] at hinput
    obtain ⟨tail, htail, hne⟩ := h.skipBlanks (Byte.comma :: (others ++ Byte.closeList :: rest))
    have hlength : bytes.length ≤ fuel ∧ others.length < fuel := by omega
    obtain ⟨t, after, ht, hafter, hscanned⟩ := h.scanAt hlength.1 (Json.skipBlanks_idem _)
      (endsLiteral_cons Byte.comma _ (by decide))
    obtain ⟨ts, hts, hvalues⟩ := hitems.scanItems hlength.2 rfl
    rw [htail] at hinput ht
    refine ⟨t :: ts, Json.scanItems_more hinput hne ht hscanned.isOpen
      (hafter.trans (skipBlanks_cons rfl)) hts, fun depth hdepth ↦ ?_⟩
    have hvalue := hscanned.toJson depth (Nat.le_trans (Nat.le_max_left _ _) hdepth)
    have hrest := hvalues depth (Nat.le_trans (Nat.le_max_right _ _) hdepth)
    simp [Json.Tree.itemsToJson?, hvalue, hrest, jsonItems]

theorem EntryFills.scanAt {key : String} {value : Parsed} {offset : Nat} {bytes : List UInt8}
    (h : EntryFills key value offset bytes) {fuel : Nat} {input rest : List UInt8}
    (hfuel : bytes.length ≤ fuel)
    (hinput : Json.skipBlanks input = Json.skipBlanks (bytes ++ rest))
    (hrest : Decimal.EndsLiteral rest) :
    ∃ decoded body afterKey colon t after, Json.skipBlanks input = Byte.quote :: body ∧
      Json.scanString body = some (decoded, afterKey) ∧ Json.bodyText? decoded = some key ∧
      Json.skipBlanks afterKey = Byte.colon :: colon ∧ Json.Tree.scanAt fuel colon = (t, after) ∧
      Json.skipBlanks after = Json.skipBlanks rest ∧ value.Scanned t := by
  match h with
  | @EntryFills.mk _ _ _ before body decoded between bytes hbefore hbody hkey hbetween h =>
    have hlength : bytes.length ≤ fuel := by
      simp only [List.length_append, List.length_cons] at hfuel
      omega
    obtain ⟨t, after, ht, hafter, hscanned⟩ := h.scanAt hlength rfl hrest
    have hafterKey : Json.skipBlanks (between ++ Byte.colon :: (bytes ++ rest)) =
        Byte.colon :: (bytes ++ rest) := by
      rw [skipBlanks_append hbetween]
      exact skipBlanks_cons rfl
    refine ⟨some decoded, body ++ (between ++ Byte.colon :: (bytes ++ rest)), _, _, t, after, ?_,
      hbody.scanString_append _, hkey, hafterKey, ht, hafter, hscanned⟩
    rw [hinput, List.append_assoc, skipBlanks_append hbefore, List.cons_append,
      skipBlanks_cons rfl, List.append_assoc, List.append_assoc, List.cons_append]

theorem EntriesStand.scanEntries {entries : List (String × Parsed)} {offset : Nat}
    {bytes : List UInt8} (h : EntriesStand entries offset bytes) {fuel : Nat}
    {input rest : List UInt8} (hfuel : bytes.length < fuel)
    (hinput : Json.skipBlanks input = Json.skipBlanks (bytes ++ Byte.closeDict :: rest)) :
    ∃ ts, Json.Tree.scanEntries fuel input = (ts, true, rest) ∧
      ∀ depth done, heightEntries entries ≤ depth →
        Json.Tree.entriesToJson? depth ts done = some (jsonEntries entries done) := by
  obtain ⟨fuel, rfl⟩ : ∃ n, fuel = n + 1 := ⟨fuel - 1, by omega⟩
  match h with
  | @EntriesStand.one key value _ bytes h =>
    obtain ⟨decoded, body, afterKey, colon, t, after, hbody, hscan, hkey, hcolon, ht, hafter,
      hscanned⟩ := h.scanAt (Nat.le_of_lt_succ hfuel) hinput
        (endsLiteral_cons Byte.closeDict rest (by decide))
    refine ⟨_, Json.scanEntries_last hbody hscan hcolon ht hscanned.isOpen
      (hafter.trans (skipBlanks_cons rfl)), fun depth done hdepth ↦ ?_⟩
    have hvalue := hscanned.toJson depth (Nat.le_trans (Nat.le_max_left _ _) hdepth)
    simp [Json.Tree.entriesToJson?, hkey, hvalue, jsonEntries]
  | @EntriesStand.more key value entries _ bytes others h hentries =>
    rw [List.length_append, List.length_cons] at hfuel
    rw [List.append_assoc, List.cons_append] at hinput
    have hlength : bytes.length ≤ fuel ∧ others.length < fuel := by omega
    obtain ⟨decoded, body, afterKey, colon, t, after, hbody, hscan, hkey, hcolon, ht, hafter,
      hscanned⟩ := h.scanAt hlength.1 hinput (endsLiteral_cons Byte.comma _ (by decide))
    obtain ⟨ts, hts, hvalues⟩ := hentries.scanEntries hlength.2 rfl
    refine ⟨_, Json.scanEntries_more hbody hscan hcolon ht hscanned.isOpen
      (hafter.trans (skipBlanks_cons rfl)) hts, fun depth done hdepth ↦ ?_⟩
    have hvalue := hscanned.toJson depth (Nat.le_trans (Nat.le_max_left _ _) hdepth)
    have hrest := fun done ↦ hvalues depth done (Nat.le_trans (Nat.le_max_right _ _) hdepth)
    simp [Json.Tree.entriesToJson?, hkey, hvalue, hrest, jsonEntries]

end

theorem Fills.readWithin? {tree : Parsed} {offset depth : Nat} {bytes : List UInt8}
    (h : Fills tree offset bytes) (hdepth : tree.height ≤ depth) :
    Json.readWithin? depth bytes = some tree.json := by
  have hlength : bytes.length ≤ 2 * bytes.length + 2 := by omega
  have hend : Decimal.EndsLiteral [] := fun b hb ↦ nomatch hb
  obtain ⟨t, after, ht, hafter, hscanned⟩ := h.scanAt hlength (by rw [List.append_nil]) hend
  rw [Json.readWithin?, Json.Tree.scan, ht]
  simp only [hafter, Json.skipBlanks, List.isEmpty_nil, if_true]
  exact hscanned.toJson depth hdepth

end TypedJson.Parsed
