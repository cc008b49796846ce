import TypedJson.Proofs.Json.Reading

/-!
# Every text that is read is in the grammar

What the strict reader answers is the value of a `Parsed` value whose text was read.
-/

namespace TypedJson.Parsed

open Json (exists_blanks)

theorem IsBlank.append {blanks bytes : List UInt8} (hblanks : IsBlank blanks)
    (hbytes : IsBlank bytes) : IsBlank (blanks ++ bytes) := by
  intro b hb
  obtain hb | hb := List.mem_append.mp hb
  · exact hblanks b hb
  · exact hbytes b hb

theorem Fills.blanks_append {tree : Parsed} {offset : Nat} {blanks bytes : List UInt8}
    (hblanks : IsBlank blanks) (h : Fills tree (offset + blanks.length) bytes) :
    Fills tree offset (blanks ++ bytes) := by
  obtain ⟨hoffset, hbefore, h, hafter⟩ := h
  rw [← List.append_assoc]
  refine .mk ?_ (hblanks.append hbefore) h hafter
  rw [hoffset, List.length_append, Nat.add_assoc]

theorem ItemsStand.blanks_append {items : List Parsed} {offset : Nat} {blanks bytes : List UInt8}
    (hblanks : IsBlank blanks) (h : ItemsStand items (offset + blanks.length) bytes) :
    ItemsStand items offset (blanks ++ bytes) := by
  cases h with
  | one h => exact .one (h.blanks_append hblanks)
  | more h hitems =>
    rw [← List.append_assoc]
    refine .more (h.blanks_append hblanks) ?_
    rw [List.length_append, ← Nat.add_assoc]
    exact hitems

theorem EntryFills.blanks_append {key : String} {value : Parsed} {offset : Nat}
    {blanks bytes : List UInt8} (hblanks : IsBlank blanks)
    (h : EntryFills key value (offset + blanks.length) bytes) :
    EntryFills key value offset (blanks ++ bytes) := by
  obtain ⟨hbefore, hbody, hkey, hbetween, h⟩ := h
  rw [← List.append_assoc]
  refine .mk (hblanks.append hbefore) hbody hkey hbetween ?_
  rw [List.length_append, ← Nat.add_assoc]
  exact h

theorem EntriesStand.blanks_append {entries : List (String × Parsed)} {offset : Nat}
    {blanks bytes : List UInt8} (hblanks : IsBlank blanks)
    (h : EntriesStand entries (offset + blanks.length) bytes) :
    EntriesStand entries offset (blanks ++ bytes) := by
  cases h with
  | one h => exact .one (h.blanks_append hblanks)
  | more h hentries =>
    rw [← List.append_assoc]
    refine .more (h.blanks_append hblanks) ?_
    rw [List.length_append, ← Nat.add_assoc]
    exact hentries

/-! ## Scalars -/

/-- A value that starts at an offset, stands for some JSON and has at most some height. -/
structure Denotes (tree : Parsed) (offset depth : Nat) (value : Json) (text : List UInt8) :
    Prop where
  offset : tree.offset = offset
  stands : tree.Stands text
  height : tree.height ≤ depth
  json : tree.json = value

theorem IsScalar.denotes {literal : List UInt8} {value : Json} (h : IsScalar literal value)
    (offset depth : Nat) : Denotes (.scalar offset literal value) offset depth value literal :=
  ⟨rfl, .scalar h, Nat.zero_le _, rfl⟩

theorem eq_of_afterWord? {word bytes rest : List UInt8}
    (h : Json.afterWord? word bytes = some rest) : bytes = word ++ rest := by
  fun_induction Json.afterWord? word bytes with
  | case1 => exact Option.some.inj h
  | case2 w word bytes ih => rw [ih h, List.cons_append]
  | case3 | case4 => cases h

theorem eq_of_scanWord {word bytes rest : List UInt8} {t t' : Json.Tree} {depth : Nat}
    {value : Json} (h : Json.scanWord word bytes t = (t', rest))
    (hvalue : t'.toJson? depth = some value) : bytes = word ++ rest ∧ t' = t := by
  unfold Json.scanWord at h
  split at h
  · next hafter =>
    obtain ⟨rfl, rfl⟩ := Prod.mk.inj h
    exact ⟨eq_of_afterWord? hafter, rfl⟩
  · obtain ⟨rfl, rfl⟩ := Prod.mk.inj h
    cases hvalue

theorem exists_string {bytes rest : List UInt8} {decoded : Option (List UInt8)} {value : Json}
    (h : Json.scanString bytes = some (decoded, rest))
    (hvalue : (Json.bodyText? decoded).map Json.string = some value) :
    ∃ literal, Byte.quote :: bytes = literal ++ rest ∧ IsScalar literal value := by
  obtain ⟨s, hs, rfl⟩ := Option.map_eq_some_iff.mp hvalue
  obtain ⟨text, rfl, htext⟩ := Option.bind_eq_some_iff.mp hs
  obtain ⟨body, rfl, hbody⟩ := Json.isBody_of_scanString h
  exact ⟨Byte.quote :: body, rfl, .string hbody htext⟩

theorem exists_number {bytes rest : List UInt8} {t : Json.Tree} {depth : Nat} {value : Json}
    (h : Json.scanNumber bytes = (t, rest)) (hvalue : t.toJson? depth = some value) :
    ∃ literal, bytes = literal ++ rest ∧ IsScalar literal value := by
  unfold Json.scanNumber at h
  split at h
  · next l after hscan =>
    obtain ⟨rfl, rfl⟩ := Prod.mk.inj h
    obtain ⟨n, hn, rfl⟩ := Option.map_eq_some_iff.mp hvalue
    obtain ⟨literal, rfl, hliteral⟩ := Decimal.isLiteral_of_scan hscan
    exact ⟨literal, rfl, .number hliteral hn⟩
  · obtain ⟨rfl, rfl⟩ := Prod.mk.inj h
    cases hvalue

/-! ## Containers -/

/-- What is scanned with some fuel and reads as JSON is in the grammar. -/
structure Covers (fuel : Nat) : Prop where
  value : ∀ {bytes rest : List UInt8} {t : Json.Tree} {depth : Nat} {value : Json},
    Json.Tree.scanAt fuel bytes = (t, rest) → t.toJson? depth = some value → ∀ offset : Nat,
      ∃ tree text before, bytes = before ++ (text ++ rest) ∧ IsBlank before ∧
        Denotes tree (offset + before.length) depth value text
  items : ∀ {bytes rest : List UInt8} {ts : List Json.Tree} {depth : Nat} {values : List Json},
    Json.Tree.scanItems fuel bytes = (ts, true, rest) →
      Json.Tree.itemsToJson? depth ts = some values → ∀ offset : Nat,
        ∃ items text, bytes = text ++ Byte.closeList :: rest ∧ ItemsStand items offset text ∧
          heightItems items ≤ depth ∧ jsonItems items = values
  entries : ∀ {bytes rest : List UInt8} {ts : List (Option String × Json.Tree)} {depth : Nat}
    {done values : Entries String Json}, Json.Tree.scanEntries fuel bytes = (ts, true, rest) →
      Json.Tree.entriesToJson? depth ts done = some values → ∀ offset : Nat,
        ∃ entries text, bytes = text ++ Byte.closeDict :: rest ∧
          EntriesStand entries offset text ∧ heightEntries entries ≤ depth ∧
          jsonEntries entries done = values

section

variable {fuel : Nat} {bytes rest : List UInt8} {t : Json.Tree} {depth : Nat} {value : Json}

theorem Covers.list (hfuel : Covers fuel)
    (h : (match Json.skipBlanks bytes with
      | 0x5D :: after => (.list [] true, after)
      | rest =>
        let (items, closed, rest) := Json.Tree.scanItems fuel rest
        (.list items closed, rest)) = (t, rest))
    (hvalue : t.toJson? depth = some value) (start : Nat) :
    ∃ tree text, Byte.openList :: bytes = text ++ rest ∧ Denotes tree start depth value text := by
  obtain ⟨blanks, hblanks, hbytes⟩ := exists_blanks bytes
  split at h
  · next after hafter =>
    obtain ⟨rfl, rfl⟩ := Prod.mk.inj h
    obtain _ | depth := depth
    · cases hvalue
    · obtain rfl := Option.some.inj hvalue
      refine ⟨.list start [], _, ?_, rfl, .emptyList hblanks, Nat.succ_le_succ (Nat.zero_le _), rfl⟩
      rw [hbytes, hafter, List.cons_append, List.append_assoc]
      rfl
  · rcases hscan : Json.Tree.scanItems fuel (Json.skipBlanks bytes) with ⟨ts, closed, after⟩
    rw [hscan] at h
    obtain ⟨rfl, rfl⟩ := Prod.mk.inj h
    obtain _ | depth := depth
    · cases hvalue
    · rw [Json.Tree.toJson?] at hvalue
      split at hvalue
      · next hclosed =>
        subst hclosed
        obtain ⟨values, hvalues, rfl⟩ := Option.map_eq_some_iff.mp hvalue
        obtain ⟨items, text, htext, hitems, hheight, hjson⟩ :=
          hfuel.items hscan hvalues (start + 1 + blanks.length)
        refine ⟨.list start items, _, ?_, rfl, .list (hitems.blanks_append hblanks),
          Nat.succ_le_succ hheight, by rw [Parsed.json, hjson]⟩
        rw [hbytes, htext, List.cons_append, List.append_assoc, List.append_assoc]
        rfl
      · cases hvalue

theorem Covers.dict (hfuel : Covers fuel)
    (h : (match Json.skipBlanks bytes with
      | 0x7D :: after => (.dict [] true, after)
      | rest =>
        let (entries, closed, rest) := Json.Tree.scanEntries fuel rest
        (.dict entries closed, rest)) = (t, rest))
    (hvalue : t.toJson? depth = some value) (start : Nat) :
    ∃ tree text, Byte.openDict :: bytes = text ++ rest ∧ Denotes tree start depth value text := by
  obtain ⟨blanks, hblanks, hbytes⟩ := exists_blanks bytes
  split at h
  · next after hafter =>
    obtain ⟨rfl, rfl⟩ := Prod.mk.inj h
    obtain _ | depth := depth
    · cases hvalue
    · obtain rfl := Option.some.inj hvalue
      refine ⟨.dict start [], _, ?_, rfl, .emptyDict hblanks, Nat.succ_le_succ (Nat.zero_le _), rfl⟩
      rw [hbytes, hafter, List.cons_append, List.append_assoc]
      rfl
  · rcases hscan : Json.Tree.scanEntries fuel (Json.skipBlanks bytes) with ⟨ts, closed, after⟩
    rw [hscan] at h
    obtain ⟨rfl, rfl⟩ := Prod.mk.inj h
    obtain _ | depth := depth
    · cases hvalue
    · rw [Json.Tree.toJson?] at hvalue
      split at hvalue
      · next hclosed =>
        subst hclosed
        obtain ⟨values, hvalues, rfl⟩ := Option.map_eq_some_iff.mp hvalue
        obtain ⟨entries, text, htext, hentries, hheight, hjson⟩ :=
          hfuel.entries hscan hvalues (start + 1 + blanks.length)
        refine ⟨.dict start entries, _, ?_, rfl, .dict (hentries.blanks_append hblanks),
          Nat.succ_le_succ hheight, by rw [Parsed.json, hjson]⟩
        rw [hbytes, htext, List.cons_append, List.append_assoc, List.append_assoc]
        rfl
      · cases hvalue

theorem Covers.value_succ (hfuel : Covers fuel)
    (h : Json.Tree.scanAt (fuel + 1) bytes = (t, rest)) (hvalue : t.toJson? depth = some value)
    (offset : Nat) :
    ∃ tree text before, bytes = before ++ (text ++ rest) ∧ IsBlank before ∧
      Denotes tree (offset + before.length) depth value text := by
  obtain ⟨before, hbefore, hbytes⟩ := exists_blanks bytes
  suffices hfound : ∃ tree text, Json.skipBlanks bytes = text ++ rest ∧
      Denotes tree (offset + before.length) depth value text by
    obtain ⟨tree, text, htext, hdenotes⟩ := hfound
    exact ⟨tree, text, before, by rw [← htext]; exact hbytes, hbefore, hdenotes⟩
  generalize offset + before.length = start
  have hscalar : ∀ {literal}, IsScalar literal value →
      Json.skipBlanks bytes = literal ++ rest → ∃ tree text,
        Json.skipBlanks bytes = text ++ rest ∧ Denotes tree start depth value text :=
    fun hscalar hrest ↦ ⟨_, _, hrest, hscalar.denotes start depth⟩
  cases hinput : Json.skipBlanks bytes with
  | nil =>
    rw [Json.Tree.scanAt_nil hinput] at h
    obtain ⟨rfl, rfl⟩ := Prod.mk.inj h
    cases hvalue
  | cons b tail =>
    unfold Json.Tree.scanAt at h
    rw [hinput] at h hscalar
    simp only at h
    split at h
    · next hb =>
      subst hb
      split at h
      · next decoded after hscan =>
        obtain ⟨rfl, rfl⟩ := Prod.mk.inj h
        obtain ⟨literal, hliteral, hscalar'⟩ := exists_string hscan hvalue
        exact hscalar hscalar' hliteral
      · obtain ⟨rfl, rfl⟩ := Prod.mk.inj h
        cases hvalue
    · split at h
      · next hb =>
        subst hb
        exact hfuel.list h hvalue start
      · split at h
        · next hb =>
          subst hb
          exact hfuel.dict h hvalue start
        · split at h
          · next hb =>
            subst hb
            obtain ⟨rfl, rfl⟩ := eq_of_scanWord h hvalue
            cases hvalue
            exact hscalar .null rfl
          · split at h
            · next hb =>
              subst hb
              obtain ⟨rfl, rfl⟩ := eq_of_scanWord h hvalue
              cases hvalue
              exact hscalar .true rfl
            · split at h
              · next hb =>
                subst hb
                obtain ⟨rfl, rfl⟩ := eq_of_scanWord h hvalue
                cases hvalue
                exact hscalar .false rfl
              · split at h
                · obtain ⟨literal, hliteral, hscalar'⟩ := exists_number h hvalue
                  exact hscalar hscalar' hliteral
                · obtain ⟨rfl, rfl⟩ := Prod.mk.inj h
                  cases hvalue

theorem Covers.fills (hfuel : Covers fuel) (h : Json.Tree.scanAt fuel bytes = (t, rest))
    (hvalue : t.toJson? depth = some value) (offset : Nat) :
    ∃ tree text, bytes = text ++ Json.skipBlanks rest ∧ Fills tree offset text ∧
      tree.height ≤ depth ∧ tree.json = value := by
  obtain ⟨tree, text, before, hbytes, hbefore, hdenotes⟩ := hfuel.value h hvalue offset
  obtain ⟨after, hafter, hrest⟩ := exists_blanks rest
  refine ⟨tree, _, ?_, .mk hdenotes.offset hbefore hdenotes.stands hafter, hdenotes.height,
    hdenotes.json⟩
  rw [List.append_assoc, List.append_assoc, ← hrest]
  exact hbytes

theorem Covers.items_succ (hfuel : Covers fuel) {ts : List Json.Tree} {values : List Json}
    (h : Json.Tree.scanItems (fuel + 1) bytes = (ts, true, rest))
    (hvalues : Json.Tree.itemsToJson? depth ts = some values) (offset : Nat) :
    ∃ items text, bytes = text ++ Byte.closeList :: rest ∧ ItemsStand items offset text ∧
      heightItems items ≤ depth ∧ jsonItems items = values := by
  obtain ⟨blanks, hblanks, hbytes⟩ := exists_blanks bytes
  unfold Json.Tree.scanItems at h
  split at h
  · cases (Prod.mk.inj (Prod.mk.inj h).2).1
  · cases (Prod.mk.inj (Prod.mk.inj h).2).1
  · rcases hscan : Json.Tree.scanAt fuel (Json.skipBlanks bytes) with ⟨t, after⟩
    rw [hscan] at h
    simp only at h
    split at h
    · cases (Prod.mk.inj (Prod.mk.inj h).2).1
    · split at h
      · next next hnext =>
        rcases hitems : Json.Tree.scanItems fuel next with ⟨ts', closed, last⟩
        rw [hitems] at h
        obtain ⟨rfl, rfl, rfl⟩ : t :: ts' = ts ∧ closed = true ∧ last = rest := by simpa using h
        rw [Json.Tree.itemsToJson?] at hvalues
        split at hvalues
        · cases hvalues
        · next value hvalue =>
          obtain ⟨others, hothers, rfl⟩ := Option.map_eq_some_iff.mp hvalues
          obtain ⟨item, text, htext, hfills, hheight, rfl⟩ :=
            hfuel.fills hscan hvalue (offset + blanks.length)
          obtain ⟨items, tail, htail, hstand, hheights, rfl⟩ :=
            hfuel.items hitems hothers (offset + (blanks ++ text).length + 1)
          refine ⟨item :: items, _, ?_, .more (hfills.blanks_append hblanks) hstand,
            Nat.max_le.mpr ⟨hheight, hheights⟩, rfl⟩
          rw [hbytes, htext, hnext, htail, List.append_assoc, List.append_assoc, List.cons_append]
          rfl
      · next last hlast =>
        obtain ⟨rfl, rfl⟩ : [t] = ts ∧ last = rest := by simpa using h
        rw [Json.Tree.itemsToJson?] at hvalues
        split at hvalues
        · cases hvalues
        · next value hvalue =>
          obtain ⟨_, ⟨⟩, rfl⟩ := Option.map_eq_some_iff.mp hvalues
          obtain ⟨item, text, htext, hfills, hheight, rfl⟩ :=
            hfuel.fills hscan hvalue (offset + blanks.length)
          refine ⟨[item], _, ?_, .one (hfills.blanks_append hblanks),
            Nat.max_le.mpr ⟨hheight, Nat.zero_le _⟩, rfl⟩
          rw [hbytes, htext, hlast, List.append_assoc]
          rfl
      · cases (Prod.mk.inj (Prod.mk.inj h).2).1

theorem Covers.entryFills (hfuel : Covers fuel) {body afterKey colon : List UInt8}
    {decoded : Option (List UInt8)} {key : String} (hbody : Json.skipBlanks bytes = 0x22 :: body)
    (hscan : Json.scanString body = some (decoded, afterKey))
    (hkey : Json.bodyText? decoded = some key) (hcolon : Json.skipBlanks afterKey = 0x3A :: colon)
    (h : Json.Tree.scanAt fuel colon = (t, rest)) (hvalue : t.toJson? depth = some value)
    (offset : Nat) :
    ∃ tree text, bytes = text ++ Json.skipBlanks rest ∧ EntryFills key tree offset text ∧
      tree.height ≤ depth ∧ tree.json = value := by
  obtain ⟨before, hbefore, hbytes⟩ := exists_blanks bytes
  obtain ⟨between, hbetween, hafterKey⟩ := exists_blanks afterKey
  obtain ⟨text, rfl, htext⟩ := Option.bind_eq_some_iff.mp hkey
  obtain ⟨literal, rfl, hliteral⟩ := Json.isBody_of_scanString hscan
  obtain ⟨tree, text, htext', hfills, hheight, hjson⟩ := hfuel.fills h hvalue
    (offset + before.length + literal.length + between.length + 2)
  refine ⟨tree, _, ?_, .mk hbefore hliteral htext hbetween hfills, hheight, hjson⟩
  rw [hbytes, hbody, hafterKey, hcolon, htext', List.append_assoc, List.cons_append,
    List.append_assoc, List.append_assoc, List.cons_append]
  rfl

theorem entriesToJson?_cons {key : Option String} {ts : List (Option String × Json.Tree)}
    {done values : Entries String Json}
    (h : Json.Tree.entriesToJson? depth ((key, t) :: ts) done = some values) :
    ∃ k v, key = some k ∧ t.toJson? depth = some v ∧
      Json.Tree.entriesToJson? depth ts (done.put k v) = some values := by
  unfold Json.Tree.entriesToJson? at h
  split at h
  · next k v hv => exact ⟨k, v, rfl, hv, h⟩
  · cases h

theorem Covers.entries_succ (hfuel : Covers fuel) {ts : List (Option String × Json.Tree)}
    {done values : Entries String Json}
    (h : Json.Tree.scanEntries (fuel + 1) bytes = (ts, true, rest))
    (hvalues : Json.Tree.entriesToJson? depth ts done = some values) (offset : Nat) :
    ∃ entries text, bytes = text ++ Byte.closeDict :: rest ∧ EntriesStand entries offset text ∧
      heightEntries entries ≤ depth ∧ jsonEntries entries done = values := by
  unfold Json.Tree.scanEntries at h
  split at h
  · next body hbody =>
    split at h
    · cases (Prod.mk.inj (Prod.mk.inj h).2).1
    · next decoded afterKey hscan =>
      split at h
      · next colon hcolon =>
        rcases ht : Json.Tree.scanAt fuel colon with ⟨t, after⟩
        rw [ht] at h
        simp only at h
        split at h
        · cases (Prod.mk.inj (Prod.mk.inj h).2).1
        · split at h
          · next next hnext =>
            rcases hentries : Json.Tree.scanEntries fuel next with ⟨ts', closed, last⟩
            rw [hentries] at h
            obtain ⟨rfl, rfl, rfl⟩ :
                (Json.bodyText? decoded, t) :: ts' = ts ∧ closed = true ∧ last = rest := by
              simpa using h
            obtain ⟨key, value, hkey, hvalue, hothers⟩ := entriesToJson?_cons hvalues
            obtain ⟨tree, text, htext, hfills, hheight, rfl⟩ :=
              hfuel.entryFills hbody hscan hkey hcolon ht hvalue offset
            obtain ⟨entries, tail, htail, hstand, hheights, rfl⟩ :=
              hfuel.entries hentries hothers (offset + text.length + 1)
            refine ⟨(key, tree) :: entries, _, ?_, .more hfills hstand,
              Nat.max_le.mpr ⟨hheight, hheights⟩, rfl⟩
            rw [htext, hnext, htail, List.append_assoc, List.cons_append]
            rfl
          · next last hlast =>
            obtain ⟨rfl, rfl⟩ : [(Json.bodyText? decoded, t)] = ts ∧ last = rest := by
              simpa using h
            obtain ⟨key, value, hkey, hvalue, hothers⟩ := entriesToJson?_cons hvalues
            obtain ⟨tree, text, htext, hfills, hheight, rfl⟩ :=
              hfuel.entryFills hbody hscan hkey hcolon ht hvalue offset
            refine ⟨[(key, tree)], text, ?_, .one hfills,
              Nat.max_le.mpr ⟨hheight, Nat.zero_le _⟩, Option.some.inj hothers⟩
            rw [htext, hlast]
            rfl
          · cases (Prod.mk.inj (Prod.mk.inj h).2).1
      · cases (Prod.mk.inj (Prod.mk.inj h).2).1
  · cases (Prod.mk.inj (Prod.mk.inj h).2).1

end

theorem covers (fuel : Nat) : Covers fuel := by
  induction fuel with
  | zero =>
    refine ⟨?_, ?_, ?_⟩
    · rintro bytes rest t depth value ⟨⟩ ⟨⟩
    · rintro bytes rest ts depth values ⟨⟩
    · rintro bytes rest ts depth done values ⟨⟩
  | succ fuel ih => exact ⟨ih.value_succ, ih.items_succ, ih.entries_succ⟩

/-- Every text that the strict reader reads is the text of a value, which is the one it answers. -/
theorem readWithin?_eq_some_iff {depth : Nat} {bytes : List UInt8} {value : Json} :
    Json.readWithin? depth bytes = some value ↔
      ∃ tree : Parsed, tree.Fills 0 bytes ∧ tree.height ≤ depth ∧ tree.json = value := by
  constructor
  · intro h
    unfold Json.readWithin? at h
    rcases hscan : Json.Tree.scan bytes with ⟨t, rest⟩
    rw [hscan] at h
    simp only at h
    split at h
    · next hrest =>
      obtain ⟨tree, text, before, hbytes, hbefore, hdenotes⟩ := (covers _).value hscan h 0
      obtain ⟨after, hafter, hafterRest⟩ := exists_blanks rest
      rw [List.isEmpty_iff.mp hrest, List.append_nil] at hafterRest
      rw [hbytes, hafterRest]
      exact ⟨tree, .mk hdenotes.offset hbefore hdenotes.stands hafter, hdenotes.height,
        hdenotes.json⟩
    · cases h
  · rintro ⟨tree, hfills, hheight, rfl⟩
    exact hfills.readWithin? hheight

end TypedJson.Parsed
