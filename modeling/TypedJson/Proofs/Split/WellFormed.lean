import TypedJson.Proofs.Split.Isolation

/-!
# Splits of well-formed texts

An `Element` is a value as it is written in a list, and an `Entry` a key and a value as they are
written in a dictionary, with all blanks that the grammar allows. A text of elements or entries,
wherever it stands in a resource, is split into exactly their values, in order and without the
blanks around, and no member is broken (`Container.split_wellFormed`).
-/

namespace TypedJson

namespace Grammar

/-- A value as it is written in a list. -/
structure Element where
  before : List UInt8
  text : List UInt8
  after : List UInt8
  isBlank_before : Parsed.IsBlank before
  isValue : IsValue text
  isBlank_after : Parsed.IsBlank after

/-- A key and a value as they are written in a dictionary. The key has no lone surrogates. -/
structure Entry where
  before : List UInt8
  /-- The bytes of the key behind its opening quote. -/
  body : List UInt8
  key : String
  between : List UInt8
  value : Element
  isBlank_before : Parsed.IsBlank before
  spells : Spells body key.toList
  isBlank_between : Parsed.IsBlank between

namespace Element

/-- The bytes between two commas. -/
def bytes (e : Element) : List UInt8 := e.before ++ (e.text ++ e.after)

/-- The window of the value, if the bytes start at an offset. -/
def window (offset : Nat) (e : Element) : Window := ⟨offset + e.before.length, e.text⟩

/-- The member of a list. -/
def member (offset : Nat) (e : Element) : Member Unit := ⟨(), e.window offset⟩

theorem isElement (e : Element) : IsElement e.bytes :=
  .mk e.isBlank_before e.isValue e.isBlank_after

theorem trim_eq (e : Element) (offset : Nat) : Window.trim ⟨offset, e.bytes⟩ = e.window offset :=
  e.isValue.isSolid.trim_eq e.isBlank_before e.isBlank_after offset

end Element

namespace Entry

/-- The bytes between two commas. -/
def bytes (e : Entry) : List UInt8 :=
  e.before ++ Byte.quote :: (e.body ++ (e.between ++ Byte.colon :: e.value.bytes))

/-- The member of a dictionary. -/
def member (offset : Nat) (e : Entry) : Member String :=
  ⟨e.key, e.value.window (offset + e.before.length + e.body.length + e.between.length + 2)⟩

theorem isEntry (e : Entry) : IsEntry e.bytes :=
  .mk e.isBlank_before (isString_of_isBody e.spells.isBody) e.isBlank_between e.value.isElement

theorem holdsEntry (e : Entry) (offset : Nat) :
    Container.HoldsEntry ⟨offset, e.bytes⟩ e.key
      ⟨offset + e.before.length + e.body.length + e.between.length + 2, e.value.bytes⟩ :=
  .mk e.isBlank_before e.spells.isScalar e.isBlank_between

end Entry

/-- The texts between the commas of a container. If it has no members, blanks may stand there. -/
def between (blanks : List UInt8) : List (List UInt8) → List (List UInt8)
  | [] => [blanks]
  | texts => texts

/-- The members of a container, whose bytes follow each other with a comma between them. -/
def placed {α κ : Type} (bytes : α → List UInt8) (member : Nat → α → Member κ) (offset : Nat) :
    List α → List (Member κ)
  | [] => []
  | a :: as => member offset a :: placed bytes member (offset + (bytes a).length + 1) as

end Grammar

open Grammar

/-- A text stands in a window that covers it, whatever else is in front of the window or behind the
text. -/
theorem Window.exists_ofBytes {text : List UInt8} {length : Option Nat}
    (h : ∀ n ∈ length, text.length ≤ n) (front back : List UInt8) :
    ∃ rest, Window.ofBytes (front ++ (text ++ back)) front.length length =
      ⟨front.length, text ++ rest⟩ := by
  unfold Window.ofBytes
  rw [List.drop_left]
  cases length with
  | none => exact ⟨back, rfl⟩
  | some n =>
    refine ⟨back.take (n - text.length), ?_⟩
    simp only [List.take_append, List.take_of_length_le (h n rfl)]

namespace Container

variable {κ α : Type} {c : Container κ} {holds : Window → κ → Window → Prop}
  {bytes : α → List UInt8} {member : Nat → α → Member κ} {offset : Nat} {as : List α}

/-- Where each window of a member holds a solid value, the answers are the values. -/
theorem eq_placed (hholds : ∀ a ∈ as, ∀ offset, ∃ value,
      holds ⟨offset, bytes a⟩ (member offset a).key value ∧
        value.trim = (member offset a).value ∧ Scan.IsSolid value.trim.bytes)
    {items : List (Except Failure (Member κ))}
    (h : List.Forall₂ (Answers holds) (memberWindows offset (as.map bytes)) items) :
    items = (placed bytes member offset as).map .ok := by
  induction as generalizing offset items with
  | nil =>
    cases h
    rfl
  | cons a as ih =>
    obtain _ | ⟨hitem, hitems⟩ := h
    obtain ⟨value, hvalue, htrim, hsolid⟩ := hholds a List.mem_cons_self offset
    rw [hitem.found _ value hvalue hsolid, htrim,
      ih (fun a ha ↦ hholds a (List.mem_cons_of_mem _ ha)) hitems]
    rfl

/-- Blanks in front of a container change nothing. -/
theorem split_blanks_append {blanks : List UInt8} (hblanks : Parsed.IsBlank blanks)
    (hopener : Text.isJsonBlank c.opener = false) (offset : Nat) (ms : List (List UInt8))
    (rest : List UInt8) :
    c.split ⟨offset, blanks ++ (c.text ms ++ rest)⟩ =
      c.split ⟨offset + blanks.length, c.text ms ++ rest⟩ := by
  unfold split text enclosed
  simp [Window.trimStart, Window.trimFrom_append hblanks, Window.trimFrom_cons hopener]

theorem hasMembers_of_not_isBlank {ms : List (List UInt8)} (hne : ms ≠ [])
    (h : ∀ m ∈ ms, ¬ Parsed.IsBlank m) : HasMembers ms := by
  match ms with
  | [] => exact absurd rfl hne
  | [m] => exact .inr ⟨m, rfl, h m List.mem_cons_self⟩
  | _ :: _ :: _ => exact .inl (Nat.le_add_left 2 _)

/-- Without members, blanks may stand in a container; otherwise its text is that of its members. -/
theorem split_between {blanks : List UInt8} (hblanks : Parsed.IsBlank blanks)
    (hopener : Text.isJsonBlank c.opener = false) (hcloser : Text.isJsonBlank c.closer = false)
    (offset : Nat) (rest : List UInt8)
    (h : as ≠ [] → c.split ⟨offset, c.text (as.map bytes) ++ rest⟩ =
      .ok ((placed bytes member (offset + 1) as).map .ok)) :
    c.split ⟨offset, c.text (between blanks (as.map bytes)) ++ rest⟩ =
      .ok ((placed bytes member (offset + 1) as).map .ok) := by
  cases as with
  | nil =>
    rw [List.map_nil, between, split_text c hopener, List.intercalate_singleton,
      members_empty c hblanks hcloser]
    rfl
  | cons a as => exact h (List.cons_ne_nil a as)

theorem split_elements {blanks : List UInt8} (hblanks : Parsed.IsBlank blanks)
    (elements : List Element) (offset : Nat) (rest : List UInt8) :
    list.split ⟨offset, list.text (between blanks (elements.map Element.bytes)) ++ rest⟩ =
      .ok ((placed Element.bytes Element.member (offset + 1) elements).map .ok) := by
  refine split_between hblanks rfl rfl offset rest fun hne ↦ ?_
  have helements : ∀ m ∈ elements.map Element.bytes, IsElement m :=
    List.forall_mem_map.mpr fun e _ ↦ e.isElement
  have hcount := hasMembers_of_not_isBlank (List.map_eq_nil_iff.not.mpr hne)
    fun m hm ↦ (helements m hm).not_isBlank
  obtain ⟨items, hsplit, hitems⟩ :=
    split_list_answers (fun m hm ↦ (helements m hm).isMember) hcount offset rest
  rw [hsplit]
  refine congrArg Except.ok (eq_placed (fun e _ offset ↦ ⟨_, rfl, e.trim_eq offset, ?_⟩) hitems)
  rw [e.trim_eq]
  exact e.isValue.isSolid

theorem split_entries {blanks : List UInt8} (hblanks : Parsed.IsBlank blanks)
    (entries : List Entry) (offset : Nat) (rest : List UInt8) :
    dict.split ⟨offset, dict.text (between blanks (entries.map Entry.bytes)) ++ rest⟩ =
      .ok ((placed Entry.bytes Entry.member (offset + 1) entries).map .ok) := by
  refine split_between hblanks rfl rfl offset rest fun hne ↦ ?_
  have hentries : ∀ m ∈ entries.map Entry.bytes, IsEntry m :=
    List.forall_mem_map.mpr fun e _ ↦ e.isEntry
  have hcount := hasMembers_of_not_isBlank (List.map_eq_nil_iff.not.mpr hne)
    fun m hm ↦ (hentries m hm).not_isBlank
  obtain ⟨items, hsplit, hitems⟩ := split_dict_answers (fun m hm ↦ (hentries m hm).isMember) hcount
    (fun m hm ↦ (hentries m hm).not_startsBracket)
    (fun m hm ↦ (hentries m (List.dropLast_subset _ hm)).not_isBlank) offset rest
  rw [hsplit]
  refine congrArg Except.ok
    (eq_placed (fun e _ offset ↦ ⟨_, e.holdsEntry offset, e.value.trim_eq _, ?_⟩) hitems)
  rw [e.value.trim_eq]
  exact e.value.isValue.isSolid

/-- **Splits of well-formed texts are exact.** Wherever the text of a list or a dictionary stands in
a resource, with blanks in front, with a window that covers it, and whatever is around, its members
are answered in order, each with its key and the window of exactly its value. -/
theorem split_wellFormed (front lead blanks back : List UInt8) (hlead : Parsed.IsBlank lead)
    (hblanks : Parsed.IsBlank blanks) (length : Option Nat) :
    (∀ elements : List Element,
      let text := lead ++ list.text (between blanks (elements.map Element.bytes))
      (∀ n ∈ length, text.length ≤ n) →
        list.split (Window.ofBytes (front ++ (text ++ back)) front.length length) =
          .ok ((placed Element.bytes Element.member (front.length + lead.length + 1)
            elements).map .ok)) ∧
    (∀ entries : List Entry,
      let text := lead ++ dict.text (between blanks (entries.map Entry.bytes))
      (∀ n ∈ length, text.length ≤ n) →
        dict.split (Window.ofBytes (front ++ (text ++ back)) front.length length) =
          .ok ((placed Entry.bytes Entry.member (front.length + lead.length + 1)
            entries).map .ok)) := by
  constructor
  · intro elements text hlength
    obtain ⟨rest, hwindow⟩ := Window.exists_ofBytes hlength front back
    rw [hwindow, List.append_assoc, split_blanks_append hlead rfl]
    exact split_elements hblanks elements _ rest
  · intro entries text hlength
    obtain ⟨rest, hwindow⟩ := Window.exists_ofBytes hlength front back
    rw [hwindow, List.append_assoc, split_blanks_append hlead rfl]
    exact split_entries hblanks entries _ rest

/-- The list in `x [ null , [true ,null] ]y` with the length of its window, and the dictionary in
`x {"\n" : [true ,null] ,"," :null}` without one. The commas in the nested list and in the second
key are no commas between members. -/
theorem split_wellFormed_nested :
    let nested := [0x5B, 0x74, 0x72, 0x75, 0x65, 0x20, 0x2C, 0x6E, 0x75, 0x6C, 0x6C, 0x5D]
    let null := [0x6E, 0x75, 0x6C, 0x6C]
    list.split (Window.ofBytes
        ([0x78, 0x20, 0x5B, 0x20] ++ null ++ [0x20, 0x2C, 0x20] ++ nested ++ [0x20, 0x5D, 0x79])
        1 (some 24)) =
      .ok [.ok ⟨(), ⟨4, null⟩⟩, .ok ⟨(), ⟨11, nested⟩⟩] ∧
    dict.split (Window.ofBytes
        ([0x78, 0x20, 0x7B, 0x22, 0x5C, 0x6E, 0x22, 0x20, 0x3A, 0x20] ++ nested ++
          [0x20, 0x2C, 0x22, 0x2C, 0x22, 0x20, 0x3A] ++ null ++ [0x7D]) 1 none) =
      .ok [.ok ⟨"\n", ⟨10, nested⟩⟩, .ok ⟨",", ⟨29, null⟩⟩] := by
  intro nested null
  have hspace : Parsed.IsBlank [0x20] := by
    intro b hb
    rw [List.mem_singleton.mp hb]
    rfl
  have hnil : Parsed.IsBlank [] := Parsed.isBlank_nil
  have hnested : IsValue nested := by
    refine @IsValue.list [[0x74, 0x72, 0x75, 0x65, 0x20], null] (List.cons_ne_nil _ _)
      (List.forall_mem_cons.mpr ⟨?_, ?_⟩)
    · exact IsElement.mk hnil .true hspace
    · exact List.forall_mem_singleton.mpr (IsElement.mk hnil .null hnil)
  have hescaped : Spells [0x5C, 0x6E, 0x22] "\n".toList :=
    @Spells.letter 0x6E 0x0A _ _ rfl .close
  have hcomma : Spells [0x2C, 0x22] ",".toList :=
    @Spells.character ',' _ _ (by decide) (by decide) (by decide) .close
  constructor
  · refine (split_wellFormed [0x78] [0x20] [] [0x79] hspace hnil (some 24)).1
      [⟨[0x20], null, [0x20], hspace, .null, hspace⟩,
        ⟨[0x20], nested, [0x20], hspace, hnested, hspace⟩] ?_
    rintro n ⟨⟩
    exact Nat.le_refl 24
  · exact (split_wellFormed [0x78] [0x20] [] [] hspace hnil none).2
      [⟨[], [0x5C, 0x6E, 0x22], "\n", [0x20], ⟨[0x20], nested, [0x20], hspace, hnested, hspace⟩,
          hnil, hescaped, hspace⟩,
        ⟨[], [0x2C, 0x22], ",", [0x20], ⟨[], null, [], hnil, .null, hnil⟩, hnil, hcomma, hspace⟩]
      (fun _ h ↦ nomatch h)

end Container

end TypedJson
