import TypedJson.Proofs.Split.Layout

/-!
# Splits are safe on any bytes

Whoever splits a container relies on the windows it is answered, also where the container is broken:
that the split ends, that each window is a part of what was split and no two windows share a byte,
and that no window has a blank at either end. `Container.IsSafe` collects these promises, and
`Container.iterate_split` proves them for every window of every text, well-formed or not.

Items are asked for one at a time. `Container.Splitting` is a split in between two requests, and
what it answers to the `n`-th request is the `n`-th item, and nothing once there are no more.
-/

namespace TypedJson

namespace Window

variable {u v w : Window} {lead : List UInt8}

/-- A window has a part at the offset at which the part starts. -/
def Contains (w v : Window) : Prop :=
  ∃ before after, w.bytes = before ++ (v.bytes ++ after) ∧ v.offset = w.offset + before.length

theorem Behind.contains (h : w.Behind lead v) (hvu : v.Contains u) : w.Contains u := by
  obtain ⟨before, after, hbytes, hoffset⟩ := hvu
  refine ⟨lead ++ before, after, ?_, ?_⟩
  · rw [h.bytes, hbytes, List.append_assoc]
  · rw [hoffset, h.offset, List.length_append, Nat.add_assoc]

theorem Contains.append {front rest : List UInt8} (h : Contains ⟨w.offset, front⟩ v)
    (hw : w.bytes = front ++ rest) : w.Contains v := by
  obtain ⟨before, after, hbytes, hoffset⟩ := h
  refine ⟨before, after ++ rest, ?_, hoffset⟩
  rw [hw, show front = before ++ (v.bytes ++ after) from hbytes, List.append_assoc,
    List.append_assoc]

theorem Contains.offset_le (h : w.Contains v) : w.offset ≤ v.offset := by
  obtain ⟨before, after, -, hoffset⟩ := h
  exact hoffset ▸ Nat.le_add_right _ _

theorem Contains.stop_le (h : w.Contains v) : v.stop ≤ w.stop := by
  obtain ⟨before, after, hbytes, hoffset⟩ := h
  simp only [stop, hoffset, hbytes, List.length_append]
  omega

theorem contains_trim (w : Window) : w.Contains w.trim := by
  obtain ⟨before, after, -, -, hbytes, hoffset⟩ := w.exists_trim
  exact ⟨before, after, hbytes, hoffset⟩

/-- Between two parts of a window stands one comma, with nothing but blanks around it. -/
def CommaBetween (w v u : Window) : Prop :=
  ∃ front blanks blanks' back, Parsed.IsBlank blanks ∧ Parsed.IsBlank blanks' ∧
    w.bytes = front ++ (v.bytes ++ (blanks ++ Byte.comma :: (blanks' ++ (u.bytes ++ back)))) ∧
    v.offset = w.offset + front.length ∧
    u.offset = v.stop + (blanks.length + 1 + blanks'.length)

theorem Behind.commaBetween {t : Window} (h : w.Behind lead v) (hv : v.CommaBetween u t) :
    w.CommaBetween u t := by
  obtain ⟨front, blanks, blanks', back, hblanks, hblanks', hbytes, hu, ht⟩ := hv
  refine ⟨lead ++ front, blanks, blanks', back, hblanks, hblanks', ?_, ?_, ht⟩
  · rw [h.bytes, hbytes, List.append_assoc]
  · rw [hu, h.offset, List.length_append, Nat.add_assoc]

end Window

namespace Container

variable {κ : Type} {c : Container κ} {holds : Window → κ → Window → Prop} {w : Window}
  {m : Member κ} {items : List (Except Failure (Member κ))} {afterComma : Bool}

/-! ## Where members are -/

/-- The windows of the members among the items of a split. -/
def boundaries (items : List (Except Failure (Member κ))) : List Window :=
  items.filterMap fun item ↦ item.toOption.map Member.value

theorem boundaries_ok (m : Member κ) (items : List (Except Failure (Member κ))) :
    boundaries (.ok m :: items) = m.value :: boundaries items := rfl

theorem boundaries_failures (failures : List Failure) :
    boundaries (failures.map .error : List (Except Failure (Member κ))) = [] := by
  induction failures with
  | nil => rfl
  | cons failure failures ih => exact ih

theorem Found.contains (hkeys : c.ReadsKeys holds) (h : Found holds w m) : w.Contains m.value := by
  obtain ⟨held, hheld, -, hvalue⟩ := h.exists_held
  obtain ⟨lead, hlead⟩ := hkeys.behind hheld
  rw [hvalue]
  exact hlead.contains held.contains_trim

/-- In a list nothing but blanks stands around a value. -/
theorem Found.exists_blanks {offset : Nat} {front : List UInt8} {m : Member Unit}
    (h : Found HoldsItem ⟨offset, front⟩ m) :
    ∃ before after, Parsed.IsBlank before ∧ Parsed.IsBlank after ∧
      front = before ++ (m.value.bytes ++ after) ∧ m.value.offset = offset + before.length := by
  obtain ⟨held, ⟨blanks, hblanks, hheld⟩, -, hvalue⟩ := h.exists_held
  obtain ⟨before, after, hbefore, hafter, hbytes, hoffset⟩ := held.exists_trim
  refine ⟨blanks ++ before, after, ?_, hafter, ?_, ?_⟩
  · exact fun b hb ↦ (List.mem_append.mp hb).elim (hblanks b) (hbefore b)
  · rw [hvalue, show front = blanks ++ held.bytes from hheld.bytes, hbytes, List.append_assoc]
  · rw [hvalue, hoffset, hheld.offset, List.length_append, Nat.add_assoc]

/-! ## What the layout of the items says -/

theorem Laid.length_le (h : Laid c holds afterComma w items) :
    items.length ≤ w.bytes.length + 1 := by
  induction h with
  | more hrest _ _ ih =>
    rw [hrest.bytes, List.length_append, List.length_append, List.length_cons]
    simp only [List.length_cons, List.length_nil]
    omega
  | last => exact Nat.le_add_left _ _
  | broken _ hlength => rwa [List.length_map]
  | closed => exact Nat.zero_le _

theorem Laid.boundary (hkeys : c.ReadsKeys holds) (h : Laid c holds afterComma w items) :
    ∀ v ∈ boundaries items, w.Contains v ∧ v.IsTrimmed := by
  induction h with
  | @more _ w rest front item items hrest hitem _ ih =>
    have hlater : ∀ v ∈ boundaries items, w.Contains v ∧ v.IsTrimmed :=
      fun v hv ↦ (ih v hv).imp_left hrest.contains
    cases item with
    | error failure => exact hlater
    | ok m =>
      have hm := hitem m rfl
      have hw := hrest.bytes
      rw [List.append_assoc] at hw
      rw [boundaries_ok, List.forall_mem_cons]
      exact ⟨⟨(hm.contains hkeys).append hw, hm.isTrimmed⟩, hlater⟩
  | last hbytes hm =>
    rw [boundaries_ok, List.forall_mem_cons]
    exact ⟨⟨(hm.contains hkeys).append hbytes, hm.isTrimmed⟩, List.forall_mem_nil _⟩
  | broken =>
    rw [boundaries_failures]
    exact List.forall_mem_nil _
  | closed => exact List.forall_mem_nil _

/-- The comma behind a member keeps its window apart from all later ones. -/
theorem Laid.pairwise_boundaries (hkeys : c.ReadsKeys holds)
    (h : Laid c holds afterComma w items) :
    (boundaries items).Pairwise fun v u ↦ v.stop + 1 ≤ u.offset := by
  induction h with
  | @more _ w rest front item items hrest hitem hitems ih =>
    cases item with
    | error failure => exact ih
    | ok m =>
      refine List.pairwise_cons.mpr ⟨fun u hu ↦ ?_, ih⟩
      -- The window ends before the comma, and a later one lies in what is behind it.
      have hstop := ((hitem m rfl).contains hkeys).stop_le
      have hoffset := (hitems.boundary hkeys u hu).1.offset_le
      have hbehind := hrest.offset
      simp only [Window.stop, List.length_append, List.length_cons, List.length_nil] at *
      omega
  | last => exact List.pairwise_singleton _ _
  | broken =>
    rw [boundaries_failures]
    exact .nil
  | closed => exact .nil

/-- The first item of a list stands at the front, if it is no error. -/
theorem Laid.exists_first {m : Member Unit} {items : List (Except Failure (Member Unit))}
    (h : Laid list HoldsItem afterComma w (.ok m :: items)) :
    ∃ before after, Parsed.IsBlank before ∧ w.bytes = before ++ (m.value.bytes ++ after) ∧
      m.value.offset = w.offset + before.length := by
  -- The items are made a variable, so that the cases of the layout can be told apart.
  generalize hall : Except.ok m :: items = all at h
  cases h with
  | @more _ _ rest front _ _ hrest hitem _ =>
    obtain ⟨rfl, rfl⟩ := List.cons.inj hall
    obtain ⟨before, after, hbefore, -, hbytes, hoffset⟩ := (hitem m rfl).exists_blanks
    refine ⟨before, after ++ [Byte.comma] ++ rest.bytes, hbefore, ?_, hoffset⟩
    simp [hrest.bytes, hbytes]
  | @last _ _ front back _ hw hm =>
    obtain ⟨hitem, rfl⟩ := List.cons.inj hall
    obtain rfl := Except.ok.inj hitem
    obtain ⟨before, after, hbefore, -, hbytes, hoffset⟩ := hm.exists_blanks
    refine ⟨before, after ++ Byte.closeList :: back, hbefore, ?_, hoffset⟩
    simp [hw, hbytes, list]
  | @broken _ _ failures =>
    cases failures with
    | nil => cases hall
    | cons => cases (List.cons.inj hall).1
  | closed => cases hall

/-- Items of a list that are next to each other and no errors have one comma between them. -/
theorem Laid.isChain {items : List (Except Failure (Member Unit))}
    (h : Laid list HoldsItem afterComma w items) :
    items.IsChain fun a b ↦ ∀ m n, a = .ok m → b = .ok n → w.CommaBetween m.value n.value := by
  induction h with
  | @more _ w rest front item items hrest hitem hitems ih =>
    have hlater := ih.imp fun a b hab m n ha hb ↦ hrest.commaBetween (hab m n ha hb)
    cases items with
    | nil => exact .singleton _
    | cons next items =>
      refine .cons_cons ?_ hlater
      rintro m n rfl rfl
      obtain ⟨before, after, -, hafter, hbytes, hoffset⟩ := (hitem m rfl).exists_blanks
      obtain ⟨blanks, back, hblanks, hrest', hoffset'⟩ := hitems.exists_first
      refine ⟨before, after, blanks, back, hafter, hblanks, ?_, hoffset, ?_⟩
      · simp [hrest.bytes, hbytes, hrest']
      · rw [hoffset', hrest.offset, hbytes]
        simp only [Window.stop, hoffset, List.length_append, List.length_cons, List.length_nil]
        omega
  | last => exact .singleton _
  | broken =>
    refine List.Pairwise.isChain (List.pairwise_map.mpr ?_)
    exact List.pairwise_of_forall fun _ _ _ _ h ↦ nomatch h
  | closed => exact .nil

/-! ## Asking for one item at a time -/

/-- A split in between two requests for an item. -/
structure Splitting (κ : Type) where
  /-- The items that are known and not yet answered. -/
  pending : List (Except Failure (Member κ))
  /-- Where to go on after them, and whether behind a comma; nothing at the end. -/
  ahead : Option (Bool × Window)

namespace Splitting

/-- The items that are still to come. -/
def remaining (c : Container κ) (s : Splitting κ) : List (Except Failure (Member κ)) :=
  s.pending ++ s.ahead.elim [] fun (afterComma, w) ↦ c.members afterComma w

/-- The answer to a request, and the split after it. -/
def advance (c : Container κ) : Splitting κ → Option (Except Failure (Member κ)) × Splitting κ
  | ⟨item :: pending, ahead⟩ => (some item, ⟨pending, ahead⟩)
  | ⟨[], none⟩ => (none, ⟨[], none⟩)
  | ⟨[], some (afterComma, w)⟩ =>
    match c.step afterComma w with
    | .last [] => (none, ⟨[], none⟩)
    | .last (item :: items) => (some item, ⟨items, none⟩)
    | .more item rest => (some item, ⟨[], some (true, rest)⟩)

/-- The answer to a request after a number of others. -/
def answer (c : Container κ) (s : Splitting κ) : Nat → Option (Except Failure (Member κ))
  | 0 => (s.advance c).1
  | n + 1 => answer c (s.advance c).2 n

/-- A request takes the first of the items. -/
theorem advance_eq (c : Container κ) (s : Splitting κ) :
    (s.advance c).1 = (s.remaining c).head? ∧
      (s.advance c).2.remaining c = (s.remaining c).tail := by
  obtain ⟨_ | ⟨item, pending⟩, _ | ⟨afterComma, w⟩⟩ := s
  · exact ⟨rfl, rfl⟩
  · simp only [advance, remaining, Option.elim_some, List.nil_append]
    split
    · next hstep =>
      rw [members_eq_of_last hstep]
      exact ⟨rfl, rfl⟩
    · next hstep =>
      rw [members_eq_of_last hstep]
      exact ⟨rfl, List.append_nil _⟩
    · next hstep =>
      rw [members_eq_of_more hstep]
      exact ⟨rfl, rfl⟩
  · exact ⟨rfl, rfl⟩
  · exact ⟨rfl, rfl⟩

/-- The requests are answered by the items in turn, and by nothing once there are no more. -/
theorem answer_eq (c : Container κ) (s : Splitting κ) (n : Nat) :
    s.answer c n = (s.remaining c)[n]? := by
  induction n generalizing s with
  | zero => rw [answer, (s.advance_eq c).1, List.head?_eq_getElem?]
  | succ n ih => rw [answer, ih, (s.advance_eq c).2, List.getElem?_tail]

end Splitting

/-- The split of the container at the front of a window before the first request. -/
def opened (c : Container κ) (w : Window) : Except Failure (Splitting κ) :=
  let front := w.trimStart
  match front.bytes with
  | [] => .error (Resource.endOfInput w.offset)
  | b :: rest =>
    if b = c.opener then .ok ⟨[], some (false, ⟨front.offset + 1, rest⟩)⟩
    else if b = 0x6E then
      (checkWord front.offset [0x6E, 0x75, 0x6C, 0x6C] front).map fun _ ↦ ⟨[], none⟩
    else .error (Window.unexpected front.offset b)

theorem split_eq_map_opened (c : Container κ) (w : Window) :
    c.split w = (c.opened w).map (Splitting.remaining c) := by
  simp only [split, opened]
  cases w.trimStart.bytes with
  | nil => rfl
  | cons b rest =>
    by_cases hopener : b = c.opener
    · simp only [if_pos hopener]
      rfl
    · simp only [if_neg hopener]
      by_cases hnull : b = 0x6E
      · simp only [if_pos hnull]
        cases checkWord w.trimStart.offset [0x6E, 0x75, 0x6C, 0x6C] w.trimStart <;> rfl
      · simp only [if_neg hnull]
        rfl

/-! ## Safety -/

/-- What the items of a split of a window promise, whatever the bytes of the window are. -/
structure IsSafe (w : Window) (items : List (Except Failure (Member κ))) : Prop where
  length_le : items.length ≤ w.bytes.length
  contains : ∀ v ∈ boundaries items, w.Contains v
  isTrimmed : ∀ v ∈ boundaries items, v.IsTrimmed
  apart : (boundaries items).Pairwise fun v u ↦ v.stop + 1 ≤ u.offset

/-- Either a container has no items, or its items are laid behind its opening bracket. -/
theorem nil_or_laid_of_opened (hkeys : c.ReadsKeys holds) {s : Splitting κ}
    (h : c.opened w = .ok s) :
    s.remaining c = [] ∨ ∃ lead inner, w.Behind (lead ++ [c.opener]) inner ∧
      Laid c holds false inner (s.remaining c) := by
  obtain ⟨lead, -, hlead, -⟩ := w.exists_behind_trimStart
  unfold opened at h
  cases hbytes : w.trimStart.bytes with
  | nil => simp [hbytes] at h
  | cons b rest =>
    simp only [hbytes] at h
    split at h
    · next hopener =>
      obtain rfl := Except.ok.inj h
      have hinner : w.trimStart.Behind [c.opener] ⟨w.trimStart.offset + 1, rest⟩ :=
        ⟨by rw [hbytes, hopener]; rfl, rfl⟩
      exact .inr ⟨lead, _, hlead.trans hinner, laid_members hkeys _ _⟩
    · split at h
      · cases hword : checkWord w.trimStart.offset [0x6E, 0x75, 0x6C, 0x6C] w.trimStart with
        | error failure => exact nomatch hword ▸ h
        | ok =>
          rw [hword] at h
          obtain rfl := Except.ok.inj h
          exact .inl rfl
      · exact nomatch h

theorem isSafe_remaining (hkeys : c.ReadsKeys holds) {s : Splitting κ} (h : c.opened w = .ok s) :
    IsSafe w (s.remaining c) := by
  obtain hnil | ⟨lead, inner, hinner, hlaid⟩ := nil_or_laid_of_opened hkeys h
  · rw [hnil]
    exact ⟨Nat.zero_le _, List.forall_mem_nil _, List.forall_mem_nil _, .nil⟩
  · have hboundary := hlaid.boundary hkeys
    refine ⟨hlaid.length_le.trans ?_, fun v hv ↦ hinner.contains (hboundary v hv).1,
      fun v hv ↦ (hboundary v hv).2, hlaid.pairwise_boundaries hkeys⟩
    -- The opening bracket makes up for the failure at the end of the bytes.
    rw [hinner.bytes]
    simp only [List.length_append, List.length_cons, List.length_nil]
    omega

theorem isChain_remaining {s : Splitting Unit} (h : list.opened w = .ok s) :
    (s.remaining list).IsChain fun a b ↦
      ∀ m n, a = .ok m → b = .ok n → w.CommaBetween m.value n.value := by
  obtain hnil | ⟨lead, inner, hinner, hlaid⟩ := nil_or_laid_of_opened readsKeys_list h
  · rw [hnil]
    exact .nil
  · exact hlaid.isChain.imp fun a b hab m n ha hb ↦ hinner.commaBetween (hab m n ha hb)

/-- **A split is safe on any bytes.** Whatever stretch of a text is split into the items of a list
or a dictionary, the requests are answered by finitely many items and then by nothing, and the
windows among the items are parts of the stretch that neither touch each other nor start or end with
a blank. In a list, two windows that are answered in turn have blanks and one comma in between. -/
theorem iterate_split (bytes : List UInt8) (offset : Nat) (length : Option Nat) :
    let w := Window.ofBytes bytes offset length
    (∀ s, list.opened w = .ok s → ∃ items, list.split w = .ok items ∧
      (∀ n, s.answer list n = items[n]?) ∧ IsSafe w items ∧
      items.IsChain fun a b ↦
        ∀ m n, a = .ok m → b = .ok n → w.CommaBetween m.value n.value) ∧
    (∀ s, dict.opened w = .ok s → ∃ items, dict.split w = .ok items ∧
      (∀ n, s.answer dict n = items[n]?) ∧ IsSafe w items) := by
  intro w
  constructor
  · intro s hs
    refine ⟨s.remaining list, ?_, s.answer_eq list, isSafe_remaining readsKeys_list hs,
      isChain_remaining hs⟩
    rw [split_eq_map_opened, hs]
    rfl
  · intro s hs
    refine ⟨s.remaining dict, ?_, s.answer_eq dict, isSafe_remaining readsKeys_dict hs⟩
    rw [split_eq_map_opened, hs]
    rfl

/-- A list with a stray byte, a bad token and no end, `[1 2,tru ,x`: only the token is a window. -/
theorem iterate_split_unfinished :
    let bytes := [0x5B, 0x31, 0x20, 0x32, 0x2C, 0x74, 0x72, 0x75, 0x20, 0x2C, 0x78]
    let w := Window.ofBytes bytes 0 none
    ∃ s, list.opened w = .ok s ∧
      s.answer list 0 = some (.error (.unexpectedToken 3 "2")) ∧
      s.answer list 1 = some (.ok ⟨(), 5, [0x74, 0x72, 0x75]⟩) ∧
      s.answer list 2 = some (.error (Resource.endOfInput 11)) ∧
      ∃ items, list.split w = .ok items ∧ (∀ n, s.answer list n = items[n]?) ∧ IsSafe w items ∧
        items.IsChain fun a b ↦
          ∀ m n, a = .ok m → b = .ok n → w.CommaBetween m.value n.value :=
  ⟨_, rfl, rfl, rfl, rfl, (iterate_split _ 0 none).1 _ rfl⟩

end Container

end TypedJson
