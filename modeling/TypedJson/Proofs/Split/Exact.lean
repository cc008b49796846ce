import TypedJson.Proofs.Split.Isolation

/-!
# Splits are exact

Where the text of a container stands, a split finds a window for each of its members, in order, and
the text of the member fills the window. No member is broken.
-/

namespace TypedJson

namespace Parsed

/-- The text of the value fills the window. -/
def In (tree : Parsed) (w : Window) : Prop := tree.Fills w.offset w.bytes

/-- The member has the key, and the text of the value fills its window. -/
def IsMember {κ : Type} (key : κ) (tree : Parsed) (m : Except Failure (Member κ)) : Prop :=
  ∃ w, m = .ok ⟨key, w⟩ ∧ tree.In w

theorem Stands.trimStart {tree : Parsed} {offset : Nat} {before text : List UInt8}
    (h : tree.Stands text) (hoffset : tree.offset = offset + before.length)
    (hbefore : IsBlank before) (rest : List UInt8) :
    Window.trimStart ⟨offset, before ++ (text ++ rest)⟩ = ⟨tree.offset, text ++ rest⟩ := by
  obtain ⟨tail, rfl⟩ := h.head
  rw [Window.trimStart, Window.trimFrom_append hbefore, List.cons_append,
    Window.trimFrom_cons h.startsValue.1, hoffset]

theorem In.exists_text {tree : Parsed} {w : Window} (h : tree.In w) :
    ∃ before text after, w.bytes = before ++ (text ++ after) ∧ IsBlank before ∧
      tree.Stands text ∧ IsBlank after ∧ w.trimStart = ⟨tree.offset, text ++ after⟩ := by
  obtain ⟨offset, bytes⟩ := w
  unfold In at h
  cases h with
  | mk hoffset hbefore h hafter =>
    exact ⟨_, _, _, rfl, hbefore, h, hafter, h.trimStart hoffset hbefore _⟩

theorem Stands.isIn {tree : Parsed} {bytes : List UInt8} (h : tree.Stands bytes) :
    tree.In ⟨tree.offset, bytes⟩ := h.fills

end Parsed

namespace Container

variable {κ : Type} {c : Container κ} {key : κ} {tree : Parsed} {offset : Nat}

/-- Where a window holds the text of a value, the answer is the value. -/
theorem Answers.isMember {holds : Window → κ → Window → Prop} {w value : Window}
    {m : Except Failure (Member κ)} (h : Answers holds w m) (hholds : holds w key value)
    (hvalue : tree.In value) : tree.IsMember key m := by
  obtain ⟨offset, bytes⟩ := value
  obtain @⟨_, _, before, text, after, hoffset, hbefore, hstands, hafter⟩ := hvalue
  have hsolid := hstands.isValue.isSolid
  have htrim := hsolid.trim_eq hbefore hafter offset
  refine ⟨⟨tree.offset, text⟩, ?_, hstands.isIn⟩
  rw [hoffset, ← htrim]
  exact h.found key _ hholds (by rwa [htrim])

theorem members_list {items : List Parsed} {offset : Nat} {bytes : List UInt8}
    (h : Parsed.ItemsStand items offset bytes) (afterComma : Bool) (rest : List UInt8) :
    List.Forall₂ (fun item m ↦ item.IsMember () m) items
      (list.members afterComma ⟨offset, bytes ++ Byte.closeList :: rest⟩) := by
  cases h with
  | @one _ _ bytes h =>
    have hnext : list.delimiter ⟨offset + bytes.length, Byte.closeList :: rest⟩ = .ok none :=
      delimiter_closer (by decide)
    obtain ⟨m, hstep, hm⟩ := step_list_member afterComma h.isElement.isMember rfl hnext
      (fun hblank _ ↦ absurd hblank h.isElement.not_isBlank)
    rw [members_eq_of_last hstep]
    exact .cons (hm.isMember rfl h) .nil
  | more h hitems =>
    obtain ⟨m, hstep, hm⟩ := step_list_member afterComma h.isElement.isMember rfl
      delimiter_comma (fun hblank _ ↦ absurd hblank h.isElement.not_isBlank)
    rw [List.append_assoc, List.cons_append, members_eq_of_more hstep]
    exact .cons (hm.isMember rfl h) (members_list hitems true rest)

theorem exists_holdsEntry {key : String} {bytes : List UInt8}
    (h : Parsed.EntryFills key tree offset bytes) :
    ∃ value, HoldsEntry ⟨offset, bytes⟩ key value ∧ tree.In value := by
  obtain ⟨hbefore, hbody, hkey, hbetween, h⟩ := h
  exact ⟨_, .mk hbefore (.string hbody hkey) hbetween, h⟩

theorem members_dict {entries : List (String × Parsed)} {offset : Nat} {bytes : List UInt8}
    (h : Parsed.EntriesStand entries offset bytes) (afterComma : Bool) (rest : List UInt8) :
    List.Forall₂ (fun entry m ↦ entry.2.IsMember entry.1 m) entries
      (dict.members afterComma ⟨offset, bytes ++ Byte.closeDict :: rest⟩) := by
  cases h with
  | @one _ _ _ bytes h =>
    have hnext : dict.delimiter ⟨offset + bytes.length, Byte.closeDict :: rest⟩ = .ok none :=
      delimiter_closer (by decide)
    obtain ⟨m, hstep, hm⟩ := step_dict_member afterComma h.isEntry.isMember
      h.isEntry.not_startsBracket rfl hnext (fun hblank ↦ absurd hblank h.isEntry.not_isBlank)
    obtain ⟨value, hholds, hvalue⟩ := exists_holdsEntry h
    rw [members_eq_of_last hstep]
    exact .cons (hm.isMember hholds hvalue) .nil
  | more h hentries =>
    obtain ⟨m, hstep, hm⟩ := step_dict_member afterComma h.isEntry.isMember
      h.isEntry.not_startsBracket rfl delimiter_comma
        (fun hblank ↦ absurd hblank h.isEntry.not_isBlank)
    obtain ⟨value, hholds, hvalue⟩ := exists_holdsEntry h
    rw [List.append_assoc, List.cons_append, members_eq_of_more hstep]
    exact .cons (hm.isMember hholds hvalue) (members_dict hentries true rest)

/-! ## Splits -/

theorem split_of_ne {w : Window} (h : tree.In w) (hopener : tree.firstByte ≠ c.opener)
    (hnull : tree.firstByte ≠ 0x6E) : c.split w = .error tree.notContainer := by
  obtain ⟨_, text, after, _, _, hstands, _, htrim⟩ := h.exists_text
  obtain ⟨tail, rfl⟩ := hstands.head
  unfold split
  simp only [htrim, List.cons_append, if_neg hopener, if_neg hnull]
  rfl

theorem split_null {w : Window} {literal : List UInt8}
    (h : (Parsed.scalar offset literal .null).In w) (hopener : c.opener ≠ 0x6E) :
    c.split w = .ok [] := by
  obtain ⟨_, text, after, _, _, hstands, _, htrim⟩ := h.exists_text
  obtain ⟨⟨⟩⟩ := hstands
  unfold split
  simp [htrim, hopener.symm, checkWord, Except.map]

theorem split_scalar {w : Window} {literal : List UInt8} {value : Json}
    (h : (Parsed.scalar offset literal value).In w) (hvalue : value ≠ .null)
    (hopener : Parsed.startsScalar c.opener = false) :
    c.split w = .error (Parsed.scalar offset literal value).notContainer := by
  obtain ⟨_, text, after, _, _, hstands, _, _⟩ := h.exists_text
  obtain ⟨hscalar⟩ := hstands
  refine split_of_ne h ?_ (mt hscalar.startsNull_iff.mp hvalue)
  obtain ⟨b, rest, rfl, hb⟩ := hscalar.head
  rintro rfl
  exact Bool.false_ne_true (hopener.symm.trans hb)

theorem split_opener {w : Window} {text after inner : List UInt8}
    (hfront : w.trimStart = ⟨offset, text ++ after⟩) (htext : text = c.opener :: inner) :
    c.split w = .ok (c.members false ⟨offset + 1, inner ++ after⟩) := by
  unfold split
  simp [hfront, htext]

/-- Whatever stands in a window, splitting it as a list finds the items or fails as it should. -/
theorem split_list {w : Window} (h : tree.In w) :
    match tree.items with
    | .ok items => ∃ ms, list.split w = .ok ms ∧
        List.Forall₂ (fun item m ↦ item.IsMember () m) items ms
    | .error failure => list.split w = .error failure := by
  match tree with
  | .list offset items =>
    obtain ⟨_, text, after, _, _, hstands, _, htrim⟩ := h.exists_text
    cases hstands with
    | emptyList hblanks =>
      refine ⟨_, split_opener htrim rfl, ?_⟩
      rw [List.append_assoc]
      exact members_empty list hblanks rfl _ after ▸ .nil
    | list hitems =>
      refine ⟨_, split_opener htrim rfl, ?_⟩
      rw [List.append_assoc]
      exact members_list hitems false after
  | .dict offset entries =>
    have hopener : Byte.openDict ≠ Byte.openList := by decide
    exact split_of_ne h hopener (by rintro ⟨⟩)
  | .scalar offset literal value =>
    cases value with
    | null => exact ⟨[], split_null h (by decide), .nil⟩
    | _ => exact split_scalar h (fun h ↦ nomatch h) rfl

/-- Whatever stands in a window, splitting it as a dictionary finds the entries or fails as it
should. -/
theorem split_dict {w : Window} (h : tree.In w) :
    match tree.entries with
    | .ok entries => ∃ ms, dict.split w = .ok ms ∧
        List.Forall₂ (fun entry m ↦ entry.2.IsMember entry.1 m) entries ms
    | .error failure => dict.split w = .error failure := by
  match tree with
  | .dict offset entries =>
    obtain ⟨_, text, after, _, _, hstands, _, htrim⟩ := h.exists_text
    cases hstands with
    | emptyDict hblanks =>
      refine ⟨_, split_opener htrim rfl, ?_⟩
      rw [List.append_assoc]
      exact members_empty dict hblanks rfl _ after ▸ .nil
    | dict hentries =>
      refine ⟨_, split_opener htrim rfl, ?_⟩
      rw [List.append_assoc]
      exact members_dict hentries false after
  | .list offset items =>
    have hopener : Byte.openList ≠ Byte.openDict := by decide
    exact split_of_ne h hopener (by rintro ⟨⟩)
  | .scalar offset literal value =>
    cases value with
    | null => exact ⟨[], split_null h (by decide), .nil⟩
    | _ => exact split_scalar h (fun h ↦ nomatch h) rfl

end Container

end TypedJson
