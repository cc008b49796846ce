import TypedJson.Resource.Cursor

/-!
# Cursors and indices

A resource *serves* bytes if what it answers are always bytes from there on, and at least one of
them as long as there are any. How many it answers at a time is its own affair.

A cursor over such a resource answers what an index into the bytes answers, and stands where the
index stands, after any moves and for every size of its pieces (`reads_eq_index`). The invariant is
that the kept piece stands in the bytes at the offset where the cursor believes it to stand.
-/

namespace TypedJson

/-! ## Resources that serve bytes -/

/-- The resource serves the bytes, in whatever pieces. -/
structure Resource.Serves (r : Resource) (bytes : List UInt8) : Prop where
  size : r.size = bytes.length
  serve : ∀ offset wanted, ∃ piece, r.serve offset wanted = some piece ∧
    piece <+: (bytes.drop offset).take wanted ∧ (offset < bytes.length → 0 < wanted → piece ≠ [])

namespace Resource

/-- The resource of a list of bytes, which serves as many of the wanted ones as `cut` says. -/
def cutting (bytes : List UInt8) (cut : (offset wanted : Nat) → Nat) : Resource :=
  ⟨bytes.length, fun offset wanted ↦
    some ((bytes.drop offset).take (min (cut offset wanted) wanted))⟩

variable {r : Resource} {bytes : List UInt8} {offset wanted : Nat}

theorem serves_cutting {cut : Nat → Nat → Nat} (hcut : ∀ offset wanted, 0 < cut offset wanted) :
    (cutting bytes cut).Serves bytes where
  size := rfl
  serve offset wanted := by
    refine ⟨_, rfl, ?_, fun hoffset hwanted hnil ↦ ?_⟩
    · rw [← List.take_take]
      exact List.take_prefix _ _
    · have hlength := congrArg List.length hnil
      rw [List.length_take, List.length_drop, List.length_nil] at hlength
      have hpositive := hcut offset wanted
      omega

theorem serves_ofBytes (bytes : List UInt8) : (ofBytes bytes).Serves bytes := by
  have hcutting : ofBytes bytes = cutting bytes fun _ wanted ↦ wanted + 1 := by
    simp [ofBytes, cutting]
  rw [hcutting]
  exact serves_cutting fun _ wanted ↦ Nat.succ_pos wanted

namespace Serves

/-- Within the bytes, what is answered are as many of them as are served. -/
theorem ask_of_lt (h : r.Serves bytes) (hoffset : offset < bytes.length) (hwanted : 0 < wanted) :
    ∃ b piece, r.ask offset wanted = .ok (b, piece) ∧ piece.length < wanted ∧
      offset + piece.length < bytes.length ∧
        b :: piece = (bytes.drop offset).take (piece.length + 1) := by
  obtain ⟨piece, hserve, hprefix, hne⟩ := h.serve offset wanted
  obtain ⟨b, piece, rfl⟩ := List.exists_cons_of_ne_nil (hne hoffset hwanted)
  have hlength := hprefix.length_le
  rw [List.length_take, List.length_drop, List.length_cons] at hlength
  have htake : (b :: piece).take wanted = b :: piece :=
    List.take_of_length_le (by rw [List.length_cons]; omega)
  refine ⟨b, piece, ?_, by omega, by omega, ?_⟩
  · rw [ask, hserve]
    simp only [htake]
  · have heq := List.prefix_iff_eq_take.mp hprefix
    rw [List.take_take, List.length_cons, Nat.min_eq_left (by omega)] at heq
    exact heq

theorem ask_of_le (h : r.Serves bytes) (hoffset : bytes.length ≤ offset) :
    r.ask offset wanted = .error (endOfInput offset) := by
  obtain ⟨piece, hserve, hprefix, -⟩ := h.serve offset wanted
  rw [List.drop_eq_nil_of_le hoffset, List.take_nil, List.prefix_nil] at hprefix
  rw [ask, hserve, hprefix]
  simp only [List.take_nil]

/-! ## Ranges -/

theorem readOn_eq (h : r.Serves bytes) (offset wanted : Nat) (done : List UInt8) (requests : Nat) :
    (r.readOn offset wanted done requests).1 =
      if wanted = 0 ∨ offset + wanted ≤ bytes.length then
        .ok (done ++ (bytes.drop offset).take wanted)
      else .error (endOfInput (max offset bytes.length)) := by
  fun_induction r.readOn offset wanted done requests with
  | case1 offset done requests => simp
  | case2 offset wanted done requests hwanted failure hask =>
    have hoffset : bytes.length ≤ offset := by
      refine Nat.le_of_not_lt fun hlt ↦ ?_
      obtain ⟨b, piece, hok, -⟩ := h.ask_of_lt hlt (Nat.pos_of_ne_zero hwanted)
      cases hask.symm.trans hok
    obtain rfl := Except.error.inj (hask.symm.trans (h.ask_of_le hoffset))
    rw [if_neg (by omega), Nat.max_eq_left hoffset]
  | case3 offset wanted done requests hwanted b piece hask ih =>
    have hoffset : offset < bytes.length := by
      refine Nat.lt_of_not_le fun hle ↦ ?_
      cases hask.symm.trans (h.ask_of_le hle)
    obtain ⟨c, rest, hok, hlt, hstop, htake⟩ :=
      h.ask_of_lt hoffset (Nat.pos_of_ne_zero hwanted)
    obtain ⟨rfl, rfl⟩ := Prod.mk.inj (Except.ok.inj (hask.symm.trans hok))
    -- What is left of the range is in the bytes exactly if the whole range is.
    have hiff : (wanted - (piece.length + 1) = 0 ∨
        offset + (piece.length + 1) + (wanted - (piece.length + 1)) ≤ bytes.length) ↔
          (wanted = 0 ∨ offset + wanted ≤ bytes.length) := by omega
    have hjoin : (bytes.drop offset).take wanted =
        b :: piece ++ (bytes.drop (offset + (piece.length + 1))).take
          (wanted - (piece.length + 1)) := by
      rw [htake, ← List.drop_drop, ← List.take_add, Nat.add_sub_cancel' hlt]
    have hmax : max (offset + (piece.length + 1)) bytes.length = max offset bytes.length := by omega
    rw [ih]
    simp only [hiff, hmax, hjoin, List.append_assoc]

end Serves

end Resource

/-! ## Moves of an index -/

/-- A way of moving forward. -/
inductive Move where
  /-- Stays at the next byte. -/
  | peek
  /-- Goes behind the next byte. -/
  | next
  /-- Goes to the next byte that is no blank. -/
  | peekNonBlank

namespace Index

/-- How many blanks stand at a position of a text. -/
def blanks (text : List UInt8) (position : Nat) : Nat :=
  ((text.drop position).takeWhile Text.isJsonBlank).length

/-- What an index into a text answers, and where it is afterwards. -/
def move (text : List UInt8) (position : Nat) : Move → Option UInt8 × Nat
  | .peek => (text[position]?, position)
  | .next => (text[position]?, if position < text.length then position + 1 else position)
  | .peekNonBlank =>
    (text[position + blanks text position]?, position + blanks text position)

/-- What an index answers move after move, each time with the position after the move. -/
def answers (text : List UInt8) (position : Nat) : List Move → List (Option UInt8 × Nat)
  | [] => []
  | m :: moves => move text position m :: answers text (move text position m).2 moves

variable {text : List UInt8} {position : Nat} {b : UInt8}

theorem blanks_of_le (h : text.length ≤ position) : blanks text position = 0 := by
  rw [blanks, List.drop_eq_nil_of_le h]
  rfl

theorem blanks_of_isJsonBlank (h : text[position]? = some b) (hb : Text.isJsonBlank b = true) :
    blanks text position = blanks text (position + 1) + 1 := by
  obtain ⟨hlt, rfl⟩ := List.getElem?_eq_some_iff.mp h
  rw [blanks, List.drop_eq_getElem_cons hlt, List.takeWhile_cons, if_pos hb]
  rfl

theorem blanks_of_not_isJsonBlank (h : text[position]? = some b)
    (hb : ¬ Text.isJsonBlank b = true) : blanks text position = 0 := by
  obtain ⟨hlt, rfl⟩ := List.getElem?_eq_some_iff.mp h
  rw [blanks, List.drop_eq_getElem_cons hlt, List.takeWhile_cons, if_neg hb]
  rfl

end Index

/-! ## Moves of a cursor -/

namespace Cursor

/-- What a cursor answers for a move, and the cursor afterwards. -/
def move (r : Resource) (c : Cursor) : Move → Except Failure (Option UInt8) × Cursor
  | .peek => c.peek r
  | .next => c.next r
  | .peekNonBlank => c.peekNonBlank r

/-- What a cursor answers move after move, each time with its position after the move. -/
def answers (r : Resource) (c : Cursor) :
    List Move → List (Except Failure (Option UInt8) × Nat)
  | [] => []
  | m :: moves =>
    ((c.move r m).1, (c.move r m).2.position) :: answers r (c.move r m).2 moves

/-- The cursor is at a position of the bytes and stops in front of another one, or at their end. Its
piece stands in the bytes where the cursor believes it to stand. -/
structure IsAt (c : Cursor) (bytes : List UInt8) (stop position : Nat) : Prop where
  position : c.position = position
  stop : c.stop = (bytes.take stop).length
  piece : c.piece.toList <+: bytes.drop c.pieceStart
  pieceSize : 0 < c.pieceSize

variable {c : Cursor} {r : Resource} {bytes : List UInt8} {stop position : Nat}

theorem isAt_start (h : r.Serves bytes) (start stop : Nat) {pieceSize : Nat}
    (hsize : 0 < pieceSize) :
    { Cursor.start r start stop with pieceSize }.IsAt bytes stop start where
  position := rfl
  stop := by rw [List.length_take, Cursor.start, h.size]
  piece := List.nil_prefix
  pieceSize := hsize

namespace IsAt

theorem advance (hc : c.IsAt bytes stop position) : c.advance.IsAt bytes stop (position + 1) where
  position := congrArg Nat.succ hc.position
  stop := hc.stop
  piece := hc.piece
  pieceSize := hc.pieceSize

/-- The byte of the piece at the position is the byte of the text there. -/
theorem current?_eq (hc : c.IsAt bytes stop position) (hpiece : c.isInPiece = true)
    (hlt : position < (bytes.take stop).length) : c.current? = (bytes.take stop)[position]? := by
  rw [isInPiece, Bool.and_eq_true, decide_eq_true_eq, decide_eq_true_eq, hc.position] at hpiece
  obtain ⟨tail, htail⟩ := hc.piece
  have hindex : position - c.pieceStart < c.piece.toList.length := by
    rw [Array.length_toList]
    omega
  have hstop : position < stop := Nat.lt_of_lt_of_le hlt (List.length_take_le _ _)
  rw [current?, hc.position, ← Array.getElem?_toList, ← List.getElem?_append_left hindex, htail,
    List.getElem?_drop, Nat.add_sub_cancel' hpiece.1, List.getElem?_take_of_lt hstop]

/-- The piece at the position is served, and holds the next byte. -/
theorem exists_fill (hc : c.IsAt bytes stop position) (h : r.Serves bytes)
    (hlt : position < (bytes.take stop).length) :
    ∃ c', c.fill r = (.ok (), c') ∧ c'.IsAt bytes stop position ∧ c'.isInPiece = true := by
  have hoffset : c.position < bytes.length := by
    rw [hc.position]
    exact Nat.lt_of_lt_of_le hlt (List.length_take_le' _ _)
  have hwanted : 0 < min c.pieceSize (c.stop - c.position) := by
    have hsize := hc.pieceSize
    rw [hc.stop, hc.position]
    omega
  obtain ⟨b, piece, hask, -, -, htake⟩ := h.ask_of_lt hoffset hwanted
  let served : Cursor :=
    { c with
      piece := (b :: piece).toArray
      pieceStart := c.position
      requests := c.requests + 1 }
  have hfill : c.fill r = (.ok (), served) := by
    rw [fill, hask]
  refine ⟨served, hfill, ⟨hc.position, hc.stop, ?_, hc.pieceSize⟩, ?_⟩
  · show b :: piece <+: bytes.drop c.position
    rw [htake]
    exact List.take_prefix _ _
  · simp [isInPiece, served]

theorem exists_peek (hc : c.IsAt bytes stop position) (h : r.Serves bytes) :
    ∃ c', c.peek r = (.ok (bytes.take stop)[position]?, c') ∧ c'.IsAt bytes stop position := by
  rw [peek, hc.stop, hc.position]
  by_cases hend : (bytes.take stop).length ≤ position
  · rw [if_pos hend, List.getElem?_eq_none hend]
    exact ⟨c, rfl, hc⟩
  · have hlt := Nat.lt_of_not_le hend
    rw [if_neg hend]
    by_cases hpiece : c.isInPiece = true
    · rw [if_pos hpiece, hc.current?_eq hpiece hlt]
      exact ⟨c, rfl, hc⟩
    · obtain ⟨c', hfill, hc', hpiece'⟩ := hc.exists_fill h hlt
      rw [if_neg hpiece, hfill, ← hc'.current?_eq hpiece' hlt]
      exact ⟨c', rfl, hc'⟩

theorem exists_next (hc : c.IsAt bytes stop position) (h : r.Serves bytes) :
    ∃ c', c.next r = (.ok (bytes.take stop)[position]?, c') ∧
      c'.IsAt bytes stop
        (if position < (bytes.take stop).length then position + 1 else position) := by
  obtain ⟨c', hpeek, hc'⟩ := hc.exists_peek h
  rw [next, hpeek]
  by_cases hlt : position < (bytes.take stop).length
  · rw [List.getElem?_eq_getElem hlt, if_pos hlt]
    exact ⟨_, rfl, hc'.advance⟩
  · rw [List.getElem?_eq_none (Nat.le_of_not_lt hlt), if_neg hlt]
    exact ⟨c', rfl, hc'⟩

/-- The limit is never reached: there are no more blanks than bytes. -/
theorem exists_peekAfter (h : r.Serves bytes) {limit : Nat} (hc : c.IsAt bytes stop position)
    (hlimit : (bytes.take stop).length ≤ position + limit) :
    ∃ c', c.peekAfter limit r =
        (.ok (bytes.take stop)[position + Index.blanks (bytes.take stop) position]?, c') ∧
      c'.IsAt bytes stop (position + Index.blanks (bytes.take stop) position) := by
  induction limit generalizing c position with
  | zero =>
    rw [peekAfter, Index.blanks_of_le (by omega)]
    exact hc.exists_peek h
  | succ limit ih =>
    obtain ⟨c', hpeek, hc'⟩ := hc.exists_peek h
    rw [peekAfter, hpeek]
    by_cases hlt : position < (bytes.take stop).length
    · have hbyte := List.getElem?_eq_getElem hlt
      rw [hbyte]
      by_cases hblank : Text.isJsonBlank (bytes.take stop)[position] = true
      · simp only [if_pos hblank]
        rw [Index.blanks_of_isJsonBlank hbyte hblank, Nat.add_comm _ 1, ← Nat.add_assoc]
        exact ih hc'.advance (by omega)
      · simp only [if_neg hblank]
        rw [Index.blanks_of_not_isJsonBlank hbyte hblank, Nat.add_zero, hbyte]
        exact ⟨c', rfl, hc'⟩
    · have hle := Nat.le_of_not_lt hlt
      rw [Index.blanks_of_le hle, Nat.add_zero, List.getElem?_eq_none hle]
      exact ⟨c', rfl, hc'⟩

/-- Every move answers what the index answers, and goes where the index goes. -/
theorem exists_move (hc : c.IsAt bytes stop position) (h : r.Serves bytes) (m : Move) :
    ∃ c', c.move r m = (.ok (Index.move (bytes.take stop) position m).1, c') ∧
      c'.IsAt bytes stop (Index.move (bytes.take stop) position m).2 := by
  cases m with
  | peek => exact hc.exists_peek h
  | next => exact hc.exists_next h
  | peekNonBlank =>
    refine exists_peekAfter h hc ?_
    rw [hc.stop, hc.position]
    omega

end IsAt

end Cursor

end TypedJson
