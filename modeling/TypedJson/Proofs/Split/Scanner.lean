import TypedJson.Proofs.Resource.Cursor
import TypedJson.Proofs.Split.Passing
import TypedJson.Proofs.Split.Safety

/-!
# Scanners split like windows

A split over windows has the bytes in hand, and a scanner sees them through a cursor, piece by piece
and each of them once. Over a resource that serves the bytes a scanner answers the same, request
after request (`Scanner.start_eq_split`), and where it finds a value, a reader finds the bytes of it
(`Scanner.readRange_boundary`).

## The invariant

The window over which the split goes on is the view of the cursor: `Cursor.Faces` says that the
window is what is in front of the cursor. Each step of a scan *comes to* what the same step comes to
over windows, and leaves the cursor in front of the window that is left (`Comes`). In between two
requests the states of the two splits mirror each other (`Scanner.Mirrors`).
-/

namespace TypedJson

open Resource (endOfInput)

variable {α β κ : Type} {r : Resource} {bytes : List UInt8} {stop : Nat} {w v : Window}
  {lead : List UInt8} {c c' : Cursor}

/-! ## The window in front of a cursor -/

/-- The window is what is in front of the cursor. -/
structure Cursor.Faces (c : Cursor) (bytes : List UInt8) (stop : Nat) (w : Window) : Prop where
  isAt : c.IsAt bytes stop w.offset
  bytes_eq : w.bytes = (bytes.take stop).drop w.offset

theorem Window.Behind.bytes_eq (h : w.Behind lead v) (hw : w.bytes = bytes.drop w.offset) :
    v.bytes = bytes.drop v.offset := by
  rw [h.offset, ← List.drop_drop, ← hw, h.bytes, List.drop_left]

namespace Cursor.Faces

/-- The cursor has moved on over a part of the window. -/
theorem behind (hc : c.Faces bytes stop w) (h : w.Behind lead v)
    (hc' : c'.IsAt bytes stop v.offset) : c'.Faces bytes stop v :=
  ⟨hc', h.bytes_eq hc.bytes_eq⟩

theorem getElem?_offset (hc : c.Faces bytes stop w) :
    (bytes.take stop)[w.offset]? = w.bytes.head? := by
  rw [hc.bytes_eq, List.head?_drop]

theorem length_eq (hc : c.Faces bytes stop w) : c.stop - c.position = w.bytes.length := by
  rw [hc.isAt.stop, hc.isAt.position, hc.bytes_eq, List.length_drop]

/-- As many blanks are in front of the cursor as are trimmed off the window. -/
theorem blanks_eq {blanks : List UInt8} (hc : c.Faces bytes stop w)
    (hblanks : Parsed.IsBlank blanks) (hw : w.Behind blanks v)
    (hv : ∀ b ∈ v.bytes.head?, Text.isJsonBlank b = false) :
    Index.blanks (bytes.take stop) w.offset = blanks.length := by
  rw [Index.blanks, ← hc.bytes_eq, hw.bytes, List.takeWhile_append_of_pos hblanks]
  cases hbytes : v.bytes with
  | nil => simp
  | cons b rest => simp [hv b (by rw [hbytes]; rfl)]

end Cursor.Faces

/-! ## What a step comes to -/

/-- The result of a step is the one that is said, and the cursor is in front of the window that is
left. If the split ends, it does not matter where the cursor is. -/
inductive Results (bytes : List UInt8) (stop : Nat) :
    EStateM.Result Halt Cursor α → KeyStep α → Prop
  | read {c : Cursor} {a : α} {rest : Window} (h : c.Faces bytes stop rest) :
    Results bytes stop (.ok a c) (.read a rest)
  | refused {c : Cursor} {failure : Failure} {rest : Window} (h : c.Faces bytes stop rest) :
    Results bytes stop (.error (.member failure) c) (.refused failure rest)
  | ended {c : Cursor} {failure : Failure} :
    Results bytes stop (.error (.split failure) c) (.ended failure)

section

variable {result : EStateM.Result Halt Cursor α} {a : α} {failure : Failure}

theorem Results.exists_ok (h : Results bytes stop result (.read a w)) :
    ∃ c, result = .ok a c ∧ c.Faces bytes stop w := by
  cases h with
  | read hc => exact ⟨_, rfl, hc⟩

theorem Results.exists_member (h : Results bytes stop result (.refused failure w)) :
    ∃ c, result = .error (.member failure) c ∧ c.Faces bytes stop w := by
  cases h with
  | refused hc => exact ⟨_, rfl, hc⟩

theorem Results.exists_split (h : Results bytes stop result (.ended failure)) :
    ∃ c, result = .error (.split failure) c := by
  cases h with
  | ended => exact ⟨_, rfl⟩

end

/-- What a step of a scan comes to in front of a window. -/
def Comes (bytes : List UInt8) (stop : Nat) (x : Scanning α) (w : Window) (e : KeyStep α) : Prop :=
  ∀ c : Cursor, c.Faces bytes stop w → Results bytes stop (x c) e

namespace Comes

variable {x : Scanning α} {f : α → Scanning β} {a : α} {e : KeyStep β} {failure : Failure}

/-- A step and the next one. -/
theorem bind (hx : Comes bytes stop x w (.read a v)) (hf : Comes bytes stop (f a) v e) :
    Comes bytes stop (x >>= f) w e := by
  intro c hc
  obtain ⟨c', hok, hc'⟩ := (hx c hc).exists_ok
  show Results bytes stop (EStateM.bind x f c) e
  rw [EStateM.bind, hok]
  exact hf c' hc'

theorem bind_refused (hx : Comes bytes stop x w (.refused failure v)) :
    Comes bytes stop (x >>= f) w (.refused failure v) := by
  intro c hc
  obtain ⟨c', herror, hc'⟩ := (hx c hc).exists_member
  show Results bytes stop (EStateM.bind x f c) _
  rw [EStateM.bind, herror]
  exact .refused hc'

theorem bind_ended (hx : Comes bytes stop x w (.ended failure)) :
    Comes bytes stop (x >>= f) w (.ended failure) := by
  intro c hc
  obtain ⟨c', herror⟩ := (hx c hc).exists_split
  show Results bytes stop (EStateM.bind x f c) _
  rw [EStateM.bind, herror]
  exact .ended

theorem pure (a : α) : Comes bytes stop (Pure.pure a) w (.read a w) := fun _ hc ↦ .read hc

theorem refuse (failure : Failure) :
    Comes bytes stop (throw (.member failure) : Scanning α) w (.refused failure w) :=
  fun _ hc ↦ .refused hc

theorem fail (failure : Failure) :
    Comes bytes stop (throw (.split failure) : Scanning α) w (.ended failure) :=
  fun _ _ ↦ .ended

end Comes

namespace Scanning

/-! ## Moves -/

theorem comes_position : Comes bytes stop position w (.read w.offset w) := by
  intro c hc
  rw [← hc.isAt.position]
  exact .read hc

theorem comes_remaining : Comes bytes stop remaining w (.read w.bytes.length w) := by
  intro c hc
  rw [← hc.length_eq]
  exact .read hc

/-- A move over a part of a window. -/
theorem comes_move {x : Cursor → Except Failure α × Cursor} {a : α} (hw : w.Behind lead v)
    (hx : ∀ c : Cursor, c.Faces bytes stop w →
      ∃ c', x c = (.ok a, c') ∧ c'.IsAt bytes stop v.offset) :
    Comes bytes stop (move x) w (.read a v) := by
  intro c hc
  obtain ⟨c', hmove, hc'⟩ := hx c hc
  rw [move, hmove]
  exact .read (hc.behind hw hc')

theorem comes_peek (h : r.Serves bytes) : Comes bytes stop (peek r) w (.read w.bytes.head? w) := by
  refine comes_move (.refl w) fun c hc ↦ ?_
  rw [← hc.getElem?_offset]
  exact hc.isAt.exists_peek h

theorem comes_next_nil (h : r.Serves bytes) (offset : Nat) :
    Comes bytes stop (next r) ⟨offset, []⟩ (.read none ⟨offset, []⟩) := by
  refine comes_move (.refl _) fun c hc ↦ ?_
  obtain ⟨c', hnext, hc'⟩ := hc.isAt.exists_next h
  rw [hc.getElem?_offset] at hnext
  rw [if_neg (Nat.not_lt.mpr (List.drop_eq_nil_iff.mp hc.bytes_eq.symm))] at hc'
  exact ⟨c', hnext, hc'⟩

theorem comes_next (h : r.Serves bytes) (offset : Nat) (b : UInt8) (rest : List UInt8) :
    Comes bytes stop (next r) ⟨offset, b :: rest⟩ (.read (some b) ⟨offset + 1, rest⟩) := by
  have hbehind : Window.Behind ⟨offset, b :: rest⟩ [b] ⟨offset + 1, rest⟩ := ⟨rfl, rfl⟩
  refine comes_move hbehind fun c hc ↦ ?_
  obtain ⟨c', hnext, hc'⟩ := hc.isAt.exists_next h
  rw [hc.getElem?_offset] at hnext
  rw [if_pos] at hc'
  · exact ⟨c', hnext, hc'⟩
  · exact (List.getElem?_eq_some_iff.mp hc.getElem?_offset).1

theorem comes_peekNonBlank (h : r.Serves bytes) :
    Comes bytes stop (peekNonBlank r) w (.read w.trimStart.bytes.head? w.trimStart) := by
  obtain ⟨blanks, hblanks, hw, hhead⟩ := w.exists_behind_trimStart
  refine comes_move hw fun c hc ↦ ?_
  obtain ⟨c', hpeek, hc'⟩ := hc.isAt.exists_move h .peekNonBlank
  rw [Index.move, hc.blanks_eq hblanks hw hhead, ← hw.offset] at hpeek hc'
  rw [List.head?_eq_getElem?, hw.bytes_eq hc.bytes_eq, List.getElem?_drop]
  exact ⟨c', hpeek, hc'⟩

/-! ## Strings and words -/

/-- What the rest of a string comes to at the front of a window. -/
def quoted (read : List UInt8) (w : Window) : KeyStep (List UInt8) :=
  match Scan.string read w.bytes with
  | .error cut => .ended (endOfInput (w.stop - cut))
  | .ok (body, rest) => .read body ⟨w.stop - rest.length, rest⟩

theorem quoted_quote (read : List UInt8) (offset : Nat) (rest : List UInt8) :
    quoted read ⟨offset, Byte.quote :: rest⟩ =
      .read (Byte.quote :: read).reverse ⟨offset + 1, rest⟩ := by
  have hstop : Window.stop ⟨offset, Byte.quote :: rest⟩ - rest.length = offset + 1 := by
    rw [Window.stop_cons, Window.stop, Nat.add_sub_cancel]
  rw [quoted, Scan.string.eq_def]
  simp only [if_true, hstop]

theorem quoted_character {b : UInt8} (hquote : b ≠ Byte.quote) (hescape : b ≠ Byte.backslash)
    (read : List UInt8) (offset : Nat) (rest : List UInt8) :
    quoted read ⟨offset, b :: rest⟩ = quoted (b :: read) ⟨offset + 1, rest⟩ := by
  rw [quoted, quoted, Window.stop_cons, Scan.string.eq_def]
  simp only [if_neg hquote, if_neg hescape]

theorem quoted_escape (read : List UInt8) (offset : Nat) (escaped : UInt8) (rest : List UInt8) :
    quoted read ⟨offset, Byte.backslash :: escaped :: rest⟩ =
      quoted (escaped :: Byte.backslash :: read) ⟨offset + 1 + 1, rest⟩ := by
  rw [quoted, quoted, Window.stop_cons, Window.stop_cons, Scan.string.eq_def]
  rfl

theorem quoted_of_ok {text body rest : List UInt8} (h : Scan.string [] text = .ok (body, rest))
    (offset : Nat) : quoted [] ⟨offset, text⟩ = .read body ⟨offset + body.length, rest⟩ := by
  obtain ⟨front, hbody, rfl, -⟩ := Scan.exists_of_string h
  obtain rfl : body = front := hbody
  have hstop : Window.stop ⟨offset, body ++ rest⟩ - rest.length = offset + body.length := by
    rw [Window.stop, List.length_append, ← Nat.add_assoc, Nat.add_sub_cancel]
  simp only [quoted, h, hstop]

theorem quoted_of_error {text : List UInt8} {cut : Nat} (h : Scan.string [] text = .error cut)
    (offset : Nat) :
    quoted [] ⟨offset, text⟩ = .ended (endOfInput (offset + text.length - cut)) := by
  rw [quoted, h]
  rfl

/-- The limit is never reached: each turn takes a byte of the window. -/
theorem comes_string (h : r.Serves bytes) (read text : List UInt8) (offset : Nat) {limit : Nat}
    (hlimit : text.length ≤ limit) :
    Comes bytes stop (string r limit read) ⟨offset, text⟩ (quoted read ⟨offset, text⟩) := by
  induction limit generalizing read text offset with
  | zero =>
    obtain rfl := List.eq_nil_of_length_eq_zero (Nat.le_zero.mp hlimit)
    exact .bind comes_position (.fail _)
  | succ limit ih =>
    refine .bind comes_position ?_
    cases text with
    | nil => exact .bind (comes_next_nil h offset) (.fail _)
    | cons b text =>
      refine .bind (comes_next h offset b text) ?_
      by_cases hquote : b = Byte.quote
      · subst hquote
        rw [quoted_quote]
        exact .pure _
      · by_cases hescape : b = Byte.backslash
        · subst hescape
          cases text with
          | nil => exact .bind (comes_next_nil h _) (.fail _)
          | cons escaped text =>
            rw [quoted_escape]
            exact .bind (comes_next h _ _ _)
              (ih _ text _ (Nat.le_of_succ_le_succ (Nat.le_of_succ_le hlimit)))
        · simp only [if_neg hquote, if_neg hescape]
          rw [quoted_character hquote hescape]
          exact ih _ text _ (Nat.le_of_succ_le_succ hlimit)

variable (stop) in
/-- The letters of a word are there, or the split ends. -/
theorem comes_word (h : r.Serves bytes) (start : Nat) (letters : List UInt8) (w : Window) :
    (∃ rest, Container.checkWord start letters w = .ok () ∧
      Comes bytes stop (word r start letters) w (.read () rest)) ∨
    ∃ failure, Container.checkWord start letters w = .error failure ∧
      Comes bytes stop (word r start letters) w (.ended failure) := by
  induction letters generalizing w with
  | nil => exact .inl ⟨w, by rw [Container.checkWord], .pure ()⟩
  | cons letter letters ih =>
    obtain ⟨offset, _ | ⟨b, rest⟩⟩ := w
    · exact .inr ⟨_, rfl, .bind comes_position (.bind (comes_next_nil h offset) (.fail _))⟩
    · by_cases hletter : b = letter
      · simp only [Container.checkWord, if_pos hletter]
        have hnext {e : KeyStep Unit} (he : Comes bytes stop (word r start letters)
            ⟨offset + 1, rest⟩ e) :
            Comes bytes stop (word r start (letter :: letters)) ⟨offset, b :: rest⟩ e := by
          refine .bind comes_position (.bind (comes_next h offset b rest) ?_)
          simp only [if_pos hletter]
          exact he
        obtain ⟨v, hword, hv⟩ | ⟨failure, hword, hfailure⟩ := ih ⟨offset + 1, rest⟩
        · exact .inl ⟨v, hword, hnext hv⟩
        · exact .inr ⟨failure, hword, hnext hfailure⟩
      · have hword : Container.checkWord start (letter :: letters) ⟨offset, b :: rest⟩ =
            .error (Window.unexpected offset b) := by
          simp only [Container.checkWord, if_neg hletter]
        refine .inr ⟨_, hword, ?_⟩
        refine .bind comes_position (.bind (comes_next h offset b rest) ?_)
        simp only [if_neg hletter]
        exact .fail _

/-! ## Values -/

theorem comes_finish (s : Passed) (w : Window) :
    Comes bytes stop s.finish w (s.outcome w.offset [] w) := by
  rw [Passed.finish, Passed.outcome, Passed.strayIn, Passed.stopIn]
  cases s.stray with
  | none => exact .pure _
  | some stray => exact .refuse _

/-- A value is passed byte by byte, and its strings as a whole. -/
theorem comes_value (h : r.Serves bytes) (s : Passed) (w : Window) {limit : Nat}
    (hlimit : w.bytes.length ≤ limit) :
    Comes bytes stop (value r limit s) w (s.through w) := by
  induction limit generalizing s w with
  | zero =>
    obtain ⟨offset, text⟩ := w
    obtain rfl := List.eq_nil_of_length_eq_zero (Nat.le_zero.mp hlimit)
    rw [Passed.through_nil]
    exact .bind comes_position (.fail _)
  | succ limit ih =>
    obtain ⟨offset, _ | ⟨b, rest⟩⟩ := w
    · rw [Passed.through_nil]
      exact .bind comes_position (.bind (comes_peek h) (.fail _))
    · have hrest : rest.length ≤ limit := Nat.le_of_succ_le_succ hlimit
      refine .bind comes_position (.bind (comes_peek h) ?_)
      by_cases hstops : (Byte.isDelimiter b && s.closers.isEmpty) = true
      · -- The value ends here, and what has been passed decides what is answered.
        obtain ⟨hdelimiter, hclosers⟩ := Bool.and_eq_true_iff.mp hstops
        rw [Passed.through_delimiter hdelimiter (List.isEmpty_iff.mp hclosers)]
        simp only [List.head?_cons, if_pos hstops]
        exact comes_finish s _
      · simp only [List.head?_cons, if_neg hstops]
        refine .bind (comes_next h offset b rest) ?_
        by_cases hblank : Text.isJsonBlank b = true
        · rw [if_pos hblank, Passed.through_blank hblank]
          exact ih _ ⟨offset + 1, rest⟩ hrest
        · rw [if_neg hblank]
          by_cases hquote : b = Byte.quote
          · subst hquote
            have hstring : Comes bytes stop (string r limit []) ⟨offset + 1, rest⟩
                (quoted [] ⟨offset + 1, rest⟩) :=
              comes_string h [] rest (offset + 1) hrest
            rw [if_pos rfl]
            cases hquoted : Scan.string [] rest with
            | error cut =>
              rw [quoted_of_error hquoted] at hstring
              rw [Passed.through_quote_error hquoted]
              exact hstring.bind_ended
            | ok found =>
              rw [quoted_of_ok hquoted] at hstring
              rw [Passed.through_quote hquoted]
              exact .bind hstring (.bind comes_position (ih _ ⟨_, found.2⟩
                ((Scan.length_of_string hquoted).trans hrest)))
          · rw [if_neg hquote, Passed.through_pass hstops hblank hquote]
            exact .bind (.pure _) (.bind comes_position (ih _ ⟨offset + 1, rest⟩ hrest))

/-- What is left of a broken member is passed, whatever is wrong with it. -/
theorem comes_skip (h : r.Serves bytes) (w : Window) :
    Comes bytes stop (skip r) w
      (match Scan.member {} [] w.bytes with
      | .error cut => .ended (endOfInput (w.stop - cut))
      | .ok (raw, rest) => .read () ⟨w.offset + raw.length, rest⟩) := by
  intro c hc
  have hvalue := comes_value h { stop := w.offset } w (Nat.le_refl _) c hc
  rw [Passed.through_start] at hvalue
  rw [skip, hc.length_eq, hc.isAt.position]
  -- A stray byte breaks the member once more, and the cursor is behind it all the same.
  cases hmember : Scan.member {} [] w.bytes with
  | error cut =>
    simp only [hmember] at hvalue
    obtain ⟨c', herror⟩ := hvalue.exists_split
    rw [herror]
    exact .ended
  | ok found =>
    simp only [hmember] at hvalue
    cases hstray : Scan.stray {} false 0 found.1 with
    | none =>
      simp only [hstray] at hvalue
      obtain ⟨c', hok, hc'⟩ := hvalue.exists_ok
      rw [hok]
      exact .read hc'
    | some stray =>
      simp only [hstray] at hvalue
      obtain ⟨c', herror, hc'⟩ := hvalue.exists_member
      rw [herror]
      exact .read hc'

/-! ## Keys -/

theorem comes_colon (h : r.Serves bytes) (key : String) (w : Window) :
    Comes bytes stop (colon r key) w (readColon key w) := by
  refine .bind comes_position (.bind (comes_peekNonBlank h) ?_)
  rw [readColon]
  obtain ⟨offset, _ | ⟨b, rest⟩⟩ := w.trimStart
  · exact .fail _
  · by_cases hcolon : b = Byte.colon
    · simp only [List.head?_cons, if_pos hcolon]
      exact .bind (comes_next h offset b rest) (.pure key)
    · simp only [List.head?_cons, if_neg hcolon]
      exact .bind comes_position (.refuse _)

theorem comes_entryKey (h : r.Serves bytes) {w : Window} (hw : w.bytes ≠ []) :
    Comes bytes stop (entryKey r) w (readKey w) := by
  obtain ⟨offset, _ | ⟨b, rest⟩⟩ := w
  · exact absurd rfl hw
  · refine .bind comes_position (.bind (comes_next h offset b rest) ?_)
    by_cases hquote : b = Byte.quote
    · subst hquote
      have hstring : Comes bytes stop (string r rest.length []) ⟨offset + 1, rest⟩
          (quoted [] ⟨offset + 1, rest⟩) :=
        comes_string h [] rest (offset + 1) (Nat.le_refl _)
      rw [if_neg (not_not_intro rfl)]
      refine .bind comes_remaining ?_
      cases hquoted : Scan.string [] rest with
      | error cut =>
        rw [quoted_of_error hquoted] at hstring
        simp only [readKey, hquoted, if_neg (not_not_intro rfl), Window.stop_cons]
        exact hstring.bind_ended
      | ok found =>
        rw [quoted_of_ok hquoted] at hstring
        simp only [readKey, hquoted, if_neg (not_not_intro rfl)]
        refine .bind hstring ?_
        cases Json.readString? (Byte.quote :: found.1) with
        | none => exact .refuse _
        | some key => exact comes_colon h key _
    · have hfirst : some b ≠ some Byte.quote := fun hsome ↦ hquote (Option.some.inj hsome)
      rw [if_pos hfirst, readKey]
      simp only [if_pos (show b ≠ Byte.quote from hquote)]
      exact .refuse _

end Scanning

/-! ## Members -/

/-- A member with the place of its value. -/
def Member.spanned (m : Member κ) : κ × Span := (m.key, m.value.span)

/-- What requests for the items of a split are answered, if values are answered by their places. -/
def spans (items : List (Except Failure (Member κ))) (n : Nat) :
    Option (Except Failure (κ × Span)) :=
  items[n]?.map (Except.map Member.spanned)

/-- A scanner scans what a container splits. -/
structure Scanner.Follows (scanner : Scanner κ) (c : Container κ) (r : Resource)
    (bytes : List UInt8) (stop : Nat) : Prop where
  opener : scanner.opener = c.opener
  closer : scanner.closer = c.closer
  key : ∀ {w : Window}, w.bytes ≠ [] → Comes bytes stop (scanner.key r) w (c.key w)

/-- A step of a split, and what the scan of its member comes to. A broken member is left to be
resumed behind. -/
inductive Finds (c : Container κ) : SplitStep κ → KeyStep (Option ((κ × Span) × Bool)) → Prop
  | more (m : Member κ) (rest : Window) :
    Finds c (.more (.ok m) rest) (.read (some (m.spanned, true)) rest)
  | last (m : Member κ) (rest : Window) :
    Finds c (.last [.ok m]) (.read (some (m.spanned, false)) rest)
  | closed (rest : Window) : Finds c (.last []) (.read none rest)
  | broken (failure : Failure) : Finds c (.last [.error failure]) (.ended failure)
  | resumed (failure : Failure) (rest : Window) :
    Finds c (c.resume failure rest) (.refused failure rest)

namespace Scanner

open Scanning

variable {scanner : Scanner κ} {c : Container κ}

theorem follows_list (r : Resource) (bytes : List UInt8) (stop : Nat) :
    list.Follows Container.list r bytes stop :=
  ⟨rfl, rfl, fun _ ↦ .pure ()⟩

theorem follows_dict (h : r.Serves bytes) (stop : Nat) :
    dict.Follows Container.dict r bytes stop :=
  ⟨rfl, rfl, comes_entryKey h⟩

namespace Follows

theorem comes_delimiter (hs : scanner.Follows c r bytes stop) (h : r.Serves bytes) (w : Window) :
    (∃ rest, c.delimiter w = .ok (some rest) ∧
      Comes bytes stop (scanner.delimiter r) w (.read true rest)) ∨
    (∃ rest, c.delimiter w = .ok none ∧
      Comes bytes stop (scanner.delimiter r) w (.read false rest)) ∨
    ∃ failure, c.delimiter w = .error failure ∧
      Comes bytes stop (scanner.delimiter r) w (.ended failure) := by
  obtain ⟨offset, _ | ⟨b, rest⟩⟩ := w
  · exact .inr (.inr ⟨_, rfl, .bind comes_position (.bind (comes_next_nil h offset) (.fail _))⟩)
  · have hnext {e : KeyStep Bool} (he : Comes bytes stop
        (if b = Byte.comma then pure true else if b = scanner.closer then pure false
          else throw (.split (Window.unexpected offset b))) ⟨offset + 1, rest⟩ e) :
        Comes bytes stop (scanner.delimiter r) ⟨offset, b :: rest⟩ e :=
      .bind comes_position (.bind (comes_next h offset b rest) he)
    simp only [Container.delimiter]
    by_cases hcomma : b = Byte.comma
    · rw [if_pos hcomma] at hnext ⊢
      exact .inl ⟨_, rfl, hnext (.pure true)⟩
    · rw [if_neg hcomma] at hnext ⊢
      rw [hs.closer] at hnext
      by_cases hcloser : b = c.closer
      · rw [if_pos hcloser] at hnext ⊢
        exact .inr (.inl ⟨_, rfl, hnext (.pure false)⟩)
      · rw [if_neg hcloser] at hnext ⊢
        exact .inr (.inr ⟨_, rfl, hnext (.fail _)⟩)

theorem exists_finds_value (hs : scanner.Follows c r bytes stop) (h : r.Serves bytes) (key : κ)
    (w : Window) :
    ∃ e, Finds c (c.value key w) e ∧ Comes bytes stop (scanner.held r key) w e := by
  have hvalue : Comes bytes stop (value r w.bytes.length { stop := w.offset }) w _ :=
    comes_value h { stop := w.offset } w (Nat.le_refl _)
  rw [Passed.through_start] at hvalue
  rw [Container.value]
  cases hmember : Scan.member {} [] w.bytes with
  | error cut =>
    simp only [hmember] at hvalue ⊢
    exact ⟨_, .broken _, .bind comes_position (.bind comes_remaining hvalue.bind_ended)⟩
  | ok found =>
    simp only [hmember] at hvalue ⊢
    cases hstray : Scan.stray {} false 0 found.1 with
    | some stray =>
      simp only [hstray] at hvalue ⊢
      exact ⟨_, .resumed _ _, .bind comes_position (.bind comes_remaining hvalue.bind_refused)⟩
    | none =>
      simp only [hstray] at hvalue ⊢
      let m : Member κ := ⟨key, w.offset, Window.trimEnd found.1⟩
      have hheld {e : KeyStep (Option ((κ × Span) × Bool))}
          (he : Comes bytes stop (do let more ← scanner.delimiter r; return some (m.spanned, more))
            ⟨w.offset + found.1.length, found.2⟩ e) :
          Comes bytes stop (scanner.held r key) w e := by
        refine .bind comes_position (.bind comes_remaining (.bind hvalue ?_))
        rw [Nat.add_sub_cancel_left]
        exact he
      -- In front of a closing bracket of the wrong kind the value is empty, and fails only here.
      obtain ⟨rest, hdelimiter, hrest⟩ | ⟨rest, hdelimiter, hrest⟩ | ⟨failure, hdelimiter, hfailure⟩
        := hs.comes_delimiter h ⟨w.offset + found.1.length, found.2⟩
      · rw [hdelimiter]
        exact ⟨_, .more m rest, hheld (.bind hrest (.pure _))⟩
      · rw [hdelimiter]
        exact ⟨_, .last m rest, hheld (.bind hrest (.pure _))⟩
      · rw [hdelimiter]
        exact ⟨_, .broken failure, hheld hfailure.bind_ended⟩

theorem exists_finds_keyed (hs : scanner.Follows c r bytes stop) (h : r.Serves bytes) (key : κ)
    (w : Window) :
    ∃ e, Finds c
      (match w.trimStart.bytes with
      | [] => .last [.error (endOfInput w.offset)]
      | b :: _ =>
        if b = Byte.comma || b = c.closer then
          c.resume (Window.unexpected w.trimStart.offset b) w.trimStart
        else c.value key w.trimStart) e ∧
      Comes bytes stop (scanner.keyed r key) w e := by
  have hfront : Comes bytes stop (peekNonBlank r) w _ := comes_peekNonBlank h
  generalize w.trimStart = front at hfront ⊢
  obtain ⟨offset, _ | ⟨b, rest⟩⟩ := front
  · exact ⟨_, .broken _, .bind comes_position (.bind hfront (.fail _))⟩
  · by_cases hbroken : (b = Byte.comma || b = c.closer) = true
    · simp only [if_pos hbroken]
      refine ⟨_, .resumed _ _, .bind comes_position (.bind hfront ?_)⟩
      simp only [List.head?_cons, hs.closer, if_pos hbroken]
      exact .bind comes_position (.refuse _)
    · simp only [if_neg hbroken]
      obtain ⟨e, hfinds, he⟩ := hs.exists_finds_value h key ⟨offset, b :: rest⟩
      refine ⟨e, hfinds, .bind comes_position (.bind hfront ?_)⟩
      simp only [List.head?_cons, hs.closer, if_neg hbroken]
      exact he

/-- One step of a split, and the same step of a scan. -/
theorem exists_finds (hs : scanner.Follows c r bytes stop) (h : r.Serves bytes)
    (afterComma : Bool) (w : Window) :
    ∃ e, Finds c (c.step afterComma w) e ∧ Comes bytes stop (scanner.member r afterComma) w e := by
  have hfront : Comes bytes stop (peekNonBlank r) w _ := comes_peekNonBlank h
  rw [Container.step]
  generalize w.trimStart = front at hfront ⊢
  obtain ⟨offset, _ | ⟨b, rest⟩⟩ := front
  · exact ⟨_, .broken _, .bind comes_position (.bind hfront (.fail _))⟩
  · have hmember {e : KeyStep (Option ((κ × Span) × Bool))}
        (he : Comes bytes stop
          (if b = c.closer then do
            let offset ← position
            let _ ← next r
            if afterComma then throw (.split (Window.unexpected offset b)) else return none
          else do scanner.keyed r (← scanner.key r)) ⟨offset, b :: rest⟩ e) :
        Comes bytes stop (scanner.member r afterComma) w e := by
      rw [← hs.closer] at he
      exact .bind comes_position (.bind hfront he)
    by_cases hcloser : b = c.closer
    · rw [if_pos hcloser] at hmember
      have hnext : Comes bytes stop (next r) ⟨offset, b :: rest⟩ _ := comes_next h offset b rest
      simp only [if_pos hcloser]
      cases afterComma with
      | true => exact ⟨_, .broken _, hmember (.bind comes_position (.bind hnext (.fail _)))⟩
      | false => exact ⟨_, .closed _, hmember (.bind comes_position (.bind hnext (.pure none)))⟩
    · rw [if_neg hcloser] at hmember
      have hkey := hs.key (w := ⟨offset, b :: rest⟩) (List.cons_ne_nil b rest)
      simp only [if_neg hcloser]
      cases hread : c.key ⟨offset, b :: rest⟩ with
      | ended failure =>
        rw [hread] at hkey
        exact ⟨_, .broken failure, hmember hkey.bind_ended⟩
      | refused failure v =>
        rw [hread] at hkey
        exact ⟨_, .resumed failure v, hmember hkey.bind_refused⟩
      | read key v =>
        rw [hread] at hkey
        obtain ⟨e, hfinds, he⟩ := hs.exists_finds_keyed h key v
        exact ⟨e, hfinds, hmember (.bind hkey he)⟩

/-- Behind a broken member a scan goes on where the split goes on, or both end. -/
theorem comes_resume (hs : scanner.Follows c r bytes stop) (h : r.Serves bytes)
    (failure : Failure) (w : Window) :
    (∃ rest, c.resume failure w = .more (.error failure) rest ∧
      Comes bytes stop (scanner.resume r) w (.read true rest)) ∨
    (∃ rest, c.resume failure w = .last [.error failure] ∧
      Comes bytes stop (scanner.resume r) w (.read false rest)) ∨
    ∃ second, c.resume failure w = .last [.error failure, .error second] ∧
      Comes bytes stop (scanner.resume r) w (.ended second) := by
  have hskip : Comes bytes stop (skip r) w _ := comes_skip h w
  rw [Container.resume]
  cases hmember : Scan.member {} [] w.bytes with
  | error cut =>
    simp only [hmember] at hskip
    exact .inr (.inr ⟨_, rfl, hskip.bind_ended⟩)
  | ok found =>
    simp only [hmember] at hskip ⊢
    obtain ⟨rest, hdelimiter, hrest⟩ | ⟨rest, hdelimiter, hrest⟩ | ⟨second, hdelimiter, hsecond⟩ :=
      hs.comes_delimiter h ⟨w.offset + found.1.length, found.2⟩
    · rw [hdelimiter]
      exact .inl ⟨rest, rfl, hskip.bind hrest⟩
    · rw [hdelimiter]
      exact .inr (.inl ⟨rest, rfl, hskip.bind hrest⟩)
    · rw [hdelimiter]
      exact .inr (.inr ⟨second, rfl, hskip.bind hsecond⟩)

end Follows

/-! ## Requests -/

/-- In between two requests, a scan and a split have the same still to answer, and the cursor is in
front of the window over which the split goes on. -/
inductive Mirrors (bytes : List UInt8) (stop : Nat) : State → Container.Splitting κ → Prop
  | pending {s : State} {failure : Failure} (hpending : s.pending = some failure) :
    Mirrors bytes stop s ⟨[.error failure], none⟩
  | done {s : State} (hpending : s.pending = none) (hdone : s.done = true) :
    Mirrors bytes stop s ⟨[], none⟩
  | ahead {s : State} {w : Window} (hpending : s.pending = none) (hdone : s.done = false)
    (hw : s.cursor.Faces bytes stop w) : Mirrors bytes stop s ⟨[], some (s.afterComma, w)⟩

variable {s : State} {t : Container.Splitting κ}

/-- A request is answered alike, and leaves states that mirror each other. -/
theorem Mirrors.advance (hs : scanner.Follows c r bytes stop) (h : r.Serves bytes)
    (hst : Mirrors bytes stop s t) :
    (scanner.advance r s).1 = (t.advance c).1.map (Except.map Member.spanned) ∧
      Mirrors bytes stop (scanner.advance r s).2 (t.advance c).2 := by
  rw [Scanner.advance]
  cases hst with
  | pending hpending =>
    simp only [hpending]
    exact ⟨rfl, .done rfl rfl⟩
  | done hpending hdone =>
    simp only [hpending, hdone]
    exact ⟨rfl, .done hpending hdone⟩
  | @ahead w hpending hdone hw =>
    obtain ⟨e, hfinds, he⟩ := hs.exists_finds h s.afterComma w
    have hmember := he s.cursor hw
    simp only [hpending, hdone, Container.Splitting.advance]
    generalize c.step s.afterComma w = step at hfinds ⊢
    cases hfinds with
    | more m rest =>
      obtain ⟨cursor, hok, hc⟩ := hmember.exists_ok
      rw [hok]
      exact ⟨rfl, .ahead rfl rfl hc⟩
    | last m rest =>
      obtain ⟨cursor, hok, -⟩ := hmember.exists_ok
      rw [hok]
      exact ⟨rfl, .done rfl rfl⟩
    | closed rest =>
      obtain ⟨cursor, hok, -⟩ := hmember.exists_ok
      rw [hok]
      exact ⟨rfl, .done rfl rfl⟩
    | broken failure =>
      obtain ⟨cursor, herror⟩ := hmember.exists_split
      rw [herror]
      exact ⟨rfl, .done rfl rfl⟩
    | resumed failure rest =>
      -- The failure is answered now, and where the split goes on is looked for now as well. If that
      -- fails too, the second failure waits for the next request.
      obtain ⟨cursor, herror, hc⟩ := hmember.exists_member
      obtain ⟨v, hresume, hv⟩ | ⟨v, hresume, hv⟩ | ⟨second, hresume, hsecond⟩ :=
        hs.comes_resume h failure rest
      · obtain ⟨cursor', hok, hc'⟩ := (hv cursor hc).exists_ok
        simp only [herror, hresume, hok]
        exact ⟨rfl, .ahead rfl rfl hc'⟩
      · obtain ⟨cursor', hok, -⟩ := (hv cursor hc).exists_ok
        simp only [herror, hresume, hok]
        exact ⟨rfl, .done rfl rfl⟩
      · obtain ⟨cursor', hsplit⟩ := (hsecond cursor hc).exists_split
        simp only [herror, hresume, hsplit]
        exact ⟨rfl, .pending rfl⟩

theorem Mirrors.answer_eq (hs : scanner.Follows c r bytes stop) (h : r.Serves bytes)
    (hst : Mirrors bytes stop s t) (n : Nat) :
    scanner.answer r s n = (t.answer c n).map (Except.map Member.spanned) := by
  induction n generalizing s t with
  | zero => exact (hst.advance hs h).1
  | succ n ih => exact ih (hst.advance hs h).2

/-! ## Going into a container -/

/-- A split before the first request, and what the scan of the front comes to. -/
inductive Enters : Except Failure (Container.Splitting κ) → KeyStep Bool → Prop
  | container (rest : Window) : Enters (.ok ⟨[], some (false, rest)⟩) (.read true rest)
  | null (rest : Window) : Enters (.ok ⟨[], none⟩) (.read false rest)
  | failed (failure : Failure) : Enters (.error failure) (.ended failure)

theorem Follows.exists_enters (hs : scanner.Follows c r bytes stop) (h : r.Serves bytes)
    (w : Window) :
    ∃ e, Enters (c.opened w) e ∧ Comes bytes stop (scanner.enter r) w e := by
  have hfront : Comes bytes stop (peekNonBlank r) w _ := comes_peekNonBlank h
  rw [Container.opened]
  generalize w.trimStart = front at hfront ⊢
  obtain ⟨offset, _ | ⟨b, rest⟩⟩ := front
  · exact ⟨_, .failed _, .bind comes_position (.bind hfront (.fail _))⟩
  · have henter {e : KeyStep Bool}
        (he : Comes bytes stop
          (if b = c.opener then do
            let _ ← next r
            return true
          else if b = 0x6E then do
            word r offset [0x6E, 0x75, 0x6C, 0x6C]
            return false
          else throw (.split (Window.unexpected offset b))) ⟨offset, b :: rest⟩ e) :
        Comes bytes stop (scanner.enter r) w e := by
      rw [← hs.opener] at he
      exact .bind comes_position (.bind hfront (.bind comes_position he))
    by_cases hopener : b = c.opener
    · rw [if_pos hopener] at henter
      simp only [if_pos hopener]
      exact ⟨_, .container _, henter (.bind (comes_next h offset b rest) (.pure true))⟩
    · rw [if_neg hopener] at henter
      by_cases hnull : b = 0x6E
      · rw [if_pos hnull] at henter
        simp only [if_neg hopener, if_pos hnull]
        obtain ⟨v, hword, hv⟩ | ⟨failure, hword, hfailure⟩ :=
          comes_word stop h offset [0x6E, 0x75, 0x6C, 0x6C] ⟨offset, b :: rest⟩
        · rw [hword]
          exact ⟨_, .null v, henter (.bind hv (.pure false))⟩
        · rw [hword]
          exact ⟨_, .failed failure, henter hfailure.bind_ended⟩
      · rw [if_neg hnull] at henter
        simp only [if_neg hopener, if_neg hnull]
        exact ⟨_, .failed _, henter (.fail _)⟩

/-- A cursor that is started faces the window of the bytes. -/
theorem faces_start (h : r.Serves bytes) (offset : Nat) (length : Option Nat) {pieceSize : Nat}
    (hsize : 0 < pieceSize) :
    let stop := length.elim r.size fun n ↦ offset + n
    { Cursor.start r offset stop with pieceSize }.Faces bytes stop
      (Window.ofBytes bytes offset length) where
  isAt := Cursor.isAt_start h offset _ hsize
  bytes_eq := by
    cases length with
    | none =>
      rw [Option.elim_none, h.size, List.take_length]
      rfl
    | some n =>
      show (bytes.drop offset).take n = (bytes.take (offset + n)).drop offset
      rw [List.drop_take, Nat.add_sub_cancel_left]

theorem Follows.start_eq (hs : ∀ stop, scanner.Follows c r bytes stop) (h : r.Serves bytes)
    (offset : Nat) (length : Option Nat) {pieceSize : Nat} (hsize : 0 < pieceSize) :
    (scanner.start r offset length pieceSize).map (scanner.answer r) =
      (c.split (Window.ofBytes bytes offset length)).map spans := by
  -- The cursor stops where the window does, so all steps are about the bytes in front of that.
  have hs := hs (length.elim r.size fun n ↦ offset + n)
  obtain ⟨e, henters, he⟩ := hs.exists_enters h (Window.ofBytes bytes offset length)
  have henter := he _ (faces_start h offset length hsize)
  have hanswer {s : State} {t : Container.Splitting κ} (hst : Mirrors bytes _ s t) :
      scanner.answer r s = spans (t.remaining c) :=
    funext fun n ↦ (hst.answer_eq hs h n).trans (congrArg _ (t.answer_eq c n))
  rw [Container.split_eq_map_opened, Scanner.start]
  generalize c.opened (Window.ofBytes bytes offset length) = opened at henters ⊢
  cases henters with
  | container rest =>
    obtain ⟨cursor, hok, hc⟩ := henter.exists_ok
    simp only [hok]
    exact congrArg Except.ok (hanswer (.ahead rfl rfl hc))
  | null rest =>
    obtain ⟨cursor, hok, -⟩ := henter.exists_ok
    simp only [hok]
    exact congrArg Except.ok (hanswer (.done rfl rfl))
  | failed failure =>
    obtain ⟨cursor, herror⟩ := henter.exists_split
    simp only [herror]
    rfl

/-- Where a part of the window stands, a reader finds its bytes. -/
theorem readRange_span (h : r.Serves bytes) {offset : Nat} {length : Option Nat}
    (hv : (Window.ofBytes bytes offset length).Contains v) :
    (r.readRange v.span.offset v.span.length).1 = .ok v.bytes := by
  obtain ⟨before, after, hbytes, hoffset⟩ := hv
  obtain ⟨rest, hrest⟩ : (Window.ofBytes bytes offset length).bytes <+: bytes.drop offset := by
    cases length with
    | none => exact List.prefix_refl _
    | some n => exact List.take_prefix n _
  have hdrop : bytes.drop v.offset = v.bytes ++ (after ++ rest) := by
    rw [hoffset]
    show bytes.drop (offset + before.length) = _
    rw [← List.drop_drop, ← hrest, hbytes, List.append_assoc, List.append_assoc, List.drop_left]
  have hlength : v.bytes.length ≤ bytes.length - v.offset := by
    rw [← List.length_drop, hdrop, List.length_append]
    exact Nat.le_add_right _ _
  rw [Resource.readRange, h.readOn_eq, if_pos]
  · show Except.ok ((bytes.drop v.offset).take v.bytes.length) = _
    rw [hdrop, List.take_left]
  · show v.bytes.length = 0 ∨ v.offset + v.bytes.length ≤ bytes.length
    omega

theorem readRange_boundary {holds : Window → κ → Window → Prop} (hkeys : c.ReadsKeys holds)
    (h : r.Serves bytes) {offset : Nat} {length : Option Nat}
    {items : List (Except Failure (Member κ))}
    (hsplit : c.split (Window.ofBytes bytes offset length) = .ok items) :
    ∀ v ∈ Container.boundaries items,
      (r.readRange v.span.offset v.span.length).1 = .ok v.bytes := by
  intro v hv
  rw [Container.split_eq_map_opened] at hsplit
  cases hopened : c.opened (Window.ofBytes bytes offset length) with
  | error failure => exact nomatch hopened ▸ hsplit
  | ok t =>
    rw [hopened] at hsplit
    obtain rfl := Except.ok.inj hsplit
    exact readRange_span h ((Container.isSafe_remaining hkeys hopened).contains v hv)

/-- **A scanner splits what is served.** Over a resource that serves bytes, in whatever pieces, the
scan of a list or a dictionary starts exactly if the split of the window does, and answers request
after request its items, each value by its place, for every size of the pieces it asks for. -/
theorem start_eq_split (h : r.Serves bytes) (offset : Nat) (length : Option Nat)
    {pieceSize : Nat} (hsize : 0 < pieceSize) :
    let w := Window.ofBytes bytes offset length
    (list.start r offset length pieceSize).map (list.answer r) =
      (Container.list.split w).map spans ∧
    (dict.start r offset length pieceSize).map (dict.answer r) =
      (Container.dict.split w).map spans :=
  ⟨Follows.start_eq (follows_list r bytes) h offset length hsize,
    Follows.start_eq (follows_dict h) h offset length hsize⟩

/-- The list `[1,,2]`, of which each byte is served by itself. -/
example :
    let r := Resource.cutting [0x5B, 0x31, 0x2C, 0x2C, 0x32, 0x5D] fun _ _ ↦ 1
    (list.start r 0 none 8).map (fun s ↦ (List.range 4).map (list.answer r s)) =
      .ok [some (.ok ((), ⟨1, 1⟩)), some (.error (.unexpectedToken 3 ",")),
        some (.ok ((), ⟨4, 1⟩)), none] := by
  rfl

end Scanner

end TypedJson
