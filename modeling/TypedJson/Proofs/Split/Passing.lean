import TypedJson.Proofs.Split.Layout
import TypedJson.Split.Scanner

/-!
# Passing over a value

A split looks for the end of a member first and for a stray byte in it afterwards; a scanner finds
both byte by byte. `Passed.through` is what the end and the stray byte come to if a part of the
value has been passed already. Before anything is passed it is what the split finds
(`Passed.through_start`), and passing one more byte, or a string as a whole, does not change it.
-/

namespace TypedJson

open Resource (endOfInput)

theorem Window.trimEnd_append_of_solid {front : List UInt8}
    (hlast : ∃ b, front.getLast? = some b ∧ Text.isJsonBlank b = false) (bytes : List UInt8) :
    trimEnd (front ++ bytes) = front ++ trimEnd bytes := by
  obtain ⟨b, hb, hblank⟩ := hlast
  obtain ⟨front, rfl⟩ := List.getLast?_eq_some_iff.mp hb
  rw [trimEnd, trimEnd, List.reverse_append, List.dropWhile_append]
  by_cases hempty : (bytes.reverse.dropWhile Text.isJsonBlank).isEmpty = true
  · rw [if_pos hempty, List.isEmpty_iff.mp hempty]
    simp [hblank]
  · rw [if_neg hempty]
    simp

theorem Window.trimEnd_cons_of_isJsonBlank {b : UInt8} (hb : Text.isJsonBlank b = true)
    (bytes : List UInt8) :
    trimEnd (b :: bytes) = if trimEnd bytes = [] then [] else b :: trimEnd bytes := by
  rw [trimEnd, trimEnd, List.reverse_cons, List.dropWhile_append]
  by_cases hempty : (bytes.reverse.dropWhile Text.isJsonBlank).isEmpty = true
  · rw [if_pos hempty, List.isEmpty_iff.mp hempty]
    simp [hb]
  · rw [if_neg hempty]
    simp [List.isEmpty_iff.not.mp hempty]

theorem Window.stop_cons (offset : Nat) (b : UInt8) (rest : List UInt8) :
    Window.stop ⟨offset, b :: rest⟩ = Window.stop ⟨offset + 1, rest⟩ := by
  simp only [Window.stop, List.length_cons, Nat.add_assoc, Nat.add_comm 1]

/-! ## Ends and stray bytes -/

namespace Scan

variable {s : State} {closers bytes body rest : List UInt8} {b : UInt8}

theorem member_eq_map (s : State) (read bytes : List UInt8) :
    member s read bytes =
      (member s [] bytes).map fun found ↦ (read.reverse ++ found.1, found.2) := by
  induction bytes generalizing s read with
  | nil => rfl
  | cons b bytes ih =>
    rw [member, member]
    by_cases hstops : s.stops b = true
    · simp [hstops, Except.map]
    · rw [if_neg hstops, if_neg hstops, ih _ (b :: read), ih _ [b]]
      cases member (s.step b) [] bytes with
      | error cut => rfl
      | ok found => simp [Except.map]

/-- A byte that ends no member belongs to the member in front of which it stands. -/
theorem member_cons (hstops : s.stops b = false) (bytes : List UInt8) :
    member s [] (b :: bytes) =
      (member (s.step b) [] bytes).map fun found ↦ (b :: found.1, found.2) := by
  rw [member, hstops, if_neg Bool.false_ne_true, member_eq_map]
  rfl

/-- So does a string. -/
theorem member_quote (h : string [] bytes = .ok (body, rest)) :
    member { closers } [] (Byte.quote :: bytes) =
      (member { closers } [] rest).map fun found ↦ (Byte.quote :: body ++ found.1, found.2) := by
  obtain ⟨text, hbody, rfl, htext⟩ := exists_of_string h
  obtain rfl : body = text := hbody
  have hnested : Nested Byte.IsSolid (Byte.quote :: body) := .of_isQuoted htext
  have hcrosses : Crosses { closers } (Byte.quote :: body) { closers } :=
    hnested.crosses fun _ _ hb ↦ hb
  rw [← List.cons_append, hcrosses.member_append, member_eq_map]
  simp

theorem member_of_string {read read' : List UInt8} {cut : Nat}
    (h : string read bytes = .error cut) :
    member { closers, mode := .string } read' bytes = .error cut := by
  fun_induction string read bytes generalizing read' with
  | case1 =>
    cases h
    rfl
  | case2 => cases h
  | case3 =>
    cases h
    rfl
  | case4 read escaped bytes hne ih => exact ih h
  | case5 read b bytes hquote hescape ih =>
    rw [member, if_neg (by simp [State.stops, State.isOutside])]
    simp only [State.step, if_neg hquote, if_neg hescape]
    exact ih h

theorem step_quote (closers : List UInt8) :
    State.step { closers } Byte.quote = { closers, mode := .string } := rfl

/-- A byte in a string is not stray. -/
theorem stray_quoted (h : IsQuoted body) (i : Nat) (rest : List UInt8) :
    stray { closers, mode := .string } false i (body ++ rest) =
      stray { closers } false (i + body.length) rest := by
  induction h generalizing i with
  | close => simp [stray, State.mismatches, State.step]
  | character hquote hescape _ ih =>
    simp [stray, State.mismatches, State.step, hquote, hescape, ih, Nat.add_assoc, Nat.add_comm 1]
  | escape _ ih =>
    have hne : Byte.backslash ≠ Byte.quote := by decide
    simp [stray, State.mismatches, State.step, hne, ih, Nat.add_assoc, Nat.add_comm 2]

theorem stray_add (s : State) (afterBlank : Bool) (k i : Nat) (bytes : List UInt8) :
    stray s afterBlank (k + i) bytes =
      (stray s afterBlank i bytes).map fun found ↦ (k + found.1, found.2) := by
  induction bytes generalizing s afterBlank i with
  | nil => rfl
  | cons b bytes ih =>
    rw [stray, stray, Nat.add_assoc, ih, ih]
    split
    · rfl
    · split <;> rfl

end Scan

/-! ## What is left of a value -/

namespace Passed

variable {s t : Passed} {offset : Nat} {b : UInt8} {bytes front body rest : List UInt8}

/-- The first stray byte, if `raw` is what is left of the value. -/
def strayIn (s : Passed) (offset : Nat) (raw : List UInt8) : Option (Nat × UInt8) :=
  s.stray <|> Scan.stray { closers := s.closers } s.afterBlank offset raw

/-- The offset behind the last byte that is no blank, if `raw` is what is left of the value. -/
def stopIn (s : Passed) (offset : Nat) (raw : List UInt8) : Nat :=
  if Window.trimEnd raw = [] then s.stop else offset + (Window.trimEnd raw).length

/-- What the value comes to, if `raw` is what is left of it and a window is behind it. -/
def outcome (s : Passed) (offset : Nat) (raw : List UInt8) (rest : Window) : KeyStep Nat :=
  match s.strayIn offset raw with
  | some (i, b) => .refused (Window.unexpected i b) rest
  | none => .read (s.stopIn offset raw) rest

/-- What the value comes to whose rest is at the front of a window. -/
def through (s : Passed) (w : Window) : KeyStep Nat :=
  match Scan.member { closers := s.closers } [] w.bytes with
  | .error cut => .ended (endOfInput (w.stop - cut))
  | .ok (raw, rest) => s.outcome w.offset raw ⟨w.offset + raw.length, rest⟩

theorem through_nil (s : Passed) (offset : Nat) :
    s.through ⟨offset, []⟩ = .ended (endOfInput offset) := rfl

/-- The value ends in front of a delimiter outside its brackets. -/
theorem through_delimiter (hb : Byte.isDelimiter b = true) (hclosers : s.closers = [])
    (offset : Nat) (rest : List UInt8) :
    s.through ⟨offset, b :: rest⟩ = s.outcome offset [] ⟨offset, b :: rest⟩ := by
  have hstops : Scan.State.stops { closers := s.closers } b = true := by
    rw [hclosers, Scan.State.stops, hb]
    rfl
  rw [through]
  simp only [Scan.member, if_pos hstops, List.reverse_nil]
  rfl

/-- A part of the value is passed. -/
theorem through_append (offset : Nat) (front bytes : List UInt8)
    (hmember : Scan.member { closers := s.closers } [] (front ++ bytes) =
      (Scan.member { closers := t.closers } [] bytes).map fun found ↦ (front ++ found.1, found.2))
    (hstray : ∀ raw, s.strayIn offset (front ++ raw) = t.strayIn (offset + front.length) raw)
    (hstop : ∀ raw, s.stopIn offset (front ++ raw) = t.stopIn (offset + front.length) raw) :
    s.through ⟨offset, front ++ bytes⟩ = t.through ⟨offset + front.length, bytes⟩ := by
  have hsame : Window.stop ⟨offset, front ++ bytes⟩ =
      Window.stop ⟨offset + front.length, bytes⟩ := by
    simp only [Window.stop, List.length_append, Nat.add_assoc]
  rw [through, through]
  simp only [hmember, hsame]
  cases Scan.member { closers := t.closers } [] bytes with
  | error cut => rfl
  | ok found => simp only [Except.map, outcome, hstray, hstop, List.length_append, Nat.add_assoc]

/-- A blank is passed. -/
theorem through_blank (hb : Text.isJsonBlank b = true) (offset : Nat) (rest : List UInt8) :
    s.through ⟨offset, b :: rest⟩ = { s with afterBlank := true }.through ⟨offset + 1, rest⟩ := by
  have hstep : Scan.State.step { closers := s.closers } b = { closers := s.closers } :=
    Scan.step_of_blank rfl hb
  refine through_append offset [b] rest ?_ (fun raw ↦ ?_) fun raw ↦ ?_
  · rw [List.singleton_append, Scan.member_cons, hstep]
    · rfl
    · rw [Scan.State.stops, Scan.not_isDelimiter_of_blank hb, Bool.and_false]
  · rw [strayIn, List.singleton_append, Scan.stray, if_pos ⟨rfl, hb⟩, hstep]
    rfl
  · rw [stopIn, stopIn, List.singleton_append, Window.trimEnd_cons_of_isJsonBlank hb]
    split
    · rfl
    · simp [Nat.add_assoc, Nat.add_comm 1]

/-- The last byte of what is passed is no blank. -/
theorem stopIn_append (hlast : ∃ b, front.getLast? = some b ∧ Text.isJsonBlank b = false)
    (ht : t.stop = offset + front.length) (raw : List UInt8) :
    s.stopIn offset (front ++ raw) = t.stopIn (offset + front.length) raw := by
  have hne : front ≠ [] := by
    rintro rfl
    obtain ⟨b, hb, -⟩ := hlast
    cases hb
  rw [stopIn, stopIn, Window.trimEnd_append_of_solid hlast, ht]
  by_cases hempty : Window.trimEnd raw = []
  · simp [hempty, hne]
  · simp [hempty, Nat.add_assoc]

/-- The first stray byte is the one that is passed, or comes later. -/
theorem strayIn_pass {later : Option (Nat × UInt8)} (isStray : Bool) (offset : Nat) (b : UInt8) :
    (s.stray <|> if isStray then some (offset, b) else later) =
      ((s.stray <|> if isStray then some (offset, b) else none) <|> later) := by
  cases s.stray <;> cases isStray <;> rfl

/-- A byte that is neither a blank nor a delimiter nor a quote is passed. -/
theorem through_pass (hstops : ¬ (Byte.isDelimiter b && s.closers.isEmpty) = true)
    (hblank : ¬ Text.isJsonBlank b = true) (hquote : b ≠ Byte.quote) (offset : Nat)
    (rest : List UInt8) :
    s.through ⟨offset, b :: rest⟩ =
      { s.pass offset b with stop := offset + 1 }.through ⟨offset + 1, rest⟩ := by
  have hstep : Scan.State.step { closers := s.closers } b =
      { closers := (s.pass offset b).closers } := by
    simp only [Scan.State.step, if_neg hquote, pass]
    split_ifs <;> rfl
  refine through_append offset [b] rest ?_ (fun raw ↦ ?_) (stopIn_append ?_ rfl)
  · rw [List.singleton_append, Scan.member_cons, hstep]
    · rfl
    · rw [Scan.State.stops, Bool.and_comm]
      exact Bool.eq_false_iff.mpr hstops
  · rw [strayIn, List.singleton_append, Scan.stray, if_neg fun h ↦ hblank h.2, hstep]
    exact strayIn_pass _ offset b
  · exact ⟨b, rfl, Bool.eq_false_iff.mpr hblank⟩

/-- A string is passed. -/
theorem through_quote (h : Scan.string [] bytes = .ok (body, rest)) (offset : Nat) :
    s.through ⟨offset, Byte.quote :: bytes⟩ =
      { s.pass offset Byte.quote with stop := offset + 1 + body.length }.through
        ⟨offset + 1 + body.length, rest⟩ := by
  obtain ⟨text, hbody, rfl, htext⟩ := Scan.exists_of_string h
  obtain rfl : body = text := hbody
  have hlength : offset + (Byte.quote :: body).length = offset + 1 + body.length := by
    rw [List.length_cons, Nat.add_right_comm]
    rfl
  rw [← List.cons_append, ← hlength]
  refine through_append offset (Byte.quote :: body) rest ?_ (fun raw ↦ ?_) (stopIn_append ?_ rfl)
  · exact Scan.member_quote h
  · rw [strayIn, List.cons_append, Scan.stray, if_neg fun h ↦ absurd h.2 (by decide),
      Scan.step_quote, Scan.stray_quoted htext, hlength]
    exact strayIn_pass _ offset Byte.quote
  · refine ⟨Byte.quote, ?_, by decide⟩
    rw [List.getLast?_cons, htext.getLast?]
    rfl

/-- A string that does not end leaves the value without an end. -/
theorem through_quote_error {cut : Nat} (h : Scan.string [] bytes = .error cut) (offset : Nat) :
    s.through ⟨offset, Byte.quote :: bytes⟩ =
      .ended (endOfInput (offset + 1 + bytes.length - cut)) := by
  have hmember : Scan.member { closers := s.closers } [] (Byte.quote :: bytes) = .error cut := by
    rw [Scan.member_cons, Scan.step_quote, Scan.member_of_string h]
    · rfl
    · rw [Scan.State.stops, show Byte.isDelimiter Byte.quote = false from rfl, Bool.and_false]
  have hstop : Window.stop ⟨offset, Byte.quote :: bytes⟩ = offset + 1 + bytes.length := by
    simp only [Window.stop, List.length_cons, Nat.add_assoc, Nat.add_comm 1]
  rw [through]
  simp only [hmember, hstop]

/-- If nothing is passed yet, this is the end of the member and the first stray byte of it. -/
theorem through_start (w : Window) :
    through { stop := w.offset } w =
      match Scan.member {} [] w.bytes with
      | .error cut => .ended (endOfInput (w.stop - cut))
      | .ok (raw, rest) =>
        match Scan.stray {} false 0 raw with
        | some (i, b) =>
          .refused (Window.unexpected (w.offset + i) b) ⟨w.offset + raw.length, rest⟩
        | none =>
          .read (w.offset + (Window.trimEnd raw).length) ⟨w.offset + raw.length, rest⟩ := by
  rw [through]
  cases Scan.member {} [] w.bytes with
  | error cut => rfl
  | ok found =>
    have hstray : strayIn { stop := w.offset } w.offset found.1 =
        (Scan.stray {} false 0 found.1).map fun stray ↦ (w.offset + stray.1, stray.2) :=
      Scan.stray_add {} false w.offset 0 found.1
    have hstop : stopIn { stop := w.offset } w.offset found.1 =
        w.offset + (Window.trimEnd found.1).length := by
      rw [stopIn]
      split
      · next hempty => rw [hempty, List.length_nil, Nat.add_zero]
      · rfl
    simp only [outcome, hstray, hstop]
    cases Scan.stray {} false 0 found.1 <;> rfl

end Passed

end TypedJson
