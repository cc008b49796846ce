import TypedJson.Proofs.Json.Parsed

/-!
# Crossings

The scan that looks for the end of a member knows no grammar. It *crosses* bytes if it neither stops
on the way nor finds a stray byte there. Strings and brackets are crossed in every state outside
strings, and the scan comes back to the state it started in.
-/

namespace TypedJson

namespace Byte

/-- The bytes that mean something to a scan outside strings. -/
def special : List UInt8 :=
  [0x20, 0x09, 0x0A, 0x0D, comma, closeList, closeDict, quote, openList, openDict]

variable {b : UInt8}

theorem isJsonBlank_of_not_special (h : b ∉ special) : Text.isJsonBlank b = false := by
  simp only [special, List.mem_cons, List.not_mem_nil, or_false, not_or] at h
  simp [Text.isJsonBlank, h]

end Byte

namespace Scan

/-- The scan goes from one state to another over some bytes, and neither does a member end among
them nor is one of them stray. -/
inductive Crosses : State → List UInt8 → State → Prop
  | nil {s : State} : Crosses s [] s
  | cons {s t : State} {b : UInt8} {bytes : List UInt8} (hstops : s.stops b = false)
      (hmismatches : s.mismatches b = false)
      (hblank : s.isOutside = true → Text.isJsonBlank b = false)
      (h : Crosses (s.step b) bytes t) : Crosses s (b :: bytes) t

/-! ## What a crossing is for -/

section

variable {s t u : State} {bytes rest : List UInt8}

theorem Crosses.append (h : Crosses s bytes t) (h' : Crosses t rest u) :
    Crosses s (bytes ++ rest) u := by
  induction h with
  | nil => exact h'
  | cons hstops hmismatches hblank _ ih => exact .cons hstops hmismatches hblank (ih h')

theorem Crosses.member_append (h : Crosses s bytes t) (read rest : List UInt8) :
    member s read (bytes ++ rest) = member t (bytes.reverse ++ read) rest := by
  induction h generalizing read with
  | nil => rfl
  | cons hstops _ _ _ ih =>
    rw [List.cons_append, member, hstops, if_neg Bool.false_ne_true, ih, List.reverse_cons,
      List.append_assoc]
    rfl

/-- Blanks change nothing outside strings. -/
theorem step_of_blank {b : UInt8} (hmode : s.mode = .plain) (hb : Text.isJsonBlank b = true) :
    s.step b = s := by
  have hmem : ∀ c, Text.isJsonBlank c = false → b ≠ c := by
    rintro c hc rfl
    exact Bool.false_ne_true (hc.symm.trans hb)
  simp [State.step, hmode, Byte.isCloser, hmem Byte.quote rfl, hmem Byte.openList rfl,
    hmem Byte.openDict rfl, hmem Byte.closeList rfl, hmem Byte.closeDict rfl]

theorem isOutside_eq_true : s.isOutside = true ↔ s.mode = .plain ∧ s.closers = [] := by
  simp [State.isOutside]

/-- On the way, a blank is read within brackets only. -/
theorem Crosses.stray_append (h : Crosses s bytes t) {afterBlank : Bool} {i : Nat}
    (hs : afterBlank = true → s.isOutside = false) :
    ∃ blank, (blank = true → t.isOutside = false) ∧ ∀ rest,
      stray s afterBlank i (bytes ++ rest) = stray t blank (i + bytes.length) rest := by
  induction h generalizing afterBlank i with
  | nil => exact ⟨afterBlank, hs, fun rest ↦ rfl⟩
  | @cons s t b bytes _ hmismatches hblank _ ih =>
    have hfree : (afterBlank && s.isOutside || s.mismatches b) = false := by
      rw [hmismatches, Bool.or_false, Bool.and_eq_false_imp]
      exact hs
    by_cases hplain : s.mode = .plain ∧ Text.isJsonBlank b = true
    · have hinside : s.isOutside = false := by
        rw [Bool.eq_false_iff]
        intro hout
        exact Bool.false_ne_true ((hblank hout).symm.trans hplain.2)
      rw [step_of_blank hplain.1 hplain.2] at ih
      obtain ⟨blank, hb, hstray⟩ := ih (i := i + 1) fun _ : true = true ↦ hinside
      refine ⟨blank, hb, fun rest ↦ ?_⟩
      rw [List.cons_append, stray, if_pos hplain, step_of_blank hplain.1 hplain.2, hstray,
        List.length_cons, Nat.add_assoc, Nat.add_comm 1]
    · obtain ⟨blank, hb, hstray⟩ := ih (i := i + 1) fun h : false = true ↦ nomatch h
      refine ⟨blank, hb, fun rest ↦ ?_⟩
      rw [List.cons_append, stray, if_neg hplain, hfree, if_neg Bool.false_ne_true, hstray,
        List.length_cons, Nat.add_assoc, Nat.add_comm 1]

theorem not_isDelimiter_of_blank {b : UInt8} (h : Text.isJsonBlank b = true) :
    Byte.isDelimiter b = false := by
  simp only [Text.isJsonBlank, Bool.or_eq_true, beq_iff_eq] at h
  obtain ((rfl | rfl) | rfl) | rfl := h <;> rfl

theorem stray_blanks {blanks : List UInt8} (hblanks : Parsed.IsBlank blanks) (afterBlank : Bool)
    (i : Nat) : stray {} afterBlank i blanks = none := by
  induction blanks generalizing afterBlank i with
  | nil => rfl
  | cons b blanks ih =>
    have hb := hblanks b List.mem_cons_self
    rw [stray, if_pos ⟨rfl, hb⟩, step_of_blank rfl hb]
    exact ih (fun c hc ↦ hblanks c (List.mem_cons_of_mem b hc)) true (i + 1)

end

/-! ## Strings -/

/-- A string after its opening quote, as far as scans look at it. -/
inductive IsQuoted : List UInt8 → Prop
  | close : IsQuoted [Byte.quote]
  | character {b : UInt8} {bytes : List UInt8} (hquote : b ≠ Byte.quote)
      (hescape : b ≠ Byte.backslash) (h : IsQuoted bytes) : IsQuoted (b :: bytes)
  | escape {b : UInt8} {bytes : List UInt8} (h : IsQuoted bytes) :
      IsQuoted (Byte.backslash :: b :: bytes)

section

variable {closers bytes : List UInt8} {s t : State} {b : UInt8}

theorem IsQuoted.digit {n : Nat} (h : Json.hexValue? b = some n) (hbytes : IsQuoted bytes) :
    IsQuoted (b :: bytes) := by
  refine .character ?_ ?_ hbytes
  · rintro rfl
    cases h
  · rintro rfl
    cases h

theorem IsQuoted.unit {c d e f : UInt8} {unit : Nat} (hunit : Json.unit? c d e f = some unit)
    (h : IsQuoted bytes) : IsQuoted (Byte.backslash :: b :: c :: d :: e :: f :: bytes) := by
  simp only [Json.unit?, Option.bind_eq_bind, Option.bind_eq_some_iff] at hunit
  obtain ⟨_, hc, _, hd, _, he, _, hf, _⟩ := hunit
  exact .escape (.digit hc (.digit hd (.digit he (.digit hf h))))

theorem string_append (h : IsQuoted bytes) (read rest : List UInt8) :
    string read (bytes ++ rest) = .ok (read.reverse ++ bytes, rest) := by
  induction h generalizing read with
  | close =>
    rw [string.eq_def]
    simp
  | character hquote hescape _ ih =>
    rw [string.eq_def]
    simp [hquote, hescape, ih]
  | escape _ ih =>
    have hne : Byte.backslash ≠ Byte.quote := by decide
    rw [string.eq_def]
    simp [hne, ih]

theorem Crosses.cons_of_ne_plain (hmode : s.mode ≠ .plain) (h : Crosses (s.step b) bytes t) :
    Crosses s (b :: bytes) t := by
  have hout : s.isOutside = false := by simp [State.isOutside, hmode]
  refine .cons ?_ ?_ (fun htrue ↦ absurd htrue (Bool.eq_false_iff.mp hout)) h
  · rw [State.stops, hout, Bool.false_and]
  · simp [State.mismatches, hmode]

theorem crosses_quoted (h : IsQuoted bytes) :
    Crosses { closers, mode := .string } bytes { closers } := by
  induction h with
  | close => exact .cons_of_ne_plain (fun h ↦ nomatch h) .nil
  | character hquote hescape _ ih =>
    refine .cons_of_ne_plain (fun h ↦ nomatch h) ?_
    rw [State.step, if_neg hquote, if_neg hescape]
    exact ih
  | escape _ ih =>
    have hescape : (State.step { closers, mode := .string } Byte.backslash).mode ≠ .plain := by
      rw [State.step, if_neg (by decide), if_pos rfl]
      exact fun h ↦ nomatch h
    exact .cons_of_ne_plain (fun h ↦ nomatch h) (.cons_of_ne_plain hescape ih)

end

/-! ## Brackets -/

theorem crosses_brackets {closers bytes : List UInt8} {opener closer : UInt8}
    (hkind : opener = Byte.openList ∧ closer = Byte.closeList ∨
      opener = Byte.openDict ∧ closer = Byte.closeDict)
    (h : Crosses { closers := closer :: closers } bytes { closers := closer :: closers }) :
    Crosses { closers } (opener :: (bytes ++ [closer])) { closers } := by
  have hclose : Crosses { closers := closer :: closers } [closer] { closers } := by
    obtain ⟨-, rfl⟩ | ⟨-, rfl⟩ := hkind
    · exact .cons rfl rfl (fun _ ↦ rfl) .nil
    · exact .cons rfl rfl (fun _ ↦ rfl) .nil
  obtain ⟨rfl, rfl⟩ | ⟨rfl, rfl⟩ := hkind
  · exact .cons (Bool.and_false _) rfl (fun _ ↦ rfl) (h.append hclose)
  · exact .cons (Bool.and_false _) rfl (fun _ ↦ rfl) (h.append hclose)

end Scan

end TypedJson
