import TypedJson.Proofs.Json.Grammar
import TypedJson.Proofs.Split.Layout

/-!
# Tidy texts

Two rules of the grammar can be checked along a text without knowing what stands in it: outside
strings an `n` is the first letter of `null`, and behind `null` and behind a closing bracket stands
nothing but blanks, unless a bracket is open and a comma or a closing bracket follows. Those are the
rules that decoding relies on and does not check everywhere.

`Scan.Watch` is what has to be remembered to check them, and a text is tidy if a watch runs over all
of it. A run splits where bytes are put together (`Watch.run_append`), and what is tidy inside
brackets is tidy by itself (`Watch.run_under`). Texts of values are tidy
(`Grammar.IsElement.isTidy`).
-/

namespace TypedJson

namespace Scan

/-- A scan with what the two rules ask of the next byte. -/
structure Watch where
  scan : State := {}
  /-- The letters of a word that are still to come. -/
  due : List UInt8 := []
  /-- Behind `null` or a closing bracket. -/
  ended : Bool := false

namespace Watch

/-- The watch after a byte, unless the byte breaks a rule. -/
def step (t : Watch) (b : UInt8) : Option Watch :=
  match t.due with
  | c :: due => if b = c then some ⟨t.scan.step b, due, due.isEmpty⟩ else none
  | [] =>
    if t.scan.mode ≠ .plain then some ⟨t.scan.step b, [], false⟩
    else if Text.isJsonBlank b then some t
    else if t.ended && (t.scan.closers.isEmpty || !Byte.isDelimiter b) then none
    else some ⟨t.scan.step b, if b = 0x6E then [0x75, 0x6C, 0x6C] else [], Byte.isCloser b⟩

/-- The watch after bytes, unless they break a rule. -/
def run (t : Watch) : List UInt8 → Option Watch
  | [] => some t
  | b :: rest => (t.step b).bind fun t ↦ t.run rest

end Watch

/-- A byte that is no end of the member goes the same way inside further brackets. -/
theorem State.step_under {s : State} {b : UInt8} (h : s.stops b = false) (closers : List UInt8) :
    State.step { s with closers := s.closers ++ closers } b =
      { s.step b with closers := (s.step b).closers ++ closers } := by
  obtain ⟨cs, mode⟩ := s
  cases mode with
  | plain =>
    simp only [State.step]
    split
    · rfl
    split
    · rfl
    split
    · rfl
    split
    · next hcloser =>
      have hdelimiter : Byte.isDelimiter b = true := by
        rw [Byte.isDelimiter, hcloser, Bool.or_true]
      cases cs with
      | nil =>
        rw [State.stops, hdelimiter] at h
        cases h
      | cons c cs => rfl
    · rfl
  | string =>
    simp only [State.step]
    split
    · rfl
    split <;> rfl
  | escape => rfl

/-- The text keeps the two rules, and no word in it is cut short. -/
def isTidy (text : List UInt8) : Bool := (Watch.run {} text).any fun t ↦ t.due.isEmpty

namespace Watch

variable {t u : Watch} {b d : UInt8} {bytes rest : List UInt8} {closers : List UInt8} {ended : Bool}

/-! ## Runs -/

theorem run_append (t : Watch) (bytes rest : List UInt8) :
    t.run (bytes ++ rest) = (t.run bytes).bind fun t ↦ t.run rest := by
  induction bytes generalizing t with
  | nil => rfl
  | cons b bytes ih =>
    rw [List.cons_append, run, run, Option.bind_assoc]
    exact Option.bind_congr fun t _ ↦ ih t

theorem exists_of_run_append (h : t.run (bytes ++ rest) = some u) :
    ∃ v, t.run bytes = some v ∧ v.run rest = some u :=
  Option.bind_eq_some_iff.mp ((run_append t bytes rest).symm.trans h)

theorem exists_of_run_cons (h : t.run (b :: rest) = some u) :
    ∃ v, t.step b = some v ∧ v.run rest = some u := Option.bind_eq_some_iff.mp h

/-- A watch outside strings and words. -/
def between (closers : List UInt8) (ended : Bool) : Watch := ⟨{ closers }, [], ended⟩

theorem step_blank (hb : Text.isJsonBlank b = true) :
    (between closers ended).step b = some (between closers ended) := by
  simp [step, between, hb]

theorem run_blanks (h : Parsed.IsBlank bytes) :
    (between closers ended).run bytes = some (between closers ended) := by
  induction bytes with
  | nil => rfl
  | cons b bytes ih =>
    rw [run, step_blank (h b List.mem_cons_self)]
    exact ih fun c hc ↦ h c (List.mem_cons_of_mem b hc)

/-- All that a step can be. -/
theorem step_cases (h : t.step b = some u) :
    (∃ due, t.due = b :: due ∧ u = ⟨t.scan.step b, due, due.isEmpty⟩) ∨
    (t.due = [] ∧ t.scan.mode ≠ .plain ∧ u = ⟨t.scan.step b, [], false⟩) ∨
    (t.due = [] ∧ t.scan.mode = .plain ∧ Text.isJsonBlank b = true ∧ u = t) ∨
    (t.due = [] ∧ t.scan.mode = .plain ∧ Text.isJsonBlank b = false ∧
      (t.ended = true → t.scan.closers ≠ [] ∧ Byte.isDelimiter b = true) ∧
      u = ⟨t.scan.step b, if b = 0x6E then [0x75, 0x6C, 0x6C] else [], Byte.isCloser b⟩) := by
  unfold step at h
  split at h
  · next c due hdue =>
    split at h
    · next hb =>
      subst hb
      exact .inl ⟨due, hdue, (Option.some.inj h).symm⟩
    · exact nomatch h
  · next hdue =>
    split at h
    · next hmode => exact .inr (.inl ⟨hdue, hmode, (Option.some.inj h).symm⟩)
    · next hmode =>
      have hplain : t.scan.mode = .plain := Decidable.not_not.mp hmode
      split at h
      · next hb => exact .inr (.inr (.inl ⟨hdue, hplain, hb, (Option.some.inj h).symm⟩))
      · next hb =>
        split at h
        · exact nomatch h
        · next hended =>
          refine .inr (.inr (.inr ⟨hdue, hplain, Bool.eq_false_iff.mpr hb, fun he ↦ ?_,
            (Option.some.inj h).symm⟩))
          simpa [he] using hended

theorem scan_of_step (h : t.step b = some u) : u.scan = t.scan.step b := by
  obtain ⟨due, -, rfl⟩ | ⟨-, -, rfl⟩ | ⟨-, hmode, hb, rfl⟩ | ⟨-, -, -, -, rfl⟩ := step_cases h
  · rfl
  · rfl
  · exact (step_of_blank hmode hb).symm
  · rfl

/-- A watch only waits for the letters of `null`. -/
def IsSound (t : Watch) : Prop := ∀ c ∈ t.due, c = 0x75 ∨ c = 0x6C

theorem isSound_between : (between closers ended).IsSound := List.forall_mem_nil _

theorem IsSound.step (ht : t.IsSound) (h : t.step b = some u) : u.IsSound := by
  obtain ⟨due, hdue, rfl⟩ | ⟨-, -, rfl⟩ | ⟨-, -, -, rfl⟩ | ⟨-, -, -, -, rfl⟩ := step_cases h
  · exact fun c hc ↦ ht c (hdue ▸ List.mem_cons_of_mem b hc)
  · exact List.forall_mem_nil _
  · exact ht
  · by_cases hb : b = 0x6E
    · simp [IsSound, hb]
    · simp [IsSound, hb]

theorem IsSound.run (ht : t.IsSound) (h : t.run bytes = some u) : u.IsSound := by
  induction bytes generalizing t with
  | nil => exact Option.some.inj h ▸ ht
  | cons b bytes ih =>
    obtain ⟨v, hv, hrun⟩ := exists_of_run_cons h
    exact ih (ht.step hv) hrun

/-- A word is not cut short by a byte that is none of its letters. -/
theorem IsSound.due_eq_nil (ht : t.IsSound) (h : t.step b = some u) (hu : b ≠ 0x75)
    (hl : b ≠ 0x6C) : t.due = [] := by
  obtain ⟨due, hdue, -⟩ | ⟨hdue, -⟩ | ⟨hdue, -⟩ | ⟨hdue, -⟩ := step_cases h
  · exact ((ht b (hdue ▸ List.mem_cons_self)).elim hu hl).elim
  · exact hdue
  · exact hdue
  · exact hdue

/-! ## Inside brackets -/

/-- A watch with further open brackets around. -/
def under (closers : List UInt8) (t : Watch) : Watch :=
  { t with scan := { t.scan with closers := t.scan.closers ++ closers } }

/-- What is tidy inside brackets is tidy by itself, as long as it stays inside. -/
theorem step_under (hstops : t.scan.stops b = false) (h : (t.under closers).step b = some u) :
    ∃ v, t.step b = some v ∧ u = v.under closers := by
  have hscan : (t.under closers).scan.step b =
      { t.scan.step b with closers := (t.scan.step b).closers ++ closers } :=
    State.step_under hstops closers
  obtain ⟨due, hdue, rfl⟩ | ⟨hdue, hmode, rfl⟩ | ⟨hdue, hmode, hb, rfl⟩ |
    ⟨hdue, hmode, hb, hended, rfl⟩ := step_cases h
  · refine ⟨⟨t.scan.step b, due, due.isEmpty⟩, by simp [step, show t.due = b :: due from hdue], ?_⟩
    rw [hscan]
    rfl
  · have hplain : t.scan.mode ≠ .plain := hmode
    refine ⟨⟨t.scan.step b, [], false⟩, by simp [step, show t.due = [] from hdue, hplain], ?_⟩
    rw [hscan]
    rfl
  · exact ⟨t, by simp [step, show t.due = [] from hdue, show t.scan.mode = .plain from hmode, hb],
      rfl⟩
  · -- A delimiter behind the end of a value would not be inside but for the brackets around.
    have hinside : (t.ended && (t.scan.closers.isEmpty || !Byte.isDelimiter b)) = false := by
      cases he : t.ended with
      | false => rfl
      | true =>
        have hdelimiter := (hended he).2
        have hopen : t.scan.closers ≠ [] := by
          intro hnil
          have hout : t.scan.isOutside = true := isOutside_eq_true.mpr ⟨hmode, hnil⟩
          rw [State.stops, hout, hdelimiter] at hstops
          exact Bool.false_ne_true hstops.symm
        simp [hdelimiter, hopen]
    have hplain : t.scan.mode = .plain := hmode
    refine ⟨⟨t.scan.step b, if b = 0x6E then [0x75, 0x6C, 0x6C] else [], Byte.isCloser b⟩,
      by simp [step, show t.due = [] from hdue, hplain, hb, hinside], ?_⟩
    rw [hscan]
    rfl

theorem run_under {s : State} (hruns : Runs t.scan bytes s)
    (h : (t.under closers).run bytes = some u) :
    ∃ v, t.run bytes = some v ∧ v.scan = s ∧ u = v.under closers := by
  generalize hscan : t.scan = scan at hruns
  induction hruns generalizing t with
  | nil => exact ⟨t, rfl, hscan, (Option.some.inj h).symm⟩
  | cons hstops _ ih =>
    obtain ⟨v, hv, hrun⟩ := exists_of_run_cons h
    subst hscan
    obtain ⟨t', ht', rfl⟩ := step_under hstops hv
    obtain ⟨v, hv, hs, rfl⟩ := ih hrun (scan_of_step ht')
    refine ⟨v, ?_, hs, rfl⟩
    rw [run, ht']
    exact hv

/-! ## Ends of values -/

/-- Where a letter is due, no other byte may stand. -/
theorem exists_of_due {s : State} {c : UInt8} {due : List UInt8}
    (h : run ⟨s, c :: due, ended⟩ bytes = some u) (hu : u.due = []) :
    ∃ rest, bytes = c :: rest ∧ run ⟨s.step c, due, due.isEmpty⟩ rest = some u := by
  cases bytes with
  | nil =>
    obtain rfl := Option.some.inj h
    exact nomatch hu
  | cons b rest =>
    obtain ⟨v, hv, hrun⟩ := exists_of_run_cons h
    obtain ⟨due', hdue, rfl⟩ | ⟨hdue, -⟩ | ⟨hdue, -⟩ | ⟨hdue, -⟩ := step_cases hv
    · obtain ⟨rfl, rfl⟩ := List.cons.inj hdue
      exact ⟨rest, rfl, hrun⟩
    · exact nomatch hdue
    · exact nomatch hdue
    · exact nomatch hdue

/-- Behind a value that is in no brackets stand blanks. -/
theorem isBlank_of_run (h : (between [] true).run bytes = some u) : Parsed.IsBlank bytes := by
  induction bytes with
  | nil => exact Parsed.isBlank_nil
  | cons b bytes ih =>
    obtain ⟨v, hv, hrun⟩ := exists_of_run_cons h
    obtain ⟨due, hdue, -⟩ | ⟨-, hmode, -⟩ | ⟨-, -, hb, rfl⟩ | ⟨-, -, -, hended, -⟩ := step_cases hv
    · exact nomatch hdue
    · exact absurd rfl hmode
    · exact List.forall_mem_cons.mpr ⟨hb, ih hrun⟩
    · exact absurd rfl (hended rfl).1

theorem step_null :
    (between closers false).step 0x6E = some ⟨{ closers }, [0x75, 0x6C, 0x6C], false⟩ := rfl

/-- An `n` starts the word `null`, and nothing but blanks follows. -/
theorem exists_of_null (h : (between [] false).run (0x6E :: bytes) = some u) (hu : u.due = []) :
    ∃ after, bytes = [0x75, 0x6C, 0x6C] ++ after ∧ Parsed.IsBlank after := by
  obtain ⟨_, hstep, hrun⟩ := exists_of_run_cons h
  obtain rfl := Option.some.inj (step_null.symm.trans hstep)
  -- Each of the other three letters is due before anything else.
  obtain ⟨rest, rfl, hrun₁⟩ := exists_of_due hrun hu
  obtain ⟨rest, rfl, hrun₂⟩ := exists_of_due hrun₁ hu
  obtain ⟨after, rfl, hrun₃⟩ := exists_of_due hrun₂ hu
  exact ⟨after, rfl, isBlank_of_run hrun₃⟩

/-- At the end of a member no letter is due. -/
theorem due_eq_nil_of_delimiter (ht : t.IsSound) (hd : Byte.isDelimiter d = true)
    (h : t.step d = some u) : t.due = [] := by
  refine ht.due_eq_nil h ?_ ?_
  · rintro rfl
    exact nomatch hd
  · rintro rfl
    exact nomatch hd

/-- Blanks behind a value cut no word short. -/
theorem due_eq_nil_of_blanks (ht : t.IsSound) (hblanks : Parsed.IsBlank bytes)
    (h : t.run bytes = some u) (hu : u.due = []) : t.due = [] := by
  cases bytes with
  | nil => exact Option.some.inj h ▸ hu
  | cons b bytes =>
    obtain ⟨v, hv, -⟩ := exists_of_run_cons h
    have hb := hblanks b List.mem_cons_self
    refine ht.due_eq_nil hv ?_ ?_
    · rintro rfl
      exact nomatch hb
    · rintro rfl
      exact nomatch hb

/-! ## Bytes between values -/

/-- A byte that neither opens nor closes anything changes nothing, if it starts no word. -/
theorem step_of_not_structural (hb : b ∉ Byte.structural) (hn : b ≠ 0x6E) :
    (between closers false).step b = some (between closers false) := by
  have hscan : State.step { closers } b = { closers } := Nested.step_of_not_structural rfl hb
  have hcloser := Byte.not_isCloser_of_not_structural hb
  simp [step, between, hscan, hcloser, hn]

theorem run_of_not_structural (h : ∀ b ∈ bytes, b ∉ Byte.structural ∧ b ≠ 0x6E) :
    (between closers false).run bytes = some (between closers false) := by
  induction bytes with
  | nil => rfl
  | cons b bytes ih =>
    obtain ⟨⟨hb, hn⟩, hbytes⟩ := List.forall_mem_cons.mp h
    rw [run, step_of_not_structural hb hn]
    exact ih hbytes

theorem run_quoted {body : List UInt8} (h : IsQuoted body) (ended : Bool) :
    run ⟨⟨closers, .string⟩, [], ended⟩ body = some (between closers false) := by
  induction h generalizing ended with
  | close => rfl
  | @character b body hquote hescape _ ih =>
    have hscan : State.step ⟨closers, .string⟩ b = ⟨closers, .string⟩ := by
      rw [State.step, if_neg hquote, if_neg hescape]
    simp only [run, step]
    rw [hscan]
    exact ih false
  | escape _ ih => exact ih false

/-- The bytes of a string change nothing. -/
theorem run_string {body : List UInt8} (h : IsQuoted body) :
    (between closers false).run (Byte.quote :: body) = some (between closers false) :=
  run_quoted h false

theorem step_comma {c : UInt8} :
    (between (c :: closers) ended).step Byte.comma = some (between (c :: closers) false) := by
  cases ended <;> rfl

theorem step_opener {opener closer : UInt8} (h : Byte.Enclose opener closer) :
    (between closers false).step opener = some (between (closer :: closers) false) := by
  obtain ⟨rfl, rfl⟩ | ⟨rfl, rfl⟩ := h
  · rfl
  · rfl

theorem step_closer {opener closer : UInt8} (h : Byte.Enclose opener closer) :
    (between (closer :: closers) ended).step closer = some (between closers true) := by
  obtain ⟨rfl, rfl⟩ | ⟨rfl, rfl⟩ := h
  · cases ended <;> rfl
  · cases ended <;> rfl

/-! ## Texts of values -/

theorem run_append_of (h : t.run bytes = some u) (rest : List UInt8) :
    t.run (bytes ++ rest) = u.run rest := by rw [run_append, h, Option.bind_some]

/-- What stands in front of the value of an entry changes nothing. -/
theorem run_entry {before body blanks : List UInt8} (hbefore : Parsed.IsBlank before)
    (hbody : IsQuoted body) (hblanks : Parsed.IsBlank blanks) (rest : List UInt8) :
    (between closers false).run
        (before ++ Byte.quote :: (body ++ (blanks ++ Byte.colon :: rest))) =
      (between closers false).run rest := by
  have hcolon : Byte.colon ∉ Byte.structural ∧ Byte.colon ≠ 0x6E := by decide
  rw [run_append_of (run_blanks hbefore), ← List.cons_append, run_append_of (run_string hbody),
    run_append_of (run_blanks hblanks), run, step_of_not_structural hcolon.1 hcolon.2,
    Option.bind_some]

/-- A watch that is outside strings and words runs over the bytes, and is so again. -/
def IsCrossed (bytes : List UInt8) : Prop :=
  ∀ closers, ∃ ended, (between closers false).run bytes = some (between closers ended)

theorem isCrossed_of_not_structural (h : ∀ b ∈ bytes, b ∉ Byte.structural ∧ b ≠ 0x6E) :
    IsCrossed bytes := fun _ ↦ ⟨false, run_of_not_structural h⟩

theorem isCrossed_blanks (h : Parsed.IsBlank bytes) : IsCrossed bytes :=
  fun _ ↦ ⟨false, run_blanks h⟩

theorem IsCrossed.surround (h : IsCrossed bytes) {before after : List UInt8}
    (hbefore : Parsed.IsBlank before) (hafter : Parsed.IsBlank after) :
    IsCrossed (before ++ (bytes ++ after)) := by
  intro closers
  obtain ⟨ended, hbytes⟩ := h closers
  refine ⟨ended, ?_⟩
  rw [run_append_of (run_blanks hbefore), run_append_of hbytes]
  exact run_blanks hafter

theorem exists_run_intercalate {texts : List (List UInt8)} (h : ∀ text ∈ texts, IsCrossed text)
    (closer : UInt8) (closers : List UInt8) :
    ∃ ended, (between (closer :: closers) false).run ([Byte.comma].intercalate texts) =
      some (between (closer :: closers) ended) := by
  induction texts with
  | nil => exact ⟨false, rfl⟩
  | cons text texts ih =>
    obtain ⟨htext, htexts⟩ := List.forall_mem_cons.mp h
    cases texts with
    | nil =>
      rw [List.intercalate_singleton]
      exact htext _
    | cons text' texts =>
      obtain ⟨ended, hrun⟩ := htext (closer :: closers)
      obtain ⟨ended', hrun'⟩ := ih htexts
      refine ⟨ended', ?_⟩
      rw [List.intercalate_cons_cons, List.append_assoc, run_append_of hrun, List.singleton_append,
        run, step_comma]
      exact hrun'

theorem isCrossed_enclosed {opener closer : UInt8} {texts : List (List UInt8)}
    (hkind : Byte.Enclose opener closer) (h : ∀ text ∈ texts, IsCrossed text) :
    IsCrossed (Grammar.enclosed opener closer texts) := by
  intro closers
  obtain ⟨ended, hrun⟩ := exists_run_intercalate h closer closers
  refine ⟨true, ?_⟩
  rw [Grammar.enclosed, run, step_opener hkind, Option.bind_some, run_append_of hrun, run,
    step_closer hkind]
  rfl

end Watch

/-! ## Tidy texts -/

open Watch

variable {text held rest closers : List UInt8} {d : UInt8} {u : Watch}

theorem isTidy_eq_true :
    isTidy text = true ↔ ∃ t, (between [] false).run text = some t ∧ t.due = [] := by
  rw [isTidy, Option.any_eq_true]
  exact exists_congr fun t ↦ and_congr_right fun _ ↦ List.isEmpty_iff

/-- A stretch of tidy text that is looked through to its end is tidy by itself. -/
theorem isTidy_of_runs (hruns : Runs {} held {}) (hd : Byte.isDelimiter d = true)
    (h : (between closers false).run (held ++ d :: rest) = some u) :
    isTidy held = true ∧ ∃ ended, (between closers ended).run (d :: rest) = some u := by
  obtain ⟨v, hv, hrest⟩ := exists_of_run_append h
  -- The watch over the stretch alone is the one inside the brackets without them.
  obtain ⟨t, hrun, hscan, rfl⟩ := run_under (t := between [] false) hruns hv
  obtain ⟨_, hstep, -⟩ := exists_of_run_cons hrest
  have hdue : t.due = [] :=
    due_eq_nil_of_delimiter (t := t.under closers) (isSound_between.run hv) hd hstep
  refine ⟨isTidy_eq_true.mpr ⟨t, hrun, hdue⟩, t.ended, ?_⟩
  obtain ⟨scan, due, ended⟩ := t
  subst hscan hdue
  exact hrest

theorem isTidy_trim {w : Window} (h : isTidy w.bytes = true) : isTidy w.trim.bytes = true := by
  obtain ⟨t, hrun, hdue⟩ := isTidy_eq_true.mp h
  obtain ⟨before, after, hbefore, hafter, hbytes, -⟩ := w.exists_trim
  rw [hbytes, run_append_of (run_blanks hbefore)] at hrun
  obtain ⟨v, hv, hrun⟩ := exists_of_run_append hrun
  exact isTidy_eq_true.mpr ⟨v, hv, due_eq_nil_of_blanks (isSound_between.run hv) hafter hrun hdue⟩

/-- A tidy text that starts like `null` is the text of `null`. -/
theorem isElement_of_null {w : Window} (hnull : w.trimStart.bytes.head? = some 0x6E)
    (h : isTidy w.bytes = true) : Grammar.IsElement w.bytes := by
  obtain ⟨t, hrun, hdue⟩ := isTidy_eq_true.mp h
  obtain ⟨before, hbefore, hbehind, -⟩ := w.exists_behind_trimStart
  obtain ⟨rest, hrest⟩ := List.head?_eq_some_iff.mp hnull
  rw [hbehind.bytes, hrest, run_append_of (run_blanks hbefore)] at hrun
  obtain ⟨after, rfl, hafter⟩ := exists_of_null hrun hdue
  rw [hbehind.bytes, hrest]
  exact .mk hbefore .null hafter

end Scan

namespace Grammar

open Scan (Watch)

theorem isCrossed_of_isLiteral {literal : List UInt8} {l : Decimal.Literal}
    (h : Decimal.IsLiteral literal l) : Watch.IsCrossed literal := by
  refine Watch.isCrossed_of_not_structural fun b hb ↦ ⟨fun hmem ↦ ?_, ?_⟩
  · have hspecial : b ∉ Byte.special := Parsed.not_mem_of (h.isLiteralByte b hb) rfl
    exact hspecial (Byte.structural_subset_special hmem)
  · rintro rfl
    exact nomatch h.isLiteralByte _ hb

mutual

theorem IsValue.isCrossed {text : List UInt8} (h : IsValue text) : Watch.IsCrossed text := by
  match h with
  | .null => exact fun _ ↦ ⟨_, rfl⟩
  | .true | .false => exact fun _ ↦ ⟨_, rfl⟩
  | .string h => exact fun _ ↦ ⟨_, Watch.run_string h.isQuoted⟩
  | .number h => exact isCrossed_of_isLiteral h
  | .emptyList h =>
    exact Watch.isCrossed_enclosed (.inl ⟨rfl, rfl⟩)
      (List.forall_mem_singleton.mpr (Watch.isCrossed_blanks h))
  | .list _ h =>
    exact Watch.isCrossed_enclosed (.inl ⟨rfl, rfl⟩) fun text ht ↦ (h text ht).isCrossed
  | .emptyDict h =>
    exact Watch.isCrossed_enclosed (.inr ⟨rfl, rfl⟩)
      (List.forall_mem_singleton.mpr (Watch.isCrossed_blanks h))
  | .dict _ h =>
    exact Watch.isCrossed_enclosed (.inr ⟨rfl, rfl⟩) fun text ht ↦ (h text ht).isCrossed

theorem IsElement.isCrossed {text : List UInt8} (h : IsElement text) : Watch.IsCrossed text := by
  match h with
  | .mk hbefore h hafter => exact h.isCrossed.surround hbefore hafter

theorem IsEntry.isCrossed {text : List UInt8} (h : IsEntry text) : Watch.IsCrossed text := by
  match h with
  | .mk hbefore hkey hbetween h =>
    intro closers
    obtain ⟨ended, hrun⟩ := h.isCrossed closers
    exact ⟨ended, (Watch.run_entry hbefore hkey.isQuoted hbetween _).trans hrun⟩

end

/-- The text of a value is tidy. -/
theorem IsElement.isTidy {text : List UInt8} (h : IsElement text) : Scan.isTidy text = true := by
  obtain ⟨ended, hrun⟩ := h.isCrossed []
  exact Scan.isTidy_eq_true.mpr ⟨_, hrun, rfl⟩

end Grammar

end TypedJson
