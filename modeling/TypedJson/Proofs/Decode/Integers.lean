import TypedJson.Proofs.Decimal.Literal
import TypedJson.Proofs.Decode.Plans
import TypedJson.Proofs.Roundtrip.Unions

/-!
# Reading integers

Whether a number is taken for an integer is told by the looks of its literal, and whether it is one
by its value. The two agree on all literals but `-0`, which looks like an integer and is read as a
double (`reads_int_iff`).
-/

namespace TypedJson

/-! ## Literals in windows -/

namespace Decimal.Literal

/-- The text of the literal fills the window, but for blanks around it. -/
def Fills (l : Literal) (w : Window) : Prop :=
  ∃ before text after, w.bytes = before ++ (text ++ after) ∧ Parsed.IsBlank before ∧
    IsLiteral text l ∧ Parsed.IsBlank after

namespace Fills

variable {l : Literal} {w : Window}

/-- The literal looks like what is written. -/
theorem shape (h : l.Fills w) : w.shape = .ok (if l.IsWhole then "int" else "float") := by
  obtain ⟨before, text, after, hbytes, hbefore, hliteral, hafter⟩ := h
  obtain ⟨b, rest, rfl, hb⟩ := hliteral.head
  have hstarts : Window.startsNumber b = true := by simpa [Window.startsNumber] using hb
  have htrim : w.trimStart.bytes = b :: (rest ++ after) := by
    rw [Window.trimStart, hbytes, Window.trimFrom_append hbefore, List.cons_append,
      Window.trimFrom_cons (Parsed.not_blank_of hstarts rfl)]
  have hany : w.bytes.any Window.isFractional = (l.fraction.isSome || l.exponent.isSome) := by
    rw [hbytes, List.any_append, List.any_append, Parsed.any_isFractional_blanks hbefore,
      Parsed.any_isFractional_blanks hafter, hliteral.any_isFractional, Bool.false_or,
      Bool.or_false]
  rw [Parsed.shape_of_number htrim hb, hany]
  obtain ⟨negative, whole, fraction, exponent⟩ := l
  cases fraction <;> cases exponent <;> simp [IsWhole]

/-- The literal is read as its value. -/
theorem read? (h : l.Fills w) : Json.read? w.bytes = l.value?.map .number := by
  obtain ⟨before, text, after, hbytes, hbefore, hliteral, hafter⟩ := h
  have hend : EndsLiteral (after ++ []) :=
    Parsed.endsLiteral_blanks_append hafter fun b hb ↦ absurd hb (by simp)
  have hscan := hliteral.scan_append hend
  have hrest : Json.skipBlanks (after ++ []) = [] := Json.skipBlanks_append hafter
  rw [List.append_nil] at hscan hrest
  obtain ⟨b, rest, rfl, hb⟩ := hliteral.head
  have hstarts : Window.startsNumber b = true := by simpa [Window.startsNumber] using hb
  have hinput : Json.skipBlanks w.bytes = b :: (rest ++ after) := by
    rw [hbytes, Json.skipBlanks_append hbefore, List.cons_append,
      Json.skipBlanks_cons (Parsed.not_blank_of hstarts rfl)]
  rw [Json.read?, Json.readWithin?, Json.Tree.scan, Json.scanAt_number hinput hb hscan]
  simp only [hrest, List.isEmpty_nil, if_true, Json.Tree.toJson?]

end Fills

end Decimal.Literal

/-! ## Runs -/

theorem ScalarKind.ofJson_number_eq_ok_iff {n : Number} {v : Value} :
    ScalarKind.int.ofJson (.number n) = .ok v ↔ ∃ i, n.toInt64? = some i ∧ v = .int i := by
  cases n with
  | natural n =>
    simp only [ScalarKind.ofJson]
    cases (Number.natural n).toInt64? with
    | none => simp
    | some i => simp [eq_comm]
  | negative n => simp [ScalarKind.ofJson, Number.toInt64?, eq_comm]
  | float f => simp [ScalarKind.ofJson, Number.toInt64?]

namespace Decode

variable {α : Type} {state : DecodeState}

theorem ended_eq_ok_iff {outcome : Except Failure α} {a : α} :
    (∃ state', ended outcome state = .ok a state') ↔ outcome = .ok a := by
  cases outcome with
  | ok b => simp [ended]
  | error failure => simp [ended]

/-- Reading a scalar looks once at the window, whatever comes of it. -/
theorem scalar_run (kind : ScalarKind) (w : Window) (state : DecodeState) :
    scalar kind w state =
      ended (w.json.bind kind.ofJson) { state with cost := state.cost + { reads := w.looks } } := by
  have hjson : json w state =
      ended w.json { state with cost := state.cost + { reads := w.looks } } := by
    unfold json
    refine (bind_of_ok rfl).trans ?_
    cases w.json <;> rfl
  cases hvalue : w.json with
  | ok value =>
    rw [hvalue] at hjson
    refine (bind_of_ok hjson).trans ?_
    rw [Except.bind]
    cases kind.ofJson value <;> rfl
  | error failure =>
    rw [hvalue] at hjson
    exact bind_of_error hjson

/-- The candidate of a shape is chosen by looking once at the window. -/
theorem choose_run {ν : Type} {registry : Registry} {candidates : List (Candidate ν)}
    {c : Candidate ν} {w : Window} {shape : String} (hshape : w.shape = .ok shape)
    (hfind : candidates.find? (fun c ↦ decide (c.shape = some shape)) = some c) :
    choose registry candidates none w state =
      .ok c { state with cost := state.cost + { reads := w.looks } } := by
  unfold choose
  refine (bind_of_ok rfl).trans ?_
  rw [hshape]
  refine (bind_of_ok rfl).trans ?_
  dsimp only
  rw [hfind]
  rfl

end Decode

/-! ## Integers -/

namespace Decimal.Literal

variable {l : Literal} {w : Window} {v : Value}

/-- What is read as an integer of 64 bits. -/
theorem Fills.bind_ofJson_eq_ok_iff (h : l.Fills w) :
    w.json.bind ScalarKind.int.ofJson = .ok v ↔ l.IsWhole ∧ l.FitsInt64 ∧ ¬ l.IsMinusZero ∧
      ∃ i : Int64, i.toInt = l.integer ∧ v = .int i := by
  have hvalue : w.json.bind ScalarKind.int.ofJson = .ok v ↔
      ∃ i, l.value?.bind Number.toInt64? = some i ∧ v = .int i := by
    rw [Window.json, h.read?]
    cases l.value? with
    | none => simp [Except.bind]
    | some n => exact ScalarKind.ofJson_number_eq_ok_iff
  rw [hvalue]
  constructor
  · rintro ⟨i, hi, rfl⟩
    obtain ⟨hwhole, hzero, hinteger⟩ := bind_toInt64?_eq_some_iff.mp hi
    exact ⟨hwhole, fitsInt64_of_toInt_eq hinteger, hzero, i, hinteger, rfl⟩
  · rintro ⟨hwhole, -, hzero, i, hinteger, rfl⟩
    exact ⟨i, bind_toInt64?_eq_some_iff.mpr ⟨hwhole, hzero, hinteger⟩, rfl⟩

end Decimal.Literal

/-- Candidates of distinct shapes, one of which is an integer. -/
structure HasIntMember (candidates : List (Candidate Node)) : Prop where
  distinct : shapesDistinct (candidates.map (·.shape)) = true
  member : ∃ key, ⟨key, some "int", .scalar .int⟩ ∈ candidates

/-- Where a window looks like an integer, a union with an integer reads an integer. -/
theorem HasIntMember.read_eq_ok_iff {candidates : List (Candidate Node)}
    (h : HasIntMember candidates) {w : Window} (hw : w.shape = .ok "int") {context : DecodeContext}
    {place : Place} {state : DecodeState} {v : Value} :
    (∃ state', (Node.union candidates none).read context w place state = .ok v state') ↔
      w.json.bind ScalarKind.int.ofJson = .ok v := by
  obtain ⟨key, hmem⟩ := h.member
  have hchoose := @Decode.choose_run state _ context.registry _ _ _ _ hw
    (find?_of_shapesDistinct h.distinct hmem rfl)
  rw [Decode.read_union, Decode.bind_of_ok hchoose]
  simp only [Decode.value, Decode.locate_eq_ok_iff]
  show (∃ state', Decode.scalar .int w _ = _) ↔ _
  rw [Decode.scalar_run]
  exact Decode.ended_eq_ok_iff

namespace Decimal.Literal

variable {l : Literal} {w : Window}

theorem Fills.json_of_isMinusZero (h : l.Fills w) (hwhole : l.IsWhole) (hzero : l.IsMinusZero) :
    w.json = .ok (.number (.float (-(Float.ofNat 0)))) := by
  rw [Window.json, h.read?, value?_of_isMinusZero hwhole hzero]
  rfl

/-- **Integer literals.** A literal looks like an integer exactly if it is whole, and then a union
with an integer takes it for one. It is read as an integer, and as the one that it stands for,
exactly if it is whole, the integer fits in 64 bits, and it is not minus zero. Minus zero looks like
an integer and is refused. -/
theorem reads_int_iff (h : l.Fills w) (context : DecodeContext) (place : Place)
    (state : DecodeState) :
    w.shape = .ok (if l.IsWhole then "int" else "float") ∧
    (∀ v, (∃ state', (Node.scalar .int).read context w place state = .ok v state') ↔
      l.IsWhole ∧ l.FitsInt64 ∧ ¬ l.IsMinusZero ∧ ∃ i : Int64, i.toInt = l.integer ∧ v = .int i) ∧
    (l.IsWhole → ∀ candidates, HasIntMember candidates → ∀ v,
      (∃ state', (Node.union candidates none).read context w place state = .ok v state') ↔
        l.FitsInt64 ∧ ¬ l.IsMinusZero ∧ ∃ i : Int64, i.toInt = l.integer ∧ v = .int i) ∧
    (l.IsWhole → l.IsMinusZero →
      ∃ state', (Node.scalar .int).read context w place state =
        .error (.unexpectedValue "int" "float") state') := by
  refine ⟨h.shape, fun v ↦ ?_, fun hwhole candidates hmember v ↦ ?_, fun hwhole hzero ↦ ?_⟩
  · show (∃ state', Decode.scalar .int w state = _) ↔ _
    rw [Decode.scalar_run, ← h.bind_ofJson_eq_ok_iff]
    exact Decode.ended_eq_ok_iff
  · have hshape : w.shape = .ok "int" := by
      rw [h.shape, if_pos hwhole]
    rw [hmember.read_eq_ok_iff hshape, h.bind_ofJson_eq_ok_iff]
    exact and_iff_right hwhole
  · refine ⟨{ state with cost := state.cost + { reads := w.looks } }, ?_⟩
    show Decode.scalar .int w state = _
    rw [Decode.scalar_run, h.json_of_isMinusZero hwhole hzero]
    rfl

theorem fills_of_scan {bytes : List UInt8} (h : Literal.scan bytes = some (l, [])) :
    l.Fills (Window.whole bytes) := by
  obtain ⟨text, htext, hliteral⟩ := isLiteral_of_scan h
  exact ⟨[], text, [], htext, Parsed.isBlank_nil, hliteral, Parsed.isBlank_nil⟩

/-- The lowest integer of 64 bits is read where a string may stand as well, and `-0` is not read. -/
theorem reads_int_iff_lowest :
    (∃ state', (Node.union [⟨"int", some "int", .scalar .int⟩,
        ⟨"string", some "string", .scalar .string⟩] none).read ⟨{}, {}⟩
          (Window.whole (Utf8.encode "-9223372036854775808")) [] {} =
        .ok (.int Int64.minValue) state') ∧
    (Window.whole (Utf8.encode "-0")).shape = .ok "int" ∧
    ∃ state', (Node.scalar .int).read ⟨{}, {}⟩ (Window.whole (Utf8.encode "-0")) [] {} =
      .error (.unexpectedValue "int" "float") state' := by
  have hlowest : Literal.Fills ⟨true, [9, 2, 2, 3, 3, 7, 2, 0, 3, 6, 8, 5, 4, 7, 7, 5, 8, 0, 8],
      none, none⟩ (Window.whole (Utf8.encode "-9223372036854775808")) := fills_of_scan rfl
  have hzero : Literal.Fills ⟨true, [0], none, none⟩ (Window.whole (Utf8.encode "-0")) :=
    fills_of_scan rfl
  obtain ⟨-, -, hunion, -⟩ := reads_int_iff hlowest ⟨{}, {}⟩ [] {}
  obtain ⟨hshape, -, -, hrefused⟩ := reads_int_iff hzero ⟨{}, {}⟩ [] {}
  refine ⟨(hunion (by decide) _ ⟨by decide, "int", by simp⟩ _).mpr ?_, hshape.trans rfl,
    hrefused (by decide) (by decide)⟩
  exact ⟨by decide, by decide, Int64.minValue, by decide, rfl⟩

end Decimal.Literal

end TypedJson
