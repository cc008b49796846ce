import TypedJson.Proofs.Decimal.Integer
import TypedJson.Proofs.Json.Covering
import TypedJson.Proofs.Roundtrip.Reading
import TypedJson.Proofs.Roundtrip.Values
import TypedJson.Proofs.Roundtrip.Writing

/-!
# Leaves

What is written for `null`, a truth value, an integer, a double or a string is a single literal. It
is described by its JSON value and by its shape, which is all that reading it depends on.
-/

namespace TypedJson

/-- A literal with a value and a shape. -/
structure Parsed.IsLeafOf (value : Json) (shape : String) (tree : Parsed) : Prop where
  json : tree.json = value
  height : tree.height = 0
  shape : tree.shape = shape

/-! ## Numbers -/

namespace Number

theorem toInt64?_ofInt64 (i : Int64) : (ofInt64 i).toInt64? = some i := by
  have hlow := Int64.le_toInt i
  have hhigh := Int64.toInt_lt i
  unfold ofInt64
  split
  · rfl
  · next hsign =>
    have hsize : i.toInt.toNat < 2 ^ 64 := by omega
    have hnat : (UInt64.ofNat i.toInt.toNat).toNat = i.toInt.toNat := by
      rw [UInt64.toNat_ofNat', Nat.mod_eq_of_lt hsize]
    rw [toInt64?, hnat, if_pos (by show i.toInt.toNat < 2 ^ 63; omega)]
    congr 1
    apply Int64.toInt_inj.mp
    rw [Int64.toInt_ofNat_of_lt (by omega)]
    omega

theorem ofInt64_ne_float (i : Int64) (f : Float) : ofInt64 i ≠ float f := by
  unfold ofInt64
  split <;> exact fun h ↦ nomatch h

end Number

namespace Decimal

variable {bytes : List UInt8}

theorem any_isFractional_digits {ds : List Nat} (h : IsDigits bytes ds) :
    bytes.any Window.isFractional = false := by
  induction h with
  | nil => rfl
  | @cons b d bytes ds hdigit _ ih =>
    have hb : Window.isFractional b = false := by
      by_contra hne
      rw [Bool.not_eq_false, Window.isFractional, Bool.or_eq_true, Bool.or_eq_true] at hne
      simp only [beq_iff_eq] at hne
      rcases hne with (rfl | rfl) | rfl <;> exact nomatch hdigit
    rw [List.any_cons, hb, ih]
    rfl

/-- The bytes of a literal tell whether it has a fraction or an exponent. -/
theorem IsLiteral.any_isFractional {l : Literal} (h : IsLiteral bytes l) :
    bytes.any Window.isFractional = (l.fraction.isSome || l.exponent.isSome) := by
  obtain ⟨negative, whole, fraction, exponent⟩ := l
  obtain ⟨hsign, hwhole, _, _, hfraction, hexponent⟩ := h
  have hleft : ∀ {sign : List UInt8} {negative : Bool}, IsSign sign negative →
      sign.any Window.isFractional = false := by
    rintro _ _ (_ | _) <;> rfl
  rw [List.any_append, List.any_append, List.any_append, hleft hsign,
    any_isFractional_digits hwhole]
  cases hfraction with
  | missing =>
    cases hexponent with
    | missing => rfl
    | digits hletter _ _ _ => rcases hletter with rfl | rfl <;> rfl
  | digits _ _ => rfl

end Decimal

/-! ## Writing -/

namespace Run

theorem writes_null : (write "null").WritesValue (Parsed.IsLeafOf .null "null") :=
  .scalar .null fun _ ↦ ⟨rfl, rfl, rfl⟩

theorem writes_bool (b : Bool) :
    (write (if b then "true" else "false")).WritesValue (Parsed.IsLeafOf (.bool b) "bool") := by
  cases b
  · exact .scalar .false fun _ ↦ ⟨rfl, rfl, rfl⟩
  · exact .scalar .true fun _ ↦ ⟨rfl, rfl, rfl⟩

theorem writes_int (i : Int64) :
    (write (toString i.toInt)).WritesValue (Parsed.IsLeafOf (.number (.ofInt64 i)) "int") := by
  obtain ⟨l, hliteral, hvalue, hfraction, hexponent⟩ := Decimal.isLiteral_int i
  refine .scalar (.number hliteral hvalue) fun _ ↦ ⟨rfl, rfl, ?_⟩
  rw [Parsed.shape, hliteral.any_isFractional, hfraction, hexponent]
  rfl

theorem writes_string (flags : JsonFlags) (s : String) :
    (write (Json.quote flags s)).WritesValue (Parsed.IsLeafOf (.string s) "string") := by
  refine .scalar ?_ fun _ ↦ ⟨rfl, rfl, rfl⟩
  rw [Json.encode_quote]
  exact .string (Json.isBody_quotedBody flags s) (Utf8.decode?_encode s)

/-- A text that is read as a number is a literal of that number, wherever it stands. -/
theorem exists_number {bytes : List UInt8} {n : Number} (h : Json.read? bytes = some (.number n)) :
    ∀ offset, ∃ tree : Parsed, tree.Fills offset bytes ∧
      Parsed.IsLeafOf (.number n) (if bytes.any Window.isFractional then "float" else "int")
        tree := by
  obtain ⟨tree, hfills, _, hjson⟩ := Parsed.readWithin?_eq_some_iff.mp h
  cases hfills with
  | @mk _ _ before literal after hoffset hbefore hstands hafter =>
    have hany : (before ++ (literal ++ after)).any Window.isFractional =
        literal.any Window.isFractional := by
      rw [List.any_append, List.any_append, Parsed.any_isFractional_blanks hbefore,
        Parsed.any_isFractional_blanks hafter, Bool.false_or, Bool.or_false]
    cases hstands with
    | list | emptyList | dict | emptyDict => cases hjson
    | scalar hscalar =>
      obtain rfl : _ = Json.number n := hjson
      intro offset
      rw [hany]
      exact ⟨.scalar (offset + before.length) literal (.number n),
        .mk rfl hbefore (.scalar hscalar) hafter, rfl, rfl, rfl⟩

/-- A double that is read back is written as a number equal to it. The number is a double, and has
the looks of one, unless the text of the double is that of an integer. -/
theorem writes_float {flags : JsonFlags} {f : Float} (h : ReadsBack flags f) :
    ∃ n shape, sameFloat n.toFloat f = true ∧ (n.toInt64? = none ∨ ReadsAsInt flags f) ∧
      (shape = "float" ∨ shape = "int" ∧ ¬StaysFloat flags f) ∧
      (writeFloat flags f).WritesValue (Parsed.IsLeafOf (.number n) shape) := by
  obtain ⟨text, n, htext, hread, hsame⟩ := h
  refine ⟨n, if (Utf8.encode text).any Window.isFractional then "float" else "int", hsame,
    ?_, ?_, ?_⟩
  · cases hint : n.toInt64? with
    | none => exact .inl rfl
    | some i => exact .inr ⟨text, n, i, htext, hread, hint⟩
  · by_cases hany : (Utf8.encode text).any Window.isFractional = true
    · exact .inl (if_pos hany)
    · exact .inr ⟨if_neg hany, fun hstays ↦ hany (hstays text htext)⟩
  · rw [writeFloat, htext]
    exact ⟨text, .write text, exists_number hread⟩

end Run

/-! ## Reading -/

namespace Decode

variable {tree : Parsed} {value : Json} {shape : String}

/-- A literal is read as its value. -/
theorem gives_json (h : tree.IsLeafOf value shape) {w : Window} (hw : tree.In w) :
    (json w).Gives (· = value) := by
  have hfits : tree.Fits w := ⟨hw, by rw [h.height]; exact Nat.zero_le _⟩
  exact .look_bind (.found hfits.json h.json)

theorem gives_scalar (h : tree.IsLeafOf value shape) {kind : ScalarKind} {v : Value}
    (hv : kind.ofJson value = .ok v) {w : Window} (hw : tree.In w) :
    (scalar kind w).Gives (· = v) := by
  refine (gives_json h hw).bind ?_
  rintro _ rfl
  exact .found hv rfl

end Decode

theorem ScalarKind.ofJson_string (s : String) :
    ScalarKind.string.ofJson (.string s) = .ok (.string s) := rfl

theorem ScalarKind.ofJson_int (i : Int64) :
    ScalarKind.int.ofJson (.number (.ofInt64 i)) = .ok (.int i) := by
  have hint := Number.toInt64?_ofInt64 i
  have hne := Number.ofInt64_ne_float i
  generalize Number.ofInt64 i = n at hint hne
  match n with
  | .natural _ | .negative _ => simp only [ScalarKind.ofJson, hint]
  | .float f => exact absurd rfl (hne f)

end TypedJson
