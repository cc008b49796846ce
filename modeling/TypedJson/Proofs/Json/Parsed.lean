import TypedJson.Error
import TypedJson.Proofs.Json.Numbers
import TypedJson.Proofs.Json.Strings
import TypedJson.Split.Scan

/-!
# JSON values and their texts

A `Parsed` value is a JSON value as it stands in a text: it knows where it starts, and a scalar
keeps its literal, so that a number is still known as it is written. `Parsed.Stands` is the grammar
of JSON, as a relation between a value and its text.
-/

namespace TypedJson

/-- A JSON value that starts at an offset of a text. -/
inductive Parsed where
  | scalar (offset : Nat) (literal : List UInt8) (value : Json)
  | list (offset : Nat) (items : List Parsed)
  /-- The entries in the order of the text, repeated keys included. -/
  | dict (offset : Nat) (entries : List (String × Parsed))

namespace Parsed

/-- Where the value starts. -/
def offset : Parsed → Nat
  | scalar offset _ _ | list offset _ | dict offset _ => offset

mutual

/-- The value itself. -/
def json : Parsed → Json
  | scalar _ _ value => value
  | list _ items => .list (jsonItems items)
  | dict _ entries => .dict (jsonEntries entries [])

/-- The values of items. -/
def jsonItems : List Parsed → List Json
  | [] => []
  | item :: items => item.json :: jsonItems items

/-- The values of entries, put after those already there. -/
def jsonEntries : List (String × Parsed) → Entries String Json → Entries String Json
  | [], done => done
  | (key, value) :: entries, done => jsonEntries entries (done.put key value.json)

end

mutual

/-- How many containers are open at a time. -/
def height : Parsed → Nat
  | scalar _ _ _ => 0
  | list _ items => heightItems items + 1
  | dict _ entries => heightEntries entries + 1

/-- The height of the highest item. -/
def heightItems : List Parsed → Nat
  | [] => 0
  | item :: items => max item.height (heightItems items)

/-- The height of the highest value. -/
def heightEntries : List (String × Parsed) → Nat
  | [] => 0
  | (_, value) :: entries => max value.height (heightEntries entries)

end

/-! ## The grammar -/

/-- The bytes are blanks. -/
def IsBlank (bytes : List UInt8) : Prop := ∀ b ∈ bytes, Text.isJsonBlank b = true

theorem isBlank_nil : IsBlank [] := fun _ hb ↦ absurd hb List.not_mem_nil

/-- The literal of a scalar. -/
inductive IsScalar : List UInt8 → Json → Prop
  | null : IsScalar [0x6E, 0x75, 0x6C, 0x6C] .null
  | true : IsScalar [0x74, 0x72, 0x75, 0x65] (.bool true)
  | false : IsScalar [0x66, 0x61, 0x6C, 0x73, 0x65] (.bool false)
  | string {body decoded : List UInt8} {s : String} (hbody : Json.IsBody body decoded)
      (htext : Utf8.decode? decoded = some s) : IsScalar (Byte.quote :: body) (.string s)
  | number {literal : List UInt8} {l : Decimal.Literal} {n : Number}
      (hliteral : Decimal.IsLiteral literal l) (hvalue : l.value? = some n) :
      IsScalar literal (.number n)

mutual

/-- The text of a value, from its first byte to its last. -/
inductive Stands : Parsed → List UInt8 → Prop
  | scalar {offset : Nat} {literal : List UInt8} {value : Json} (h : IsScalar literal value) :
      Stands (scalar offset literal value) literal
  | emptyList {offset : Nat} {blanks : List UInt8} (h : IsBlank blanks) :
      Stands (list offset []) (Byte.openList :: (blanks ++ [Byte.closeList]))
  | list {offset : Nat} {items : List Parsed} {bytes : List UInt8}
      (h : ItemsStand items (offset + 1) bytes) :
      Stands (list offset items) (Byte.openList :: (bytes ++ [Byte.closeList]))
  | emptyDict {offset : Nat} {blanks : List UInt8} (h : IsBlank blanks) :
      Stands (dict offset []) (Byte.openDict :: (blanks ++ [Byte.closeDict]))
  | dict {offset : Nat} {entries : List (String × Parsed)} {bytes : List UInt8}
      (h : EntriesStand entries (offset + 1) bytes) :
      Stands (dict offset entries) (Byte.openDict :: (bytes ++ [Byte.closeDict]))

/-- The text of a value from an offset on, with blanks around it. -/
inductive Fills : Parsed → Nat → List UInt8 → Prop
  | mk {tree : Parsed} {offset : Nat} {before bytes after : List UInt8}
      (hoffset : tree.offset = offset + before.length) (hbefore : IsBlank before)
      (h : Stands tree bytes) (hafter : IsBlank after) :
      Fills tree offset (before ++ (bytes ++ after))

/-- The text of one item or more from an offset on, with commas between them. -/
inductive ItemsStand : List Parsed → Nat → List UInt8 → Prop
  | one {item : Parsed} {offset : Nat} {bytes : List UInt8} (h : Fills item offset bytes) :
      ItemsStand [item] offset bytes
  | more {item : Parsed} {items : List Parsed} {offset : Nat} {bytes rest : List UInt8}
      (h : Fills item offset bytes) (hitems : ItemsStand items (offset + bytes.length + 1) rest) :
      ItemsStand (item :: items) offset (bytes ++ Byte.comma :: rest)

/-- The text of a key and its value from an offset on. -/
inductive EntryFills : String → Parsed → Nat → List UInt8 → Prop
  | mk {key : String} {value : Parsed} {offset : Nat}
      {before body decoded between bytes : List UInt8} (hbefore : IsBlank before)
      (hbody : Json.IsBody body decoded) (hkey : Utf8.decode? decoded = some key)
      (hbetween : IsBlank between)
      (h : Fills value (offset + before.length + body.length + between.length + 2) bytes) :
      EntryFills key value offset
        (before ++ Byte.quote :: (body ++ (between ++ Byte.colon :: bytes)))

/-- The text of one entry or more from an offset on, with commas between them. -/
inductive EntriesStand : List (String × Parsed) → Nat → List UInt8 → Prop
  | one {key : String} {value : Parsed} {offset : Nat} {bytes : List UInt8}
      (h : EntryFills key value offset bytes) : EntriesStand [(key, value)] offset bytes
  | more {key : String} {value : Parsed} {entries : List (String × Parsed)} {offset : Nat}
      {bytes rest : List UInt8} (h : EntryFills key value offset bytes)
      (hentries : EntriesStand entries (offset + bytes.length + 1) rest) :
      EntriesStand ((key, value) :: entries) offset (bytes ++ Byte.comma :: rest)

end

/-- The value of a whole text, whose containers are not nested too deep. -/
def IsText (tree : Parsed) (bytes : List UInt8) : Prop :=
  tree.Fills 0 bytes ∧ tree.height ≤ Json.nesting

/-- The first byte of the text of the value. -/
def firstByte : Parsed → UInt8
  | scalar _ literal _ => literal.headD 0
  | list _ _ => Byte.openList
  | dict _ _ => Byte.openDict

/-! ## Members -/

/-- The failure of a value that is no container of the expected kind. -/
def notContainer (tree : Parsed) : Failure :=
  .unexpectedToken tree.offset (Byte.text tree.firstByte)

/-- The items of a list; `null` has none. -/
def items : Parsed → Except Failure (List Parsed)
  | list _ items => .ok items
  | scalar _ _ .null => .ok []
  | tree => .error tree.notContainer

/-- The entries of a dictionary; `null` has none. -/
def entries : Parsed → Except Failure (List (String × Parsed))
  | dict _ entries => .ok entries
  | scalar _ _ .null => .ok []
  | tree => .error tree.notContainer

/-! ## The first byte of a text -/

/-- A byte that starts a scalar. -/
def startsScalar (b : UInt8) : Bool :=
  b == 0x6E || b == 0x74 || b == 0x66 || b == Byte.quote || b == 0x2D || (0x30 ≤ b && b ≤ 0x39)

theorem IsScalar.head {literal : List UInt8} {value : Json} (h : IsScalar literal value) :
    ∃ b rest, literal = b :: rest ∧ startsScalar b = Bool.true := by
  cases h with
  | null | true | false | string => exact ⟨_, _, rfl, rfl⟩
  | number hliteral _ =>
    obtain ⟨b, rest, rfl, hb⟩ := hliteral.head
    refine ⟨b, rest, rfl, ?_⟩
    obtain rfl | ⟨hlow, hhigh⟩ := hb
    · rfl
    · simp [startsScalar, hlow, hhigh]

/-- A byte of a kind that none of some bytes is of. -/
theorem not_mem_of {p : UInt8 → Bool} {b : UInt8} {cs : List UInt8} (hb : p b = Bool.true)
    (hp : (cs.all fun c ↦ !p c) = Bool.true) : b ∉ cs := by
  intro hmem
  have hnot := List.all_eq_true.mp hp b hmem
  rw [hb] at hnot
  exact Bool.false_ne_true hnot

theorem not_blank_of {p : UInt8 → Bool} {b : UInt8} (hb : p b = Bool.true)
    (hp : ([0x20, 0x09, 0x0A, 0x0D].all fun c ↦ !p c) = Bool.true) :
    Text.isJsonBlank b = Bool.false := by
  have hnot := not_mem_of hb hp
  simp only [List.mem_cons, List.not_mem_nil, or_false, not_or] at hnot
  simp [Text.isJsonBlank, hnot]

theorem not_blank_of_startsScalar {b : UInt8} (h : startsScalar b = Bool.true) :
    Text.isJsonBlank b = Bool.false ∧ Byte.isDelimiter b = Bool.false := by
  have hne : ∀ c, startsScalar c = Bool.false → b ≠ c := by
    rintro c hc rfl
    exact Bool.false_ne_true (hc.symm.trans h)
  constructor
  · exact not_blank_of h rfl
  · simp [Byte.isDelimiter, Byte.isCloser, hne Byte.comma rfl, hne Byte.closeList rfl,
      hne Byte.closeDict rfl]

theorem IsScalar.startsNull_iff {literal : List UInt8} {value : Json} (h : IsScalar literal value) :
    literal.headD 0 = 0x6E ↔ value = .null := by
  cases h with
  | null => exact ⟨fun _ ↦ rfl, fun _ ↦ rfl⟩
  | true | false => exact ⟨fun h ↦ absurd h (by decide), fun h ↦ nomatch h⟩
  | string => exact ⟨fun h ↦ absurd h (by decide : Byte.quote ≠ 0x6E), fun h ↦ nomatch h⟩
  | number hliteral _ =>
    obtain ⟨b, rest, rfl, hb⟩ := hliteral.head
    refine ⟨?_, fun h ↦ nomatch h⟩
    rintro rfl
    exact absurd hb (by decide)

variable {tree : Parsed} {bytes : List UInt8}

theorem Stands.fills (h : Stands tree bytes) : Fills tree tree.offset bytes := by
  have hfills : Fills tree tree.offset ([] ++ (bytes ++ [])) := .mk rfl isBlank_nil h isBlank_nil
  rwa [List.append_nil] at hfills

theorem Stands.head (h : Stands tree bytes) : ∃ rest, bytes = tree.firstByte :: rest := by
  cases h with
  | scalar h =>
    obtain ⟨b, rest, rfl, _⟩ := h.head
    exact ⟨rest, rfl⟩
  | emptyList | list | emptyDict | dict => exact ⟨_, rfl⟩

theorem Stands.startsValue (h : Stands tree bytes) :
    Text.isJsonBlank tree.firstByte = Bool.false ∧
      Byte.isDelimiter tree.firstByte = Bool.false := by
  cases h with
  | scalar h =>
    obtain ⟨b, rest, rfl, hb⟩ := h.head
    exact not_blank_of_startsScalar hb
  | emptyList | list | emptyDict | dict => exact ⟨rfl, rfl⟩

end Parsed

end TypedJson
