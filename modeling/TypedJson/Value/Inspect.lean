import TypedJson.Decimal.Shortest
import TypedJson.DateTime.Format
import TypedJson.Text.Inspect
import TypedJson.Value.Basic

/-!
# Values for inspection

`Value.inspect` shows a value as it is, without resolving anything: constructors by name, unread
fields as `<lazy>` and ghosts as `<ghost>`.
-/

namespace TypedJson

/-- A double for inspection. From `10 ^ 16` on and below `10 ^ (-4)` it has an exponent, without a
plus sign. -/
def inspectFloat (f : Float) : String :=
  if f.isNaN then "NaN"
  else if f == 1.0 / 0.0 then "inf"
  else if f == -1.0 / 0.0 then "-inf"
  else
    let (negative, size) := Decimal.signAndSize f
    let sign := if negative then "-" else ""
    if size = 0 then sign ++ "0.0"
    else
      let d := Decimal.shortest (.ofBits size)
      let ds := Decimal.digitsOf d.coefficient
      let point : Int := ds.length + d.exponent
      let body :=
        if -4 < point ∧ point ≤ 16 then d.text
        else
          let mantissa := if ds.length = 1 then ds else ds.take 1 ++ '.' :: ds.drop 1
          mantissa ++ 'e' :: (toString (point - 1)).toList
      sign ++ String.ofList body

/-- A key for inspection. -/
def DictKey.inspect : DictKey → String
  | int i => "Int(" ++ toString i.toInt ++ ")"
  | string s => "String(" ++ Text.inspect s ++ ")"

mutual

/-- A value for inspection. -/
def Value.inspect : Value → String
  | .null => "Null"
  | .bool b => "Bool(" ++ toString b ++ ")"
  | .int i => "Int(" ++ toString i.toInt ++ ")"
  | .float f => "Float(OrderedFloat(" ++ inspectFloat f ++ "))"
  | .string s => "String(" ++ Text.inspect s ++ ")"
  | .list items => "List([" ++ ", ".intercalate (inspectItems items) ++ "])"
  | .dict entries => "Dict(\x7b" ++ ", ".intercalate (inspectEntries entries) ++ "\x7d)"
  | .object o => "Object(" ++ inspectObject o ++ ")"
  | .enum className case =>
    "Enum \x7b class: " ++ Text.inspect className ++ ", case: " ++ case.inspect ++ " \x7d"
  | .dateTime t => "DateTime(" ++ String.ofList t.rfc3339 ++ ")"
termination_by structural value => value

/-- The items of a list for inspection. -/
def inspectItems : List Value → List String
  | [] => []
  | item :: items => item.inspect :: inspectItems items
termination_by structural items => items

/-- The entries of a dictionary for inspection. -/
def inspectEntries : List (DictKey × Value) → List String
  | [] => []
  | (key, value) :: entries => (key.inspect ++ ": " ++ value.inspect) :: inspectEntries entries
termination_by structural entries => entries

/-- An object for inspection. -/
def inspectObject : Object Value → String
  | ⟨_, className, .ghost _ _ _⟩ => className ++ " <ghost>"
  | ⟨_, className, .ready []⟩ => className
  | ⟨_, className, .ready slots⟩ =>
    className ++ " \x7b " ++ ", ".intercalate (inspectSlots slots) ++ " \x7d"
termination_by structural o => o

/-- Slots for inspection. -/
def inspectSlots : List (String × Slot Value) → List String
  | [] => []
  | (name, .initialized value) :: slots => (name ++ ": " ++ value.inspect) :: inspectSlots slots
  | (name, .pending _ _) :: slots => (name ++ ": <lazy>") :: inspectSlots slots
termination_by structural slots => slots

end

end TypedJson
