import TypedJson.Text.Blank

/-!
# Date-time patterns

A pattern is a text in which a percent sign starts a directive. It is read into a list of items;
the first directive that does not exist becomes `Item.invalid` and ends the list. Directives that
stand for several fields are expanded. The modifiers `-`, `0` and `_` set the padding of a directive
that stands for a single number.
-/

namespace TypedJson.DateTime

/-- What a number is filled up with. -/
inductive Pad where
  | nothing
  | zero
  | blank
  deriving DecidableEq

/-- A field written as a number. -/
inductive NumberField where
  | year | century | yearOfCentury | isoYear | isoYearOfCentury | quarter | month | day
  | weekFromSunday | weekFromMonday | isoWeek | daysFromSunday | daysFromMonday | ordinal
  | hour | hour12 | minute | second | nanosecond | timestamp
  deriving DecidableEq

/-- A field written as a text. -/
inductive TextField where
  | shortMonth | longMonth | shortWeekday | longWeekday | lowerHalfDay | upperHalfDay
  /-- A point and three, six or nine digits, nothing for a whole second. -/
  | fraction
  /-- A point and a fixed number of digits. -/
  | pointDigits (count : Nat)
  /-- A fixed number of digits of the fraction. -/
  | digits (count : Nat)
  | zoneName
  /-- The offset as `+hhmm`. -/
  | offset
  /-- The offset as `+hh:mm`. -/
  | offsetColon
  /-- The offset as `+hh:mm:ss`. -/
  | offsetSeconds
  /-- The offset as `+hh`. -/
  | offsetHours
  /-- An offset whose minutes may be missing; it can only be read. -/
  | offsetPermissive
  | rfc3339
  deriving DecidableEq

/-- A piece of a pattern. -/
inductive Item where
  | literal (c : Char)
  /-- A blank, which stands for any number of blanks when a text is read. -/
  | space (c : Char)
  | number (field : NumberField) (pad : Pad)
  | text (field : TextField)
  | invalid
  deriving DecidableEq

/-- A number filled up with zeros. -/
def zeroPadded (field : NumberField) : Item := .number field .zero

/-- Hours, minutes and seconds with colons between them. -/
def clockItems (hours : NumberField) : List Item :=
  [zeroPadded hours, .literal ':', zeroPadded .minute, .literal ':', zeroPadded .second]

/-- Month, day and year of the century with slashes between them. -/
def slashItems : List Item :=
  [zeroPadded .month, .literal '/', zeroPadded .day, .literal '/', zeroPadded .yearOfCentury]

/-- The items of a directive of one letter. -/
def directive? : Char → Option (List Item)
  | 'A' => some [.text .longWeekday]
  | 'B' => some [.text .longMonth]
  | 'C' => some [zeroPadded .century]
  | 'D' | 'x' => some slashItems
  | 'F' =>
    some [zeroPadded .year, .literal '-', zeroPadded .month, .literal '-', zeroPadded .day]
  | 'G' => some [zeroPadded .isoYear]
  | 'H' => some [zeroPadded .hour]
  | 'I' => some [zeroPadded .hour12]
  | 'M' => some [zeroPadded .minute]
  | 'P' => some [.text .lowerHalfDay]
  | 'R' => some [zeroPadded .hour, .literal ':', zeroPadded .minute]
  | 'S' => some [zeroPadded .second]
  | 'T' | 'X' => some (clockItems .hour)
  | 'U' => some [zeroPadded .weekFromSunday]
  | 'V' => some [zeroPadded .isoWeek]
  | 'W' => some [zeroPadded .weekFromMonday]
  | 'Y' => some [zeroPadded .year]
  | 'Z' => some [.text .zoneName]
  | 'a' => some [.text .shortWeekday]
  | 'b' | 'h' => some [.text .shortMonth]
  | 'c' =>
    some ([.text .shortWeekday, .space ' ', .text .shortMonth, .space ' ', .number .day .blank,
      .space ' '] ++ clockItems .hour ++ [.space ' ', zeroPadded .year])
  | 'd' => some [zeroPadded .day]
  | 'e' => some [.number .day .blank]
  | 'f' => some [zeroPadded .nanosecond]
  | 'g' => some [zeroPadded .isoYearOfCentury]
  | 'j' => some [zeroPadded .ordinal]
  | 'k' => some [.number .hour .blank]
  | 'l' => some [.number .hour12 .blank]
  | 'm' => some [zeroPadded .month]
  | 'n' => some [.space '\n']
  | 'p' => some [.text .upperHalfDay]
  | 'q' => some [.number .quarter .nothing]
  | 'r' => some (clockItems .hour12 ++ [.space ' ', .text .upperHalfDay])
  | 's' => some [.number .timestamp .nothing]
  | 't' => some [.space '\t']
  | 'u' => some [.number .daysFromMonday .nothing]
  | 'v' =>
    some [.number .day .blank, .literal '-', .text .shortMonth, .literal '-', zeroPadded .year]
  | 'w' => some [.number .daysFromSunday .nothing]
  | 'y' => some [zeroPadded .yearOfCentury]
  | 'z' => some [.text .offset]
  | '+' => some [.text .rfc3339]
  | '%' => some [.literal '%']
  | _ => none

/-- The padding that a modifier asks for. -/
def modifier? : Char → Option Pad
  | '-' => some .nothing
  | '0' => some .zero
  | '_' => some .blank
  | _ => none

/-- The items of a directive whose padding is set. -/
def padded? (pad : Pad) (c : Char) : Option Item :=
  match directive? c with
  | some [.number field _] => some (.number field pad)
  | _ => none

/-- The items of a pattern. -/
def items : List Char → List Item
  | [] => []
  | '%' :: '#' :: 'z' :: cs => .text .offsetPermissive :: items cs
  | '%' :: ':' :: ':' :: ':' :: 'z' :: cs => .text .offsetHours :: items cs
  | '%' :: ':' :: ':' :: 'z' :: cs => .text .offsetSeconds :: items cs
  | '%' :: ':' :: 'z' :: cs => .text .offsetColon :: items cs
  | '%' :: '.' :: 'f' :: cs => .text .fraction :: items cs
  | '%' :: '.' :: '3' :: 'f' :: cs => .text (.pointDigits 3) :: items cs
  | '%' :: '.' :: '6' :: 'f' :: cs => .text (.pointDigits 6) :: items cs
  | '%' :: '.' :: '9' :: 'f' :: cs => .text (.pointDigits 9) :: items cs
  | '%' :: '3' :: 'f' :: cs => .text (.digits 3) :: items cs
  | '%' :: '6' :: 'f' :: cs => .text (.digits 6) :: items cs
  | '%' :: '9' :: 'f' :: cs => .text (.digits 9) :: items cs
  | '%' :: c :: cs =>
    match modifier? c, cs with
    | some pad, d :: cs =>
      match padded? pad d with
      | some item => item :: items cs
      | none => [.invalid]
    | some _, [] => [.invalid]
    | none, cs =>
      match directive? c with
      | some expanded => expanded ++ items cs
      | none => [.invalid]
  | ['%'] => [.invalid]
  | c :: cs => (if Text.isBlank c then .space c else .literal c) :: items cs

/-- The items of a pattern given as a string. -/
def itemsOf (pattern : String) : List Item := items pattern.toList

/-- Whether every directive of a pattern exists. -/
def isPattern (pattern : String) : Bool := !(itemsOf pattern).contains .invalid

end TypedJson.DateTime
