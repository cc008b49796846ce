import TypedJson.DateTime.Calendar
import TypedJson.DateTime.Pattern

/-!
# Writing points in time

Without a pattern a point in time is written as RFC 3339 demands: the fraction has no, three, six
or nine digits, and years beyond four digits carry their sign. With a pattern each item is written
in turn; a pattern with an invalid item, or with an item that can only be read, writes nothing.
-/

namespace TypedJson.DateTime

/-- A number filled up on the left to a width. -/
def fill (pad : Char) (width : Nat) (cs : List Char) : List Char :=
  List.replicate (width - cs.length) pad ++ cs

/-- The digits of a number. -/
def numeral (n : Nat) : List Char := Nat.toDigits 10 n

/-- A number with zeros in front. -/
def zeroFilled (width n : Nat) : List Char := fill '0' width (numeral n)

/-- An integer filled up to a width that includes its sign. A plus sign is written if asked for. -/
def integer (pad : Pad) (width : Nat) (plus : Bool) (n : Int) : List Char :=
  let sign := if n < 0 then ['-'] else if plus then ['+'] else []
  let ds := numeral n.natAbs
  match pad with
  | .nothing => sign ++ ds
  | .zero => sign ++ fill '0' (width - sign.length) ds
  | .blank => fill ' ' width (sign ++ ds)

/-- A year: four digits, or with its sign beyond them. -/
def yearText (pad : Pad) (year : Int) : List Char :=
  if 0 ≤ year ∧ year < 10000 then integer pad 4 false year else integer pad 5 true year

/-- A number below 256 in two places; the tens are one character, also beyond nine. -/
def twoPlaces (pad : Pad) (n : Nat) : List Char :=
  let tens := n / 10
  let front :=
    if tens = 0 ∧ pad = .nothing then []
    else if tens = 0 ∧ pad = .blank then [' ']
    else [Char.ofNat (0x30 + tens)]
  front ++ numeral (n % 10)

/-- The hour on a clock of twelve hours. -/
def hourOfTwelve (t : DateTime) : Nat := if t.hour % 12 = 0 then 12 else t.hour % 12

/-- A field written as a number. -/
def numberText (t : DateTime) (pad : Pad) : NumberField → List Char
  | .year => yearText pad t.date.year
  | .century => twoPlaces pad (t.date.year / 100 % 256).toNat
  | .yearOfCentury => twoPlaces pad (t.date.year % 100).toNat
  | .isoYear => yearText pad t.date.isoWeek.1
  | .isoYearOfCentury => twoPlaces pad (t.date.isoWeek.1 % 100).toNat
  | .quarter => numeral t.date.quarter
  | .month => twoPlaces pad t.date.month
  | .day => twoPlaces pad t.date.day
  | .weekFromSunday => twoPlaces pad (t.date.weekFrom 6)
  | .weekFromMonday => twoPlaces pad (t.date.weekFrom 0)
  | .isoWeek => twoPlaces pad t.date.isoWeek.2
  | .daysFromSunday => numeral ((t.date.weekday + 1) % 7)
  | .daysFromMonday => numeral (t.date.weekday + 1)
  | .ordinal => integer pad 3 false t.date.ordinal
  | .hour => twoPlaces pad t.hour
  | .hour12 => twoPlaces pad t.hourOfTwelve
  | .minute => twoPlaces pad t.minute
  | .second => twoPlaces pad t.secondOfMinute
  | .nanosecond => integer pad 9 false t.fraction
  | .timestamp => integer pad 9 false t.timestamp

/-- The months in English. -/
def monthNames : List String :=
  ["January", "February", "March", "April", "May", "June", "July", "August", "September",
    "October", "November", "December"]

/-- The days of the week in English, from Monday on. -/
def weekdayNames : List String :=
  ["Monday", "Tuesday", "Wednesday", "Thursday", "Friday", "Saturday", "Sunday"]

/-- The name at a position. -/
def nameAt (names : List String) (i : Nat) : List Char := (names[i]?.getD "").toList

/-- An offset without its sign: hours, and minutes and seconds as far as asked for. -/
def offsetText (offset : Int) (colon minutes seconds : Bool) : List Char :=
  let sign := if offset < 0 then '-' else '+'
  let size := offset.natAbs
  let total := if minutes && !seconds then (size + 30) / 60 * 60 else size
  let separator := if colon then [':'] else []
  sign :: (zeroFilled 2 (total / 3600) ++
    (if minutes then separator ++ zeroFilled 2 (total / 60 % 60) else []) ++
    (if seconds then separator ++ zeroFilled 2 (total % 60) else []))

/-- A point and as many digits of the fraction as it needs in steps of three. -/
def fractionText (t : DateTime) : List Char :=
  let n := t.fraction
  if n = 0 then []
  else if n % 1000000 = 0 then '.' :: zeroFilled 3 (n / 1000000)
  else if n % 1000 = 0 then '.' :: zeroFilled 6 (n / 1000)
  else '.' :: zeroFilled 9 n

/-- The first digits of the fraction. -/
def fractionDigits (t : DateTime) (count : Nat) : List Char :=
  zeroFilled count (t.fraction / Nat.pow 10 (9 - count))

/-- The zone of a clock is known by its offset. -/
def zoneText (t : DateTime) : List Char :=
  offsetText t.offset true true (t.offset % 60 != 0)

/-- A point in time as RFC 3339 writes it. -/
def rfc3339 (t : DateTime) : List Char :=
  yearText .zero t.date.year ++ '-' :: zeroFilled 2 t.date.month ++ '-' ::
    zeroFilled 2 t.date.day ++ 'T' :: zeroFilled 2 t.hour ++ ':' :: zeroFilled 2 t.minute ++
    ':' :: zeroFilled 2 t.secondOfMinute ++ t.fractionText ++ offsetText t.offset true true false

/-- Letters in lower case. -/
def lower (cs : List Char) : List Char := cs.map Char.toLower

/-- A field written as a text; `none` for a field that can only be read. -/
def textField? (t : DateTime) : TextField → Option (List Char)
  | .shortMonth => some ((nameAt monthNames (t.date.month - 1)).take 3)
  | .longMonth => some (nameAt monthNames (t.date.month - 1))
  | .shortWeekday => some ((nameAt weekdayNames t.date.weekday).take 3)
  | .longWeekday => some (nameAt weekdayNames t.date.weekday)
  | .upperHalfDay => some (if t.hour < 12 then ['A', 'M'] else ['P', 'M'])
  | .lowerHalfDay => some (if t.hour < 12 then ['a', 'm'] else ['p', 'm'])
  | .fraction => some t.fractionText
  | .pointDigits count => some ('.' :: t.fractionDigits count)
  | .digits count => some (t.fractionDigits count)
  | .zoneName => some t.zoneText
  | .offset => some (offsetText t.offset false true false)
  | .offsetColon => some (offsetText t.offset true true false)
  | .offsetSeconds => some (offsetText t.offset true true true)
  | .offsetHours => some (offsetText t.offset false false false)
  | .offsetPermissive => none
  | .rfc3339 => some t.rfc3339

/-- One item. -/
def itemText? (t : DateTime) : Item → Option (List Char)
  | .literal c | .space c => some [c]
  | .number field pad => some (t.numberText pad field)
  | .text field => t.textField? field
  | .invalid => none

/-- A point in time, by a pattern or as RFC 3339 demands. -/
def format? (t : DateTime) (pattern : Option String) : Option String :=
  match pattern with
  | none => some (String.ofList t.rfc3339)
  | some p => ((itemsOf p).mapM t.itemText?).map fun pieces ↦ String.ofList pieces.flatten

end TypedJson.DateTime
