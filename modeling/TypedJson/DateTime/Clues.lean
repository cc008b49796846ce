import TypedJson.DateTime.Calendar
import TypedJson.DateTime.Pattern

/-!
# From fields to a point in time

A text names fields of a point in time: a year and an ordinal, a week and a weekday, a timestamp.
`Clues` collects them; a field that is named twice has to agree with itself. `Clues.date` and
`Clues.time` find the date and the time of day that the fields determine, and check every other
field against them. A timestamp stands in for what is missing.
-/

namespace TypedJson.DateTime

/-- Why fields do not determine a date or a time. -/
inductive Deficit where
  /-- Fields are missing. -/
  | missing
  /-- Fields contradict each other or the calendar. -/
  | wrong
  deriving DecidableEq

/-- The fields that a text names. -/
structure Clues where
  year : Option Int := none
  century : Option Int := none
  yearOfCentury : Option Int := none
  isoYear : Option Int := none
  isoYearOfCentury : Option Int := none
  quarter : Option Nat := none
  month : Option Nat := none
  day : Option Nat := none
  weekFromSunday : Option Nat := none
  weekFromMonday : Option Nat := none
  isoWeek : Option Nat := none
  /-- The day of the week, Monday being zero. -/
  weekday : Option Nat := none
  ordinal : Option Nat := none
  /-- Zero before noon, and one from noon on. -/
  half : Option Nat := none
  /-- The hour since midnight or noon. -/
  hourOfHalf : Option Nat := none
  minute : Option Nat := none
  second : Option Nat := none
  nanosecond : Option Nat := none
  timestamp : Option Int := none
  offset : Option Int := none

namespace Clues

/-! ## Naming fields -/

/-- A field with a value that it does not contradict. -/
def agree {α : Type} [DecidableEq α] (old : Option α) (new : α) : Option (Option α) :=
  match old with
  | some a => if a = new then some (some new) else none
  | none => some (some new)

/-- An integer within bounds, as a natural number. -/
def within? (low high : Nat) (v : Int) : Option Nat :=
  if (low : Int) ≤ v ∧ v ≤ high then some v.toNat else none

/-- A year of 32 bits. -/
def year32? (v : Int) : Option Int :=
  if Int32.minValue.toInt ≤ v ∧ v ≤ Int32.maxValue.toInt then some v else none

/-- The fields with half of the day. -/
def setHalf (c : Clues) (half : Nat) : Option Clues := do
  return { c with half := ← agree c.half half }

/-- The fields with a day of the week. -/
def setWeekday (c : Clues) (weekday : Nat) : Option Clues := do
  return { c with weekday := ← agree c.weekday weekday }

/-- The fields with a nanosecond. -/
def setNanosecond (c : Clues) (n : Nat) : Option Clues := do
  return { c with nanosecond := ← agree c.nanosecond n }

/-- The fields with an offset in seconds. -/
def setOffset (c : Clues) (offset : Int) : Option Clues := do
  return { c with offset := ← agree c.offset offset }

/-- The fields with an hour of the day. -/
def setHour (c : Clues) (hour : Nat) : Option Clues := do
  let c ← c.setHalf (hour / 12)
  return { c with hourOfHalf := ← agree c.hourOfHalf (hour % 12) }

/-- The fields with a field written as a number. -/
def set (c : Clues) (field : NumberField) (v : Int) : Option Clues :=
  match field with
  | .year => do return { c with year := ← agree c.year (← year32? v) }
  | .century => do return { c with century := ← agree c.century v }
  | .yearOfCentury => do
    return { c with yearOfCentury := ← agree c.yearOfCentury ((← within? 0 99 v : Nat) : Int) }
  | .isoYear => do return { c with isoYear := ← agree c.isoYear (← year32? v) }
  | .isoYearOfCentury => do
    let year : Nat ← within? 0 99 v
    return { c with isoYearOfCentury := ← agree c.isoYearOfCentury year }
  | .quarter => do return { c with quarter := ← agree c.quarter (← within? 1 4 v) }
  | .month => do return { c with month := ← agree c.month (← within? 1 12 v) }
  | .day => do return { c with day := ← agree c.day (← within? 1 31 v) }
  | .weekFromSunday => do
    return { c with weekFromSunday := ← agree c.weekFromSunday (← within? 0 53 v) }
  | .weekFromMonday => do
    return { c with weekFromMonday := ← agree c.weekFromMonday (← within? 0 53 v) }
  | .isoWeek => do return { c with isoWeek := ← agree c.isoWeek (← within? 1 53 v) }
  | .daysFromSunday => do c.setWeekday (((← within? 0 6 v) + 6) % 7)
  | .daysFromMonday => do c.setWeekday ((← within? 1 7 v) - 1)
  | .ordinal => do return { c with ordinal := ← agree c.ordinal (← within? 1 366 v) }
  | .hour => do c.setHour (← within? 0 23 v)
  | .hour12 => do
    return { c with hourOfHalf := ← agree c.hourOfHalf ((← within? 1 12 v) % 12) }
  | .minute => do return { c with minute := ← agree c.minute (← within? 0 59 v) }
  | .second => do return { c with second := ← agree c.second (← within? 0 60 v) }
  | .nanosecond => do c.setNanosecond (← within? 0 999999999 v)
  | .timestamp => do return { c with timestamp := ← agree c.timestamp v }

/-! ## The date -/

/-- A field that is named is as it should be. -/
def fits {α : Type} [DecidableEq α] (named : Option α) (actual : α) : Bool :=
  match named with
  | some a => decide (a = actual)
  | none => true

/-- The year that a year, a century and a year of the century determine. A year of the century
alone lies between 1970 and 2069. -/
def fullYear (year century rest : Option Int) : Except Deficit (Option Int) :=
  match year, century, rest with
  | year, none, none => .ok year
  | some y, q, r =>
    if 0 ≤ y && fits q (y / 100) && fits r (y % 100) then .ok (some y) else .error .wrong
  | none, some q, some r => .ok (some (q * 100 + r))
  | none, none, some r => .ok (some (if r < 70 then 2000 + r else 1900 + r))
  | none, some _, none => .error .missing

/-- A year of the calendar fits the year, the century and the year of the century. -/
def fitsYear (year century rest : Option Int) (y : Int) : Bool :=
  fits year y && ((century.isNone && rest.isNone) ||
    (0 ≤ y && fits century (y / 100) && fits rest (y % 100)))

/-- The date has the year, the month and the day. -/
def fitsParts (c : Clues) (d : Date) : Bool :=
  fitsYear c.year c.century c.yearOfCentury d.year && fits c.month d.month && fits c.day d.day

/-- The date has the ISO year and week, and the weekday. -/
def fitsIsoWeek (c : Clues) (d : Date) : Bool :=
  fitsYear c.isoYear none c.isoYearOfCentury d.isoWeek.1 && fits c.isoWeek d.isoWeek.2 &&
    fits c.weekday d.weekday

/-- The date has the ordinal and the weeks of the year. -/
def fitsOrdinal (c : Clues) (d : Date) : Bool :=
  fits c.ordinal d.ordinal && fits c.weekFromSunday (d.weekFrom 6) &&
    fits c.weekFromMonday (d.weekFrom 0)

/-- The date found, if the fields that did not determine it fit. -/
def checked (c : Clues) (found : Option Date) (check : Date → Bool) : Except Deficit Date :=
  match found with
  | some d => if check d && fits c.quarter d.quarter then .ok d else .error .wrong
  | none => .error .wrong

/-- The date that the fields determine. -/
def date (c : Clues) : Except Deficit Date := do
  let year ← fullYear c.year c.century c.yearOfCentury
  let isoYear ← fullYear c.isoYear none c.isoYearOfCentury
  let all : Date → Bool := fun d ↦ c.fitsParts d && c.fitsIsoWeek d && c.fitsOrdinal d
  let byIsoWeek : Except Deficit Date :=
    match isoYear, c.isoWeek, c.weekday with
    | some y, some week, some weekday => c.checked (Date.ofIsoWeek? y week weekday) all
    | _, _, _ => .error .missing
  match year with
  | none => byIsoWeek
  | some y =>
    match c.month, c.day, c.ordinal with
    | some month, some day, _ => c.checked (Date.ofParts? y month day) all
    | _, _, some ordinal => c.checked (Date.ofOrdinal? y ordinal) all
    | _, _, none =>
      match c.weekFromSunday, c.weekFromMonday, c.weekday with
      | some week, _, some weekday => c.checked (Date.ofWeek? y week weekday 6) all
      | none, some week, some weekday => c.checked (Date.ofWeek? y week weekday 0) all
      | _, _, _ => byIsoWeek

/-! ## The time of day -/

/-- The second of the day and the nanosecond that the fields determine. A sixtieth second is the
fifty-ninth with a nanosecond beyond its range. -/
def time (c : Clues) : Except Deficit (Nat × Nat) :=
  match c.half, c.hourOfHalf, c.minute with
  | some half, some hour, some minute =>
    let base := (half * 12 + hour) * 3600 + minute * 60
    match c.second, c.nanosecond with
    | none, none => .ok (base, 0)
    | none, some _ => .error .missing
    | some second, nanosecond =>
      let n := nanosecond.getD 0
      .ok (if second = 60 then (base + 59, 1000000000 + n) else (base + second, n))
  | _, _, _ => .error .missing

/-! ## The point in time -/

/-- The date and time of day at a timestamp, if the calendar has it. -/
def atTimestamp? (seconds : Int) : Option (Date × Nat) :=
  let d := Date.ofNumber (seconds / 86400)
  if Date.inRange d.year then some (d, (seconds % 86400).toNat) else none

/-- The fields with those that a timestamp at an offset determines. A sixtieth second that is named
stays; the timestamp may then be that second or the next. -/
def fillIn? (c : Clues) (timestamp offset : Int) : Option Clues := do
  let local_ := timestamp + offset
  if local_ < Int64.minValue.toInt ∨ Int64.maxValue.toInt < local_ then none
  else
    let (_, clock) ← atTimestamp? local_
    let leap := c.second == some 60
    if leap && clock % 60 != 59 && clock % 60 != 0 then none
    else
      let start := if leap && clock % 60 == 0 then local_ - 1 else local_
      let (d, clock) ← atTimestamp? start
      let c ← if leap then some c else c.set .second (clock % 60 : Nat)
      let c ← c.set .year d.year
      let c ← c.set .ordinal (d.ordinal : Nat)
      let c ← c.setHour (clock / 3600)
      c.set .minute (clock / 60 % 60 : Nat)

/-- The local date, second of the day and nanosecond at an offset. -/
def clock? (c : Clues) (offset : Int) : Option (Date × Nat × Nat) :=
  match c.date, c.time with
  | .ok d, .ok (second, nanosecond) =>
    let actual := d.number * 86400 + second - offset
    let agrees (given : Int) : Bool :=
      given == actual || (1000000000 ≤ nanosecond && given == actual + 1)
    if c.timestamp.all agrees then some (d, second, nanosecond) else none
  | .error .wrong, _ | _, .error .wrong => none
  | _, _ => do
    let c ← c.fillIn? (← c.timestamp) offset
    let d ← c.date.toOption
    let (second, nanosecond) ← c.time.toOption
    return (d, second, nanosecond)

/-- The point in time. A timestamp without an offset counts from UTC. -/
def zoned? (c : Clues) : Option DateTime := do
  let offset ← c.offset <|> c.timestamp.map fun _ ↦ 0
  let (d, second, nanosecond) ← c.clock? offset
  let t : DateTime := ⟨d, second, nanosecond, offset⟩
  if -86400 < offset ∧ offset < 86400 ∧ (atTimestamp? t.timestamp).isSome then some t else none

/-- The point in time, the local time being taken for UTC. -/
def unzoned? (c : Clues) : Option DateTime := do
  let (d, second, nanosecond) ← c.clock? 0
  return ⟨d, second, nanosecond, 0⟩

end Clues

end TypedJson.DateTime
