/-!
# The calendar

Dates of the Gregorian calendar, extended to all years. A date is a year, a month and a day; its
day number counts from 1 January 1970. Weeks are counted in three ways: from the first Sunday, from
the first Monday, and as ISO weeks, which belong to the year of their Thursday.
-/

namespace TypedJson

/-- A date. -/
structure Date where
  year : Int
  month : Nat
  day : Nat
  deriving DecidableEq

namespace Date

/-- Whether a year has 366 days. -/
def isLeapYear (year : Int) : Bool := year % 4 == 0 && (year % 100 != 0 || year % 400 == 0)

/-- The number of days of a year. -/
def daysInYear (year : Int) : Nat := if isLeapYear year then 366 else 365

/-- The number of days of a month. -/
def daysInMonth (year : Int) (month : Nat) : Nat :=
  if month = 2 then (if isLeapYear year then 29 else 28)
  else if month = 4 ∨ month = 6 ∨ month = 9 ∨ month = 11 then 30
  else 31

/-- The years that dates are limited to. -/
def inRange (year : Int) : Bool := -262143 ≤ year && year ≤ 262142

/-- The date, if the calendar has it. -/
def ofParts? (year : Int) (month day : Nat) : Option Date :=
  if inRange year && 1 ≤ month && month ≤ 12 && 1 ≤ day && day ≤ daysInMonth year month then
    some ⟨year, month, day⟩
  else none

/-- The day of the year, from one on. -/
def ordinal (d : Date) : Nat :=
  (List.range (d.month - 1)).foldl (fun days m ↦ days + daysInMonth d.year (m + 1)) d.day

/-- The month and the day of a day of the year, looked for from `month` on. -/
def monthAndDay (year : Int) (month day fuel : Nat) : Nat × Nat :=
  match fuel with
  | 0 => (month, day)
  | fuel + 1 =>
    if day ≤ daysInMonth year month then (month, day)
    else monthAndDay year (month + 1) (day - daysInMonth year month) fuel

/-- The date of a day of the year, if the year has it. -/
def ofOrdinal? (year : Int) (ordinal : Nat) : Option Date :=
  if inRange year && 1 ≤ ordinal && ordinal ≤ daysInYear year then
    let (month, day) := monthAndDay year 1 ordinal 11
    some ⟨year, month, day⟩
  else none

/-- The days before 1 January of a year, counted from 1 January 1970. -/
def daysBefore (year : Int) : Int :=
  let y := year - 1
  365 * y + y / 4 - y / 100 + y / 400 - 719162

/-- The day number of a date. -/
def number (d : Date) : Int := daysBefore d.year + d.ordinal - 1

/-- The date of a day number. The year is estimated from the mean length of a year, which is off by
at most one. -/
def ofNumber (n : Int) : Date :=
  let estimate := (n + 719162) * 400 / 146097 + 1
  let year :=
    if n < daysBefore estimate then estimate - 1
    else if daysBefore (estimate + 1) ≤ n then estimate + 1
    else estimate
  let (month, day) := monthAndDay year 1 (n - daysBefore year + 1).toNat 11
  ⟨year, month, day⟩

/-- The day of the week, Monday being zero. -/
def weekday (d : Date) : Nat := ((d.number + 3) % 7).toNat

/-- The quarter of the year, from one on. -/
def quarter (d : Date) : Nat := (d.month - 1) / 3 + 1

/-- The week of the year, counted from the first day of the year that is `start`. -/
def weekFrom (d : Date) (start : Nat) : Nat :=
  (d.ordinal + 6 - (d.weekday + 7 - start) % 7) / 7

/-- The ISO year and week. -/
def isoWeek (d : Date) : Int × Nat :=
  let thursday := ofNumber (d.number - d.weekday + 3)
  (thursday.year, (thursday.ordinal - 1) / 7 + 1)

/-- The date of a weekday in an ISO week, if the year has the week. -/
def ofIsoWeek? (year : Int) (week weekday : Nat) : Option Date :=
  let first : Date := ⟨year, 1, 4⟩
  let d := ofNumber (first.number - first.weekday + 7 * ((week : Int) - 1) + weekday)
  if 1 ≤ week && d.isoWeek == (year, week) && inRange d.year then some d else none

/-- The date of a weekday in a week that is counted from the first day that is `start`, if it is in
the year. -/
def ofWeek? (year : Int) (week weekday start : Nat) : Option Date :=
  let first : Date := ⟨year, 1, 1⟩
  let firstStart : Int := 1 + (start + 7 - first.weekday) % 7
  let ordinal := firstStart + ((week : Int) - 1) * 7 + (weekday + 7 - start) % 7
  if week ≤ 53 && 0 < ordinal then ofOrdinal? year ordinal.toNat else none

end Date

/-- A point in time on a clock: the local date and time of day, and the offset from UTC in seconds.
The nanosecond goes on to twice its range within a leap second. -/
structure DateTime where
  date : Date
  /-- The second of the day. -/
  second : Nat
  nanosecond : Nat
  offset : Int
  deriving DecidableEq

namespace DateTime

/-- The seconds since the start of 1970 in UTC. -/
def timestamp (t : DateTime) : Int := t.date.number * 86400 + t.second - t.offset

/-- Whether two clocks show the same instant, whatever their offsets. -/
def sameInstant (a b : DateTime) : Bool :=
  a.timestamp == b.timestamp && a.nanosecond == b.nanosecond

/-- The hour of the day. -/
def hour (t : DateTime) : Nat := t.second / 3600

/-- The minute of the hour. -/
def minute (t : DateTime) : Nat := t.second / 60 % 60

/-- The second of the minute, sixty within a leap second. -/
def secondOfMinute (t : DateTime) : Nat := t.second % 60 + t.nanosecond / 1000000000

/-- The nanosecond of the second. -/
def fraction (t : DateTime) : Nat := t.nanosecond % 1000000000

end DateTime

end TypedJson
