import TypedJson.DateTime.Clues
import TypedJson.DateTime.Format

/-!
# Reading points in time

A pattern is read item by item: each item takes what it can from the front of the text and names
the fields that it found. The whole text has to be taken, and the fields have to determine a point
in time; without an offset it is taken for UTC. Without a pattern the text has to be as RFC 3339
demands.
-/

namespace TypedJson.DateTime

/-- The fields found so far, and the rest of the text. -/
abbrev Reading := Clues × List Char

/-- The value of a numeral. -/
def numeralValue (ds : List Char) : Nat := ds.foldl (fun n c ↦ n * 10 + (c.toNat - 0x30)) 0

/-- At least `low` digits and at most `high` of them, as a number below `2 ^ 63`; the digits are
answered too. -/
def digits? (low : Nat) (high : Option Nat) (cs : List Char) :
    Option (List Char × Nat × List Char) :=
  let ds := ((high.map cs.take).getD cs).takeWhile Char.isDigit
  let n := numeralValue ds
  if low ≤ ds.length ∧ n < Nat.pow 2 63 then some (ds, n, cs.drop ds.length) else none

/-- A number of at least one and at most `high` digits. -/
def unsigned? (high : Option Nat) (cs : List Char) : Option (Int × List Char) := do
  let (_, n, rest) ← digits? 1 high cs
  return (n, rest)

/-- A number that may have a sign; with a sign it may have any number of digits. -/
def signed? (high : Nat) (cs : List Char) : Option (Int × List Char) :=
  match cs with
  | '-' :: rest => (unsigned? none rest).map fun (n, rest) ↦ (-n, rest)
  | '+' :: rest => unsigned? none rest
  | cs => unsigned? (some high) cs

/-- A field written as a number, without leading blanks. -/
def number? (field : NumberField) (cs : List Char) : Option (Int × List Char) :=
  match field with
  | .year | .isoYear => signed? 4 cs
  | .quarter | .daysFromSunday | .daysFromMonday => unsigned? (some 1) cs
  | .ordinal => unsigned? (some 3) cs
  | .nanosecond => unsigned? (some 9) cs
  | .timestamp => unsigned? none cs
  | _ => unsigned? (some 2) cs

/-- The position of the name whose first three letters the text starts with, and what follows. -/
def shortName? (names : List String) (cs : List Char) : Option (Nat × List Char) := do
  let i ← names.findIdx? fun name ↦ lower (name.toList.take 3) == lower (cs.take 3)
  return (i, cs.drop 3)

/-- As `shortName?`, the rest of the name being taken too if it is there. -/
def longName? (names : List String) (cs : List Char) : Option (Nat × List Char) := do
  let (i, cs) ← shortName? names cs
  let tail := lower ((nameAt names i).drop 3)
  return (i, if lower (cs.take tail.length) == tail then cs.drop tail.length else cs)

/-- The digits of a fraction as nanoseconds. Digits beyond the ninth are dropped. -/
def fraction? (cs : List Char) : Option (Nat × List Char) := do
  let (ds, n, rest) ← digits? 1 (some 9) cs
  return (n * Nat.pow 10 (9 - ds.length), rest.dropWhile Char.isDigit)

/-- A fixed number of digits of a fraction as nanoseconds. -/
def fixedFraction? (count : Nat) (cs : List Char) : Option (Nat × List Char) := do
  let (_, n, rest) ← digits? count (some count) cs
  return (n * Nat.pow 10 (9 - count), rest)

/-- Two digits. -/
def pair? : List Char → Option (Nat × List Char)
  | a :: b :: cs =>
    if a.isDigit && b.isDigit then some (numeralValue [a, b], cs) else none
  | _ => none

/-- The text without leading colons and blanks. -/
def skipColons (cs : List Char) : List Char := cs.dropWhile fun c ↦ c == ':' || Text.isBlank c

/-- An offset in seconds: a sign, hours, what `separator` takes, and minutes. The letter Z stands
for no offset if `zulu`; the minutes may be missing at the end of the text if `lone`. -/
def offset? (separator : List Char → Option (List Char)) (zulu lone : Bool) (cs : List Char) :
    Option (Int × List Char) :=
  match cs with
  | [] => none
  | c :: cs =>
    if zulu && (c == 'Z' || c == 'z') then some (0, cs)
    else do
      let sign : Int ←
        if c = '+' then some 1 else if c = '-' ∨ c = '\u2212' then some (-1) else none
      let (hours, cs) ← pair? cs
      let cs ← separator cs
      if lone && cs.isEmpty then return (sign * (hours * 3600 : Nat), [])
      else
        let (minutes, cs) ← pair? cs
        if minutes < 60 then return (sign * (hours * 3600 + minutes * 60 : Nat), cs) else none

/-- An offset after blanks, with any colons and blanks inside. -/
def looseOffset? (zulu lone : Bool) (cs : List Char) : Option (Int × List Char) :=
  offset? (fun cs ↦ some (skipColons cs)) zulu lone (Text.trimLeft cs)

/-- The fraction after a point, if there is a point. -/
def readFraction? (read : List Char → Option (Nat × List Char)) (c : Clues) (cs : List Char) :
    Option Reading :=
  match cs with
  | '.' :: cs => do
    let (n, cs) ← read cs
    return (← c.setNanosecond n, cs)
  | cs => some (c, cs)

/-- A field written as a text; an RFC 3339 text within a pattern is read by `nested`. -/
def readText? (nested : Clues → List Char → Option Reading) (c : Clues) (cs : List Char) :
    TextField → Option Reading
  | .shortMonth => do
    let (i, cs) ← shortName? monthNames cs
    return (← c.set .month ((i : Int) + 1), cs)
  | .longMonth => do
    let (i, cs) ← longName? monthNames cs
    return (← c.set .month ((i : Int) + 1), cs)
  | .shortWeekday => do
    let (i, cs) ← shortName? weekdayNames cs
    return (← c.setWeekday i, cs)
  | .longWeekday => do
    let (i, cs) ← longName? weekdayNames cs
    return (← c.setWeekday i, cs)
  | .lowerHalfDay | .upperHalfDay =>
    if lower (cs.take 2) == ['a', 'm'] then (c.setHalf 0).map (·, cs.drop 2)
    else if lower (cs.take 2) == ['p', 'm'] then (c.setHalf 1).map (·, cs.drop 2)
    else none
  | .fraction => readFraction? fraction? c cs
  | .pointDigits count => readFraction? (fixedFraction? count) c cs
  | .digits count => do
    let (n, cs) ← fixedFraction? count cs
    return (← c.setNanosecond n, cs)
  | .zoneName => some (c, cs.dropWhile fun c ↦ !Text.isBlank c)
  | .offset | .offsetColon | .offsetSeconds | .offsetHours => do
    let (offset, cs) ← looseOffset? false false cs
    return (← c.setOffset offset, cs)
  | .offsetPermissive => do
    let (offset, cs) ← looseOffset? true true cs
    return (← c.setOffset offset, cs)
  | .rfc3339 => nested c cs

/-- One item; an RFC 3339 text is read by `nested`. -/
def readItem? (nested : Clues → List Char → Option Reading) (c : Clues) (cs : List Char) :
    Item → Option Reading
  | .literal l => if cs.head? = some l then some (c, cs.tail) else none
  | .space _ => some (c, Text.trimLeft cs)
  | .number field _ => do
    let (v, cs) ← number? field (Text.trimLeft cs)
    return (← c.set field v, cs)
  | .text field => readText? nested c cs field
  | .invalid => none

/-- Items one after another. -/
def readItems? (nested : Clues → List Char → Option Reading) (c : Clues) (cs : List Char)
    (items : List Item) : Option Reading :=
  items.foldlM (fun (c, cs) item ↦ readItem? nested c cs item) (c, cs)

/-- Items that hold no RFC 3339 text. -/
def readPlain? : Clues → List Char → List Item → Option Reading := readItems? fun _ _ ↦ none

/-- The mark between a date and a time. -/
def timeMark? : List Char → Option (List Char)
  | c :: cs => if c = 'T' ∨ c = 't' ∨ c = ' ' then some cs else none
  | [] => none

/-- An RFC 3339 text in which blanks may surround the marks, and `UTC` is an offset. -/
def readLoose? (c : Clues) (cs : List Char) : Option Reading := do
  let blank := Item.space ' '
  let (c, cs) ← readPlain? c cs
    [zeroPadded .year, blank, .literal '-', zeroPadded .month, blank, .literal '-',
      zeroPadded .day]
  let cs ← timeMark? cs
  let (c, cs) ← readPlain? c cs
    [zeroPadded .hour, blank, .literal ':', zeroPadded .minute, blank, .literal ':',
      zeroPadded .second, .text .fraction, blank]
  if lower (cs.take 3) == ['u', 't', 'c'] then return (← c.setOffset 0, cs.drop 3)
  else
    let (offset, cs) ← looseOffset? true false cs
    return (← c.setOffset offset, cs)

/-- A number of a fixed width. -/
def fixed? (field : NumberField) (width : Nat) (c : Clues) (cs : List Char) : Option Reading := do
  let (_, n, cs) ← digits? width (some width) cs
  return (← c.set field n, cs)

/-- A mark. -/
def mark? (m : Char) : List Char → Option (List Char)
  | c :: cs => if c = m then some cs else none
  | [] => none

/-- An RFC 3339 text. -/
def readStrict? (cs : List Char) : Option Reading := do
  let (c, cs) ← fixed? .year 4 {} cs
  let (c, cs) ← fixed? .month 2 c (← mark? '-' cs)
  let (c, cs) ← fixed? .day 2 c (← mark? '-' cs)
  let (c, cs) ← fixed? .hour 2 c (← timeMark? cs)
  let (c, cs) ← fixed? .minute 2 c (← mark? ':' cs)
  let (c, cs) ← fixed? .second 2 c (← mark? ':' cs)
  let (c, cs) ← readFraction? fraction? c cs
  let (offset, cs) ← offset? (mark? ':') true false cs
  if offset.natAbs ≤ 86340 then return (← c.setOffset offset, cs) else none

/-- The fields of a reading that took the whole text. -/
def complete? (reading : Option Reading) : Option Clues := do
  let (c, rest) ← reading
  if rest.isEmpty then some c else none

/-- The point in time that a text shows, by a pattern or as RFC 3339 demands. -/
def parse? (text : String) (pattern : Option String) : Option DateTime :=
  match pattern with
  | none => do (← complete? (readStrict? text.toList)).zoned?
  | some p => do
    let c ← complete? (readItems? readLoose? {} text.toList (itemsOf p))
    c.zoned? <|> c.unzoned?

end TypedJson.DateTime
