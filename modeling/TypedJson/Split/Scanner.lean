import TypedJson.Split.Container

/-!
# Splitting through a cursor

A scanner splits a container while a cursor walks over it. It sees each byte of a member once, keeps
none of them but those of the key, and goes no further than the comma behind the member that it is
asked for. What it answers for a value is where the value stands.

On the way through a value it counts brackets and remembers the first stray byte, so that it knows
at the end of the value whether the value is broken. Behind a broken member it looks for the next
comma.
-/

namespace TypedJson

open Resource (endOfInput)

/-- Where a value stands. -/
structure Span where
  offset : Nat
  length : Nat

/-- Where a window stands. -/
def Window.span (w : Window) : Span := ⟨w.offset, w.bytes.length⟩

/-- Why a scan stops. -/
inductive Halt where
  /-- A member is broken, but others may follow. -/
  | member (failure : Failure)
  /-- The split cannot go on. -/
  | split (failure : Failure)

/-- What is wrong. -/
def Halt.failure : Halt → Failure
  | member failure | split failure => failure

/-- A step of a scan. -/
abbrev Scanning (α : Type) : Type := EStateM Halt Cursor α

namespace Scanning

/-- A move of the cursor. A resource that cannot be read ends the split. -/
def move {α : Type} (x : Cursor → Except Failure α × Cursor) : Scanning α := fun c ↦
  match x c with
  | (.ok a, c) => .ok a c
  | (.error failure, c) => .error (.split failure) c

/-- The offset of the next byte. -/
def position : Scanning Nat := fun c ↦ .ok c.position c

/-- How many bytes are left. -/
def remaining : Scanning Nat := fun c ↦ .ok (c.stop - c.position) c

variable (r : Resource)

/-- The next byte, if there is one. -/
def peek : Scanning (Option UInt8) := move (·.peek r)

/-- The next byte, consumed. -/
def next : Scanning (Option UInt8) := move (·.next r)

/-- The next byte that is no blank; blanks before it are consumed. -/
def peekNonBlank : Scanning (Option UInt8) := move (·.peekNonBlank r)

/-- Consumes the letters of a word that starts at `start`. -/
def word (start : Nat) : List UInt8 → Scanning Unit
  | [] => return ()
  | letter :: letters => do
    let offset ← position
    match ← next r with
    | none => throw (.split (endOfInput start))
    | some b =>
      if b = letter then word start letters
      else throw (.split (Window.unexpected offset b))

/-- The bytes of a string after its opening quote, up to and with the closing one, after those
already read. The limit is as large as the number of bytes that are left. -/
def string : (limit : Nat) → (read : List UInt8) → Scanning (List UInt8)
  | 0, _ => do throw (.split (endOfInput (← position)))
  | limit + 1, read => do
    let offset ← position
    match ← next r with
    | none => throw (.split (endOfInput offset))
    | some b =>
      if b = Byte.quote then return (b :: read).reverse
      else if b = Byte.backslash then
        match ← next r with
        | none => throw (.split (endOfInput offset))
        | some escaped => string limit (escaped :: b :: read)
      else string limit (b :: read)

end Scanning

/-! ## Values -/

/-- What a scan knows of the value that it is in. -/
structure Passed where
  /-- The closing brackets to come, the next one first. -/
  closers : List UInt8 := []
  /-- The offset behind the last byte that is no blank. -/
  stop : Nat
  /-- Whether the last byte is a blank. -/
  afterBlank : Bool := false
  /-- The first stray byte, with its offset. -/
  stray : Option (Nat × UInt8) := none

namespace Passed

/-- After a byte of the value that is no blank. -/
def pass (s : Passed) (offset : Nat) (b : UInt8) : Passed :=
  let isStray := s.afterBlank && s.closers.isEmpty || Byte.isCloser b && s.closers.head? ≠ some b
  { s with
    closers :=
      if b = Byte.openList then Byte.closeList :: s.closers
      else if b = Byte.openDict then Byte.closeDict :: s.closers
      else if Byte.isCloser b then s.closers.tail
      else s.closers
    afterBlank := false
    stray := s.stray <|> if isStray then some (offset, b) else none }

/-- At the end of the value. -/
def finish (s : Passed) : Scanning Nat :=
  match s.stray with
  | some (offset, b) => throw (.member (Window.unexpected offset b))
  | none => return s.stop

end Passed

namespace Scanning

variable (r : Resource)

/-- Goes to the end of a value, and answers the offset behind its last byte that is no blank. The
limit is as large as the number of bytes that are left. -/
def value : (limit : Nat) → Passed → Scanning Nat
  | 0, _ => do throw (.split (endOfInput (← position)))
  | limit + 1, s => do
    let offset ← position
    match ← peek r with
    | none => throw (.split (endOfInput offset))
    | some b =>
      if Byte.isDelimiter b && s.closers.isEmpty then s.finish
      else
        let _ ← next r
        if Text.isJsonBlank b then value limit { s with afterBlank := true }
        else
          let _ ← (if b = Byte.quote then string r limit [] else pure [])
          value limit { s.pass offset b with stop := ← position }

/-- Goes to the end of whatever is left of a broken member. -/
def skip : Scanning Unit := fun c ↦
  match value r (c.stop - c.position) { stop := c.position } c with
  | .ok _ c | .error (.member _) c => .ok () c
  | .error (.split failure) c => .error (.split failure) c

/-- The colon after a key. -/
def colon (key : String) : Scanning String := do
  let offset ← position
  match ← peekNonBlank r with
  | none => throw (.split (endOfInput offset))
  | some b =>
    if b = Byte.colon then
      let _ ← next r
      return key
    else throw (.member (Window.unexpected (← position) b))

/-- The key of an entry, with the colon behind it. A byte that does not start a key is consumed. -/
def entryKey : Scanning String := do
  let offset ← position
  let first ← next r
  if first ≠ some Byte.quote then throw (.member (.unexpectedToken offset "expected key"))
  else
    let body ← string r (← remaining) []
    match Json.readString? (Byte.quote :: body) with
    | none => throw (.member (.invalidResource offset "invalid key"))
    | some key => colon r key

end Scanning

/-! ## Scanners -/

/-- A kind of container that is split through a cursor, whose members have keys of a type. -/
structure Scanner (κ : Type) where
  opener : UInt8
  closer : UInt8
  key : Resource → Scanning κ

namespace Scanner

open Scanning

/-- Lists, whose members have no keys. -/
def list : Scanner Unit := ⟨Byte.openList, Byte.closeList, fun _ ↦ return ()⟩

/-- Dictionaries. -/
def dict : Scanner String := ⟨Byte.openDict, Byte.closeDict, entryKey⟩

variable {κ : Type} (scanner : Scanner κ) (r : Resource)

/-- Goes into a container, and answers whether there is one; `null` has no members. -/
def enter : Scanning Bool := do
  let offset ← position
  match ← peekNonBlank r with
  | none => throw (.split (endOfInput offset))
  | some b =>
    let start ← position
    if b = scanner.opener then
      let _ ← next r
      return true
    else if b = 0x6E then
      word r start [0x6E, 0x75, 0x6C, 0x6C]
      return false
    else throw (.split (Window.unexpected start b))

/-- Goes behind a member, and answers whether another one follows. -/
def delimiter : Scanning Bool := do
  let offset ← position
  match ← next r with
  | none => throw (.split (endOfInput offset))
  | some b =>
    if b = Byte.comma then return true
    else if b = scanner.closer then return false
    else throw (.split (Window.unexpected offset b))

/-- The member whose value starts here, and whether another one follows. -/
def held (key : κ) : Scanning (Option ((κ × Span) × Bool)) := do
  let start ← position
  let stop ← value r (← remaining) { stop := start }
  let more ← scanner.delimiter r
  return some ((key, ⟨start, stop - start⟩), more)

/-- The member whose key is read, and whether another one follows. -/
def keyed (key : κ) : Scanning (Option ((κ × Span) × Bool)) := do
  let offset ← position
  match ← peekNonBlank r with
  | none => throw (.split (endOfInput offset))
  | some b =>
    if b = Byte.comma || b = scanner.closer then
      throw (.member (Window.unexpected (← position) b))
    else scanner.held r key

/-- The next member, and whether another one follows; nothing if the container ends. A closing
bracket may not follow a comma. -/
def member (afterComma : Bool) : Scanning (Option ((κ × Span) × Bool)) := do
  let offset ← position
  match ← peekNonBlank r with
  | none => throw (.split (endOfInput offset))
  | some b =>
    if b = scanner.closer then
      let offset ← position
      let _ ← next r
      if afterComma then throw (.split (Window.unexpected offset b)) else return none
    else
      scanner.keyed r (← scanner.key r)

/-- Goes behind a broken member, and answers whether another one follows. -/
def resume : Scanning Bool := do
  skip r
  scanner.delimiter r

/-- A split in between two requests for a member. -/
structure State where
  cursor : Cursor
  /-- Whether nothing is left to be scanned. -/
  done : Bool := false
  /-- Whether the cursor is behind a comma. -/
  afterComma : Bool := false
  /-- A failure that is known and not yet answered. -/
  pending : Option Failure := none

/-- The split of a stretch of a resource before the first request. The cursor asks for pieces of a
size. -/
def start (offset : Nat) (length : Option Nat) (pieceSize : Nat) : Except Failure State :=
  let stop := length.elim r.size fun n ↦ offset + n
  match scanner.enter r { Cursor.start r offset stop with pieceSize } with
  | .ok found cursor => .ok { cursor, done := !found }
  | .error halt _ => .error halt.failure

/-- The answer to a request, and the split after it. -/
def advance (s : State) : Option (Except Failure (κ × Span)) × State :=
  match s.pending with
  | some failure => (some (.error failure), { s with done := true, pending := none })
  | none =>
    if s.done then (none, s)
    else
      match scanner.member r s.afterComma s.cursor with
      | .ok (some (member, more)) cursor =>
        (some (.ok member), { s with cursor, done := !more, afterComma := more })
      | .ok none cursor => (none, { s with cursor, done := true })
      | .error (.split failure) cursor =>
        (some (.error failure), { s with cursor, done := true })
      | .error (.member failure) cursor =>
        match scanner.resume r cursor with
        | .ok more cursor =>
          (some (.error failure), { s with cursor, done := !more, afterComma := more })
        | .error halt cursor =>
          (some (.error failure), { s with cursor, pending := some halt.failure })

/-- The answer to a request after a number of others. -/
def answer (s : State) : Nat → Option (Except Failure (κ × Span))
  | 0 => (scanner.advance r s).1
  | n + 1 => answer (scanner.advance r s).2 n

end Scanner

end TypedJson
