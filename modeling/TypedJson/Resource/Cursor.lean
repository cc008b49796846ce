import TypedJson.Error
import TypedJson.Text.Blank

/-!
# Resources and cursors

A resource serves its bytes in pieces, and may serve fewer than it is asked for. A `Cursor` walks
over a stretch of a resource. It keeps the piece that was served last, asks for the next one when it
stands outside of it, and counts how often it asks. What it answers is what an index into the bytes
would answer, however they are served.
-/

namespace TypedJson

/-- Bytes that are served in pieces. -/
structure Resource where
  size : Nat
  /-- Bytes from an offset on, at most as many as wanted, and none at the end; `none` if they cannot
  be read. -/
  serve : (offset wanted : Nat) → Option (List UInt8)

namespace Resource

/-- The resource of a list of bytes, which serves all that is wanted. -/
def ofBytes (bytes : List UInt8) : Resource :=
  ⟨bytes.length, fun offset wanted ↦ some ((bytes.drop offset).take wanted)⟩

/-- The failure of a text that ends too early. -/
def endOfInput (offset : Nat) : Failure := .invalidResource offset "unexpected end of input"

/-- The first byte from an offset on, and the bytes that are served with it. -/
def ask (r : Resource) (offset wanted : Nat) : Except Failure (UInt8 × List UInt8) :=
  match r.serve offset wanted with
  | none => .error .storage
  | some bytes =>
    match bytes.take wanted with
    | [] => .error (endOfInput offset)
    | b :: bytes => .ok (b, bytes)

/-- The bytes already read and `wanted` more of them, with the number of requests. -/
def readOn (r : Resource) (offset wanted : Nat) (done : List UInt8) (requests : Nat) :
    Except Failure (List UInt8) × Nat :=
  if wanted = 0 then (.ok done, requests)
  else
    match r.ask offset wanted with
    | .error failure => (.error failure, requests + 1)
    | .ok (b, bytes) =>
      r.readOn (offset + (bytes.length + 1)) (wanted - (bytes.length + 1)) (done ++ b :: bytes)
        (requests + 1)
termination_by wanted

/-- A range of bytes, with the number of requests. Its length may be a number of any size: that
there is room for the bytes is not checked. -/
def readRange (r : Resource) (offset length : Nat) : Except Failure (List UInt8) × Nat :=
  r.readOn offset length [] 0

end Resource

/-- A place in a resource that moves forward. -/
structure Cursor where
  /-- The offset of the next byte. -/
  position : Nat
  /-- The offset at which the cursor stops. -/
  stop : Nat
  /-- The bytes that were served last. -/
  piece : Array UInt8 := #[]
  /-- The offset of the first of them. -/
  pieceStart : Nat
  /-- How many bytes the cursor asks for. -/
  pieceSize : Nat := 8192
  /-- How often the resource was asked. -/
  requests : Nat := 0

namespace Cursor

/-- A cursor from `start` to `stop`, or to the end of the resource. -/
def start (r : Resource) (start stop : Nat) : Cursor :=
  { position := start, stop := min stop r.size, pieceStart := start }

/-- Bytes cut to a size, or filled up with zeros. -/
def resize (bytes : Array UInt8) (size : Nat) : Array UInt8 :=
  bytes.take size ++ Array.replicate (size - bytes.size) 0

/-- Asks for the piece at the position. If it is not served, bytes of the old one stay in its
place. -/
def fill (c : Cursor) (r : Resource) : Except Failure Unit × Cursor :=
  let wanted := min c.pieceSize (c.stop - c.position)
  let asked := { c with requests := c.requests + 1 }
  match r.ask c.position wanted with
  | .error failure => (.error failure, { asked with piece := resize c.piece wanted })
  | .ok (b, bytes) =>
    (.ok (), { asked with piece := (b :: bytes).toArray, pieceStart := c.position })

/-- Whether the next byte is in the piece. -/
def isInPiece (c : Cursor) : Bool :=
  c.pieceStart ≤ c.position && c.position < c.pieceStart + c.piece.size

/-- The byte of the piece at the position. -/
def current? (c : Cursor) : Option UInt8 := c.piece[c.position - c.pieceStart]?

/-- The next byte, if there is one. -/
def peek (c : Cursor) (r : Resource) : Except Failure (Option UInt8) × Cursor :=
  if c.stop ≤ c.position then (.ok none, c)
  else if c.isInPiece then (.ok c.current?, c)
  else
    match c.fill r with
    | (.ok (), c) => (.ok c.current?, c)
    | (.error failure, c) => (.error failure, c)

/-- The cursor after the byte that was peeked at. -/
def advance (c : Cursor) : Cursor := { c with position := c.position + 1 }

/-- The next byte, consumed. -/
def next (c : Cursor) (r : Resource) : Except Failure (Option UInt8) × Cursor :=
  match c.peek r with
  | (.ok (some b), c) => (.ok (some b), c.advance)
  | other => other

/-- The next byte after at most `limit` blanks, which are consumed. -/
def peekAfter (limit : Nat) (c : Cursor) (r : Resource) :
    Except Failure (Option UInt8) × Cursor :=
  match limit with
  | 0 => c.peek r
  | limit + 1 =>
    match c.peek r with
    | (.ok (some b), c) =>
      if Text.isJsonBlank b then peekAfter limit c.advance r else (.ok (some b), c)
    | other => other

/-- The next byte that is no blank; blanks before it are consumed. -/
def peekNonBlank (c : Cursor) (r : Resource) : Except Failure (Option UInt8) × Cursor :=
  peekAfter (c.stop - c.position) c r

/-- Consumes up to `n` bytes and answers how many of them there were not. -/
def skip (n : Nat) (c : Cursor) (r : Resource) : Except Failure Nat × Cursor :=
  match n with
  | 0 => (.ok 0, c)
  | n + 1 =>
    match c.next r with
    | (.ok (some _), c) => skip n c r
    | (.ok none, c) => (.ok (n + 1), c)
    | (.error failure, c) => (.error failure, c)

end Cursor

end TypedJson
