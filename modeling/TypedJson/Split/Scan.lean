import TypedJson.Fingerprint
import TypedJson.Split.Window

/-!
# Finding the end of a member

A member of a container ends at the first comma or closing bracket outside its own brackets and
strings. Finding it takes a `Scan.State` and no grammar: the closing brackets still to come, and
whether the scan is inside a string. A closing bracket of the wrong kind closes as well, so that one
broken member does not hide the next.

Once its end is known, a member is looked through a second time for a `stray` byte: one that follows
a blank outside brackets and strings, or a closing bracket of the wrong kind.
-/

namespace TypedJson

namespace Byte

/-- A double quote. -/
def quote : UInt8 := 0x22

/-- A backslash. -/
def backslash : UInt8 := 0x5C

/-- A comma. -/
def comma : UInt8 := 0x2C

/-- A colon. -/
def colon : UInt8 := 0x3A

/-- The opening bracket of a list. -/
def openList : UInt8 := 0x5B

/-- The closing bracket of a list. -/
def closeList : UInt8 := 0x5D

/-- The opening bracket of a dictionary. -/
def openDict : UInt8 := 0x7B

/-- The closing bracket of a dictionary. -/
def closeDict : UInt8 := 0x7D

/-- A byte that closes a container. -/
def isCloser (b : UInt8) : Bool := b == closeList || b == closeDict

/-- A byte that ends a member. -/
def isDelimiter (b : UInt8) : Bool := b == comma || isCloser b

/-- A byte as errors show it: as a character if it is a visible one, and by its number otherwise. -/
def text (b : UInt8) : String :=
  if 0x21 ≤ b && b ≤ 0x7E then String.singleton (Char.ofNat b.toNat)
  else "\\x" ++ Fingerprint.hex 2 b.toNat

end Byte

namespace Scan

/-- Where a scan is with regard to strings. -/
inductive Mode where
  | plain
  | string
  /-- After a backslash in a string. -/
  | escape
  deriving DecidableEq

/-- What a scan of a member knows. -/
structure State where
  /-- The closing brackets to come, the next one first. -/
  closers : List UInt8 := []
  mode : Mode := .plain
  deriving DecidableEq

namespace State

/-- The state after a byte. -/
def step (s : State) (b : UInt8) : State :=
  match s.mode with
  | .escape => { s with mode := .string }
  | .string =>
    if b = Byte.quote then { s with mode := .plain }
    else if b = Byte.backslash then { s with mode := .escape }
    else s
  | .plain =>
    if b = Byte.quote then { s with mode := .string }
    else if b = Byte.openList then { s with closers := Byte.closeList :: s.closers }
    else if b = Byte.openDict then { s with closers := Byte.closeDict :: s.closers }
    else if Byte.isCloser b then { s with closers := s.closers.tail }
    else s

/-- Whether the scan is outside all brackets and strings. -/
def isOutside (s : State) : Bool := s.mode = .plain && s.closers.isEmpty

/-- Whether a byte ends the member. -/
def stops (s : State) (b : UInt8) : Bool := s.isOutside && Byte.isDelimiter b

/-- Whether a byte closes a bracket that is not the open one. -/
def mismatches (s : State) (b : UInt8) : Bool :=
  s.mode = .plain && Byte.isCloser b && s.closers.head? ≠ some b

end State

/-- The bytes up to the end of a member, after those already read, and what follows. If the member
does not end, the number of bytes at the end that an unfinished escape takes. -/
def member (s : State) (read : List UInt8) : List UInt8 → Except Nat (List UInt8 × List UInt8)
  | [] => .error (if s.mode = .escape then 1 else 0)
  | b :: rest =>
    if s.stops b then .ok (read.reverse, b :: rest) else member (s.step b) (b :: read) rest

/-- The bytes of a string after its opening quote, up to and with the closing one, after those
already read, and what follows. If the string does not end, the number of bytes at the end that an
unfinished escape takes. -/
def string (read : List UInt8) : List UInt8 → Except Nat (List UInt8 × List UInt8)
  | [] => .error 0
  | b :: rest =>
    if b = Byte.quote then .ok ((b :: read).reverse, rest)
    else if b = Byte.backslash then
      match rest with
      | [] => .error 1
      | escaped :: rest => string (escaped :: b :: read) rest
    else string (b :: read) rest

/-- The first stray byte of a member, with its index. -/
def stray (s : State) (afterBlank : Bool) (i : Nat) : List UInt8 → Option (Nat × UInt8)
  | [] => none
  | b :: rest =>
    if s.mode = .plain ∧ Text.isJsonBlank b then stray (s.step b) true (i + 1) rest
    else if (afterBlank && s.isOutside) || s.mismatches b then some (i, b)
    else stray (s.step b) false (i + 1) rest

theorem length_of_member {s : State} {read bytes raw rest : List UInt8}
    (h : member s read bytes = .ok (raw, rest)) : rest.length ≤ bytes.length := by
  induction bytes generalizing s read with
  | nil => simp [member] at h
  | cons b bytes ih =>
    rw [member] at h
    split at h
    · simp only [Except.ok.injEq, Prod.mk.injEq] at h
      exact h.2 ▸ Nat.le_refl _
    · exact Nat.le_succ_of_le (ih h)

theorem length_of_string {read bytes body rest : List UInt8}
    (h : string read bytes = .ok (body, rest)) : rest.length ≤ bytes.length := by
  fun_induction string read bytes with
  | case1 => simp at h
  | case2 read rest' =>
    simp only [Except.ok.injEq, Prod.mk.injEq] at h
    rw [← h.2]
    exact Nat.le_succ _
  | case3 => simp at h
  | case4 read _ escaped bytes ih => exact Nat.le_trans (ih h) (Nat.le_add_right _ 2)
  | case5 read b bytes _ _ ih => exact Nat.le_succ_of_le (ih h)

end Scan

end TypedJson
