import TypedJson.Resource.Cursor

/-!
# Windows

A window is a stretch of a text together with the offset at which it starts. The text is split into
windows inside windows, and what is found in a window depends on nothing outside it but for the
offset in what is reported.
-/

namespace TypedJson

/-- A stretch of a text. -/
structure Window where
  offset : Nat
  bytes : List UInt8

namespace Window

/-- The stretch of a text from an offset on, of a given length or up to the end. The offset where
the stretch ends may be a number of any size: that it fits 64 bits is not checked. -/
def ofBytes (bytes : List UInt8) (offset : Nat) (length : Option Nat) : Window :=
  let rest := bytes.drop offset
  ⟨offset, match length with
    | some n => rest.take n
    | none => rest⟩

/-- The whole text. -/
def whole (bytes : List UInt8) : Window := ⟨0, bytes⟩

/-- The offset behind the last byte. -/
def stop (w : Window) : Nat := w.offset + w.bytes.length

/-- Bytes at an offset without the blanks at the front. -/
def trimFrom (offset : Nat) : List UInt8 → Window
  | [] => ⟨offset, []⟩
  | b :: rest => if Text.isJsonBlank b then trimFrom (offset + 1) rest else ⟨offset, b :: rest⟩

/-- The window without the blanks at its front. -/
def trimStart (w : Window) : Window := trimFrom w.offset w.bytes

/-- The bytes without the blanks at the end. -/
def trimEnd (bytes : List UInt8) : List UInt8 := (bytes.reverse.dropWhile Text.isJsonBlank).reverse

/-- How many times a text is read to look into a window. A window counts as one look however long it
is, where a cursor would ask for it in pieces of at most 8192 bytes. -/
def looks (w : Window) : Nat := if w.bytes.isEmpty then 0 else 1

theorem length_trimFrom_le (offset : Nat) (bytes : List UInt8) :
    (trimFrom offset bytes).bytes.length ≤ bytes.length := by
  induction bytes generalizing offset with
  | nil => simp [trimFrom]
  | cons b rest ih =>
    rw [trimFrom]
    split
    · exact Nat.le_succ_of_le (ih (offset + 1))
    · exact Nat.le_refl _

theorem length_trimStart_le (w : Window) : w.trimStart.bytes.length ≤ w.bytes.length :=
  length_trimFrom_le w.offset w.bytes

end Window

end TypedJson
