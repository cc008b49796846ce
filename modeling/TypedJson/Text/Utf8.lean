/-!
# UTF-8

Byte sequences are lists of bytes. `Utf8.decode` reads a list from the left and answers one entry
per character: the character itself, or `none` for a maximal run of bytes that starts like a
character and is not one. A strict reader asks that no entry is `none`; a lenient reader puts the
replacement character in its place, so that one broken sequence costs one replacement character.
-/

namespace TypedJson.Utf8

/-- The bytes of a string. -/
def encode (s : String) : List UInt8 := s.toList.flatMap String.utf8EncodeChar

/-- A byte that continues a character. -/
def isContinuation (b : UInt8) : Bool := 0x80 ≤ b && b ≤ 0xBF

/-- Whether `second` may follow `lead`. The first continuation byte of three and four byte
characters has a narrower range, which excludes overlong forms, surrogates and values beyond the
last code point. -/
def isSecond (lead second : UInt8) : Bool :=
  if 0xC2 ≤ lead && lead ≤ 0xDF then isContinuation second
  else if lead = 0xE0 then 0xA0 ≤ second && second ≤ 0xBF
  else if lead = 0xED then 0x80 ≤ second && second ≤ 0x9F
  else if 0xE1 ≤ lead && lead ≤ 0xEF then isContinuation second
  else if lead = 0xF0 then 0x90 ≤ second && second ≤ 0xBF
  else if lead = 0xF4 then 0x80 ≤ second && second ≤ 0x8F
  else if 0xF1 ≤ lead && lead ≤ 0xF3 then isContinuation second
  else false

/-- The six bits a continuation byte carries. -/
def payload (b : UInt8) : Nat := b.toNat % 0x40

/-- The characters of a byte list, `none` for each maximal broken sequence. -/
def decode : List UInt8 → List (Option Char)
  | [] => []
  | a :: r =>
    if a < 0x80 then some (Char.ofNat a.toNat) :: decode r
    else match r with
      | [] => [none]
      | b :: r₁ =>
        if !isSecond a b then none :: decode (b :: r₁)
        else if a ≤ 0xDF then some (Char.ofNat (a.toNat % 0x20 * 0x40 + payload b)) :: decode r₁
        else match r₁ with
          | [] => [none]
          | c :: r₂ =>
            if !isContinuation c then none :: decode (c :: r₂)
            else if a ≤ 0xEF then
              some (Char.ofNat (a.toNat % 0x10 * 0x1000 + payload b * 0x40 + payload c)) ::
                decode r₂
            else match r₂ with
              | [] => [none]
              | d :: r₃ =>
                if !isContinuation d then none :: decode (d :: r₃)
                else
                  some (Char.ofNat (a.toNat % 0x08 * 0x40000 + payload b * 0x1000 +
                    payload c * 0x40 + payload d)) :: decode r₃

/-- The text of a byte list without any broken sequence. -/
def decode? (bytes : List UInt8) : Option String :=
  (decode bytes).mapM id |>.map String.ofList

/-- The text of a byte list, each broken sequence replaced by U+FFFD. -/
def decodeLossy (bytes : List UInt8) : String :=
  String.ofList ((decode bytes).map (·.getD '\uFFFD'))

end TypedJson.Utf8
