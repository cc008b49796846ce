/-!
# Wildcards

A pattern for names: `*` stands for any characters, `?` for one, and a set in brackets for one of
its characters, or for any other one if it starts with `!`. Two asterisks, which have to stand alone
between slashes, stand for any number of directories. Everything else stands for itself, braces
included.
-/

namespace TypedJson.Wildcard

/-- Part of a set of characters. -/
inductive CharRange where
  | single (c : Char)
  /-- The characters from one to another. -/
  | between (first last : Char)

/-- Whether a character is in the part. -/
def CharRange.has (c : Char) : CharRange → Bool
  | single d => c == d
  | between first last => first.toNat ≤ c.toNat && c.toNat ≤ last.toNat

/-- One piece of a pattern. -/
inductive Token where
  | char (c : Char)
  /-- One character. -/
  | anyChar
  /-- Any characters. -/
  | anyText
  /-- Any directories. -/
  | anyDepth
  | within (set : List CharRange)
  | except (set : List CharRange)

/-- A pattern, piece by piece. -/
abbrev Pattern : Type := List Token

/-- Why a text is no pattern. -/
structure PatternError where
  /-- The number of characters before the fault. -/
  position : Nat
  reason : String

/-- The error as text. -/
def PatternError.message (e : PatternError) : String :=
  "Pattern syntax error near position " ++ toString e.position ++ ": " ++ e.reason

/-! ## Reading -/

/-- The parts of a set. -/
def ranges : List Char → List CharRange
  | first :: '-' :: last :: cs => .between first last :: ranges cs
  | c :: cs => .single c :: ranges cs
  | [] => []

/-- The characters before the first closing bracket, and those after it. -/
def upToBracket? : List Char → Option (List Char × List Char)
  | [] => none
  | ']' :: cs => some ([], cs)
  | c :: cs => (upToBracket? cs).map fun (inside, rest) ↦ (c :: inside, rest)

theorem upToBracket?_length {cs inside rest : List Char}
    (h : upToBracket? cs = some (inside, rest)) : rest.length < cs.length := by
  fun_induction upToBracket? cs generalizing inside with
  | case1 => simp at h
  | case2 cs =>
    simp only [Option.some.injEq, Prod.mk.injEq] at h
    simp [h.2]
  | case3 c cs _ ih =>
    simp only [Option.map_eq_some_iff, Prod.mk.injEq, Prod.exists] at h
    obtain ⟨inside, rest', found, -, rfl⟩ := h
    have := ih found
    simp only [List.length_cons]
    omega

/-- The set behind an opening bracket, and the rest. A bracket that would close an empty set belongs
to the set. -/
def bracket? : List Char → Option (Token × List Char)
  | '!' :: c :: cs =>
    (upToBracket? cs).map fun (inside, rest) ↦ (.except (ranges (c :: inside)), rest)
  | ['!'] | [] => none
  | c :: cs => (upToBracket? cs).map fun (inside, rest) ↦ (.within (ranges (c :: inside)), rest)

theorem bracket?_length {cs rest : List Char} {token : Token}
    (h : bracket? cs = some (token, rest)) : rest.length < cs.length := by
  unfold bracket? at h
  split at h
  · simp only [Option.map_eq_some_iff, Prod.mk.injEq, Prod.exists] at h
    obtain ⟨_, _, found, -, rfl⟩ := h
    have := upToBracket?_length found
    simp only [List.length_cons]
    omega
  · simp at h
  · simp at h
  · simp only [Option.map_eq_some_iff, Prod.mk.injEq, Prod.exists] at h
    obtain ⟨_, _, found, -, rfl⟩ := h
    have := upToBracket?_length found
    simp only [List.length_cons]
    omega

/-- The pieces of a text that starts after `position` characters. The flag tells whether a name
starts here. -/
def read (position : Nat) (atStart : Bool) : List Char → Except PatternError Pattern
  | [] => .ok []
  | '*' :: '*' :: '*' :: _ =>
    .error ⟨position + 2, "wildcards are either regular `*` or recursive `**`"⟩
  | '*' :: '*' :: cs =>
    let misplaced := "recursive wildcards must form a single path component"
    if !atStart then .error ⟨position - 1, misplaced⟩
    else
      match cs with
      | [] => .ok [.anyDepth]
      | '/' :: cs => (read (position + 3) true cs).map (.anyDepth :: ·)
      | _ => .error ⟨position + 2, misplaced⟩
  | '*' :: cs => (read (position + 1) false cs).map (.anyText :: ·)
  | '?' :: cs => (read (position + 1) false cs).map (.anyChar :: ·)
  | '[' :: cs =>
    match found : bracket? cs with
    | some (token, rest) =>
      (read (position + 1 + (cs.length - rest.length)) false rest).map (token :: ·)
    | none => .error ⟨position, "invalid range pattern"⟩
  | c :: cs => (read (position + 1) (c == '/') cs).map (.char c :: ·)
termination_by cs => cs.length
decreasing_by
  all_goals simp only [List.length_cons]
  all_goals first
    | omega
    | exact Nat.lt_succ_of_lt (bracket?_length found)

/-- The pattern of a text. -/
def ofText (text : List Char) : Except PatternError Pattern := read 0 true text

/-! ## Matching -/

/-- The characters of a pattern without wildcards. -/
def literal? : Pattern → Option (List Char)
  | [] => some []
  | .char c :: tokens => (literal? tokens).map (c :: ·)
  | _ => none

/-- Whether a pattern stands for directories. -/
def isRecursive (pattern : Pattern) : Bool :=
  pattern.any fun
    | .anyDepth => true
    | _ => false

/-- Whether some end of a text, the text itself included, has a property. -/
def anyEnd (p : List Char → Bool) : List Char → Bool
  | [] => p []
  | c :: cs => p (c :: cs) || anyEnd p cs

/-- Whether a pattern stands for a name. -/
def accepts : Pattern → List Char → Bool
  | [], cs => cs.isEmpty
  | .anyText :: tokens, cs | .anyDepth :: tokens, cs => anyEnd (accepts tokens) cs
  | _ :: _, [] => false
  | .char d :: tokens, c :: cs => c == d && accepts tokens cs
  | .anyChar :: tokens, _ :: cs => accepts tokens cs
  | .within set :: tokens, c :: cs => set.any (·.has c) && accepts tokens cs
  | .except set :: tokens, c :: cs => !set.any (·.has c) && accepts tokens cs

/-- Whether a text has a character that may start a wildcard. -/
def looksLikeOne (text : String) : Bool := text.toList.any ['*', '?', '[', '{'].contains

end TypedJson.Wildcard
