import TypedJson.Codec.Instruction

/-!
# Simplifying instructions

Blocks dissolve in the list around them, literals next to each other become one, and empty literals
vanish, everywhere. The list is simplified from its end, so that a literal meets what follows it in
its final form.
-/

namespace TypedJson

/-- A literal in front of simplified instructions. -/
def joinLiteral (text : String) (tail : List Instruction) : List Instruction :=
  if text.isEmpty then tail
  else
    match tail with
    | .writeLiteral next :: rest => .writeLiteral (text ++ next) :: rest
    | tail => .writeLiteral text :: tail

mutual

/-- An instruction in front of simplified instructions, simplified. -/
def Instruction.onto (tail : List Instruction) : Instruction → List Instruction
  | .writeLiteral text => joinLiteral text tail
  | .block body => spliceOnto tail body
  | .call formatter argument bind body =>
    .call formatter argument bind (spliceOnto [] body) :: tail
  | .loop iterable kind slots separator body =>
    .loop iterable kind slots separator (spliceOnto [] body) :: tail
  | .branch accessor selector cases => .branch accessor selector (optimizeCases cases) :: tail
  | .writeValue accessor kind => .writeValue accessor kind :: tail
  | .writeKey accessor => .writeKey accessor :: tail
termination_by structural instruction => instruction

/-- Instructions in front of simplified ones, simplified. -/
def spliceOnto (tail : List Instruction) : List Instruction → List Instruction
  | [] => tail
  | instruction :: rest => instruction.onto (spliceOnto tail rest)
termination_by structural instructions => instructions

/-- Cases with simplified bodies. -/
def optimizeCases : List (BranchCase Instruction) → List (BranchCase Instruction)
  | [] => []
  | ⟨key, body⟩ :: cases => ⟨key, spliceOnto [] body⟩ :: optimizeCases cases
termination_by structural cases => cases

end

/-- The simplified instructions. -/
def optimize (instructions : List Instruction) : List Instruction := spliceOnto [] instructions

end TypedJson
