import TypedJson.Codec.Optimize
import TypedJson.Codec.Run

/-!
# Simplified instructions run alike

Simplifying changes neither what is written nor what is read, nor the failure, nor what was written
before it: the simplified list is the same step as the list. Literals never fail, so one literal in
place of two cannot be told from them, and a literal without text is no step at all.

A list is simplified from its end. One that is simplified from its front, each instruction being put
behind those already emitted and a literal becoming a part of the last one of them, comes to the
same (`reverse_emitAll`).
-/

namespace TypedJson

/-! ## From the front -/

/-- A literal behind emitted instructions, of which the last one comes first. -/
def emitLiteral (done : List Instruction) (text : String) : List Instruction :=
  if text.isEmpty then done
  else
    match done with
    | .writeLiteral previous :: before => .writeLiteral (previous ++ text) :: before
    | done => .writeLiteral text :: done

mutual

/-- An instruction behind emitted ones, simplified. -/
def Instruction.emit (done : List Instruction) : Instruction → List Instruction
  | .writeLiteral text => emitLiteral done text
  | .block body => emitAll done body
  | .call formatter argument bind body =>
    .call formatter argument bind (emitAll [] body).reverse :: done
  | .loop iterable kind slots separator body =>
    .loop iterable kind slots separator (emitAll [] body).reverse :: done
  | .branch accessor selector cases => .branch accessor selector (emitCases cases) :: done
  | .writeValue accessor kind => .writeValue accessor kind :: done
  | .writeKey accessor => .writeKey accessor :: done
termination_by structural instruction => instruction

/-- Instructions behind emitted ones, simplified. -/
def emitAll (done : List Instruction) : List Instruction → List Instruction
  | [] => done
  | instruction :: rest => emitAll (instruction.emit done) rest
termination_by structural instructions => instructions

/-- Cases with simplified bodies. -/
def emitCases : List (BranchCase Instruction) → List (BranchCase Instruction)
  | [] => []
  | ⟨key, body⟩ :: cases => ⟨key, (emitAll [] body).reverse⟩ :: emitCases cases
termination_by structural cases => cases

end

/-- A literal in front of instructions, as a part of the first of them if that is a literal. -/
def mergeLiteral (text : String) : List Instruction → List Instruction
  | .writeLiteral next :: rest => .writeLiteral (text ++ next) :: rest
  | tail => .writeLiteral text :: tail

theorem joinLiteral_eq (text : String) (tail : List Instruction) :
    joinLiteral text tail = if text.isEmpty then tail else mergeLiteral text tail := rfl

theorem mergeLiteral_append (a b : String) (tail : List Instruction) :
    mergeLiteral (a ++ b) tail = mergeLiteral a (mergeLiteral b tail) := by
  obtain _ | ⟨i, rest⟩ := tail
  · rfl
  · cases i with
    | writeLiteral next => simp only [mergeLiteral, String.append_assoc]
    | _ => rfl

/-- Emitted instructions, of which the last one comes first, in front of simplified ones. Two
literals that meet become one. -/
def meet : List Instruction → List Instruction → List Instruction
  | .writeLiteral text :: before, tail => before.reverse ++ mergeLiteral text tail
  | done, tail => done.reverse ++ tail

/-- Whether the instruction writes a literal. -/
def Instruction.isLiteral : Instruction → Bool
  | .writeLiteral _ => true
  | _ => false

theorem mergeLiteral_cons {i : Instruction} (hi : i.isLiteral = false) (text : String)
    (tail : List Instruction) :
    mergeLiteral text (i :: tail) = .writeLiteral text :: i :: tail := by
  cases i with
  | writeLiteral next => exact nomatch hi
  | _ => rfl

theorem meet_nil (done : List Instruction) : meet done [] = done.reverse := by
  obtain _ | ⟨i, before⟩ := done
  · rfl
  · cases i with
    | writeLiteral text => exact List.reverse_cons.symm
    | _ => exact List.append_nil _

/-- It does not matter to which side an instruction is put that is no literal. -/
theorem meet_cons {i : Instruction} (hi : i.isLiteral = false) (done tail : List Instruction) :
    meet (i :: done) tail = meet done (i :: tail) := by
  have hleft : meet (i :: done) tail = (i :: done).reverse ++ tail := by
    cases i with
    | writeLiteral text => exact nomatch hi
    | _ => rfl
  rw [hleft, List.reverse_cons, List.append_assoc, List.singleton_append]
  obtain _ | ⟨j, before⟩ := done
  · rfl
  · cases j with
    | writeLiteral text =>
      rw [meet, mergeLiteral_cons hi, List.reverse_cons, List.append_assoc]
      rfl
    | _ => rfl

/-- Nor does it for a literal. -/
theorem meet_emitLiteral (done tail : List Instruction) (text : String) :
    meet (emitLiteral done text) tail = meet done (joinLiteral text tail) := by
  rw [joinLiteral_eq]
  unfold emitLiteral
  split
  · rfl
  · obtain _ | ⟨i, before⟩ := done
    · rfl
    -- Three literals that meet become one, whichever two are put together first.
    · cases i with
      | writeLiteral previous =>
        exact congrArg (before.reverse ++ ·) (mergeLiteral_append previous text tail)
      | _ => rfl

mutual

theorem meet_emit (done tail : List Instruction) : ∀ i : Instruction,
    meet (i.emit done) tail = meet done (i.onto tail)
  | .writeLiteral text => meet_emitLiteral done tail text
  | .block body => meet_emitAll done tail body
  | .call formatter argument bind body => by
    rw [Instruction.emit, Instruction.onto, meet_cons (by rfl),
      ← meet_nil (emitAll [] body), meet_emitAll [] [] body]
    rfl
  | .loop iterable kind slots separator body => by
    rw [Instruction.emit, Instruction.onto, meet_cons (by rfl),
      ← meet_nil (emitAll [] body), meet_emitAll [] [] body]
    rfl
  | .branch accessor selector cases => by
    rw [Instruction.emit, Instruction.onto, meet_cons (by rfl),
      emitCases_eq cases]
  | .writeValue accessor kind => by
    rw [Instruction.emit, Instruction.onto, meet_cons (by rfl)]
  | .writeKey accessor => by
    rw [Instruction.emit, Instruction.onto, meet_cons (by rfl)]
termination_by structural i => i

/-- What is emitted behind instructions meets what follows as the instructions meet it that are
simplified from their end. -/
theorem meet_emitAll (done tail : List Instruction) : ∀ is : List Instruction,
    meet (emitAll done is) tail = meet done (spliceOnto tail is)
  | [] => rfl
  | i :: rest => by
    rw [emitAll, spliceOnto, meet_emitAll _ tail rest, meet_emit done _ i]
termination_by structural is => is

theorem emitCases_eq : ∀ cases : List (BranchCase Instruction),
    emitCases cases = optimizeCases cases
  | [] => rfl
  | ⟨key, body⟩ :: cases => by
    rw [emitCases, optimizeCases, emitCases_eq cases, ← meet_nil, meet_emitAll [] [] body]
    rfl
termination_by structural cases => cases

end

/-- **Simplifying from the front comes to the same as simplifying from the end.** -/
theorem reverse_emitAll (is : List Instruction) : (emitAll [] is).reverse = optimize is := by
  rw [← meet_nil, meet_emitAll]
  rfl

namespace Run

/-- What writing a text makes of a state. -/
theorem write_apply (text : String) (state : RunState) :
    write text state = .ok () { state with out := state.out ++ text } := rfl

theorem write_append (a b : String) : write (a ++ b) = (do write a; write b) := by
  funext state
  change write (a ++ b) state = write b { state with out := state.out ++ a }
  rw [write_apply, write_apply, String.append_assoc]

theorem write_empty : write "" = pure () := by
  funext state
  rw [write_apply, String.append_empty]
  rfl

variable (context : RunContext)

theorem instructions_joinLiteral (text : String) (tail : List Instruction) :
    instructions context (joinLiteral text tail) =
      (do write text; instructions context tail) := by
  unfold joinLiteral
  split
  · rename_i hempty
    have htext : text = "" := String.isEmpty_iff.mp hempty
    rw [htext, write_empty, pure_bind]
  · split
    · rename_i next rest
      rw [instructions, instructions, instruction, instruction, write_append, bind_assoc]
    · rw [instructions, instruction]

theorem keys_optimizeCases (cases : List (BranchCase Instruction)) :
    (optimizeCases cases).map (·.key) = cases.map (·.key) := by
  induction cases with
  | nil => rfl
  | cons case cases ih =>
    obtain ⟨key, body⟩ := case
    rw [optimizeCases, List.map_cons, List.map_cons, ih]

mutual

/-- A simplified instruction in front of others is the instruction followed by them. -/
theorem instructions_onto (tail : List Instruction) : ∀ i : Instruction,
    instructions context (i.onto tail) = (do instruction context i; instructions context tail)
  | .writeLiteral text => by
    rw [Instruction.onto, instructions_joinLiteral, instruction]
  | .block body => by
    rw [Instruction.onto, instructions_spliceOnto tail body, instruction]
  | .call formatter argument bind body => by
    rw [Instruction.onto, instructions, instruction, instruction, instructions_spliceOnto [] body]
    simp only [instructions, bind_pure_unit]
  | .loop iterable kind slots separator body => by
    rw [Instruction.onto, instructions, instruction, instruction, instructions_spliceOnto [] body]
    simp only [instructions, bind_pure_unit]
  | .branch accessor selector cases => by
    rw [Instruction.onto, instructions, instruction, instruction, keys_optimizeCases]
    simp only [firstCase_optimizeCases]
  | .writeValue accessor kind => by
    rw [Instruction.onto, instructions]
  | .writeKey accessor => by
    rw [Instruction.onto, instructions]
termination_by structural i => i

/-- Simplified instructions in front of others are the instructions followed by them. -/
theorem instructions_spliceOnto (tail : List Instruction) : ∀ is : List Instruction,
    instructions context (spliceOnto tail is) =
      (do instructions context is; instructions context tail)
  | [] => by
    rw [spliceOnto, instructions, pure_bind]
  | i :: rest => by
    rw [spliceOnto, instructions_onto _ i, instructions_spliceOnto tail rest, instructions,
      bind_assoc]
termination_by structural is => is

theorem firstCase_optimizeCases (key : String) : ∀ cases : List (BranchCase Instruction),
    firstCase context key (optimizeCases cases) = firstCase context key cases
  | [] => rfl
  | ⟨k, body⟩ :: cases => by
    rw [optimizeCases, firstCase, firstCase, instructions_spliceOnto [] body,
      firstCase_optimizeCases key cases]
    simp only [instructions, bind_pure_unit]
termination_by structural cases => cases

end

theorem instructions_optimize (is : List Instruction) :
    instructions context (optimize is) = instructions context is := by
  rw [optimize, instructions_spliceOnto, instructions, bind_pure_unit]

end Run

open Run

/-- **Simplifying preserves behaviour.** From any state, simplified instructions come to what the
instructions come to: the same slots, the same text and accesses, and the same failure at the same
place, if there is one, with the same text written before it. So an encoder and its simplified form
cannot be told apart. -/
theorem run_optimize (registry : Registry) (config : Config) (is : List Instruction) :
    (∀ state, instructions ⟨registry, config⟩ (optimize is) state =
      instructions ⟨registry, config⟩ is state) ∧
    ∀ slots value, Codec.run ⟨optimize is, slots⟩ registry config value =
      Codec.run ⟨is, slots⟩ registry config value := by
  have hsame := instructions_optimize ⟨registry, config⟩ is
  refine ⟨fun state ↦ congrFun hsame state, fun slots value ↦ ?_⟩
  rw [Codec.run, Codec.run, hsame]

end TypedJson
