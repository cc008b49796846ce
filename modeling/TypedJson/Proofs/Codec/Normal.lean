import Mathlib.Data.List.Chain
import TypedJson.Proofs.Codec.Optimize

/-!
# Normal forms of instructions

A list of instructions is in normal form if it holds no block, no literal without text and no two
literals next to each other, and if the same is true of every list inside it. Simplifying answers
normal forms only and leaves them as they are, so it does nothing the second time.

Blocks nest and may be empty, so literals can come to stand next to each other out of any depth and
over any distance. What carries the proof is that an instruction is always put in front of a list
that is in normal form already, so that only the first one there can become its neighbour.
-/

namespace TypedJson

variable {i : Instruction} {is rest : List Instruction}

/-! ## Normal forms -/

namespace Instruction

/-- Whether the instruction is a block. -/
def isBlock : Instruction → Bool
  | .block _ => true
  | _ => false

/-- The lists of instructions inside an instruction. -/
def bodies : Instruction → List (List Instruction)
  | .call _ _ _ body | .loop _ _ _ _ body | .block body => [body]
  | .branch _ _ cases => cases.map (·.body)
  | .writeLiteral _ | .writeValue _ _ | .writeKey _ => []

/-- At most one of two instructions is a literal. -/
def IsApart (i j : Instruction) : Prop := ¬(i.isLiteral = true ∧ j.isLiteral = true)

theorem exists_of_isLiteral (h : i.isLiteral = true) : ∃ text, i = .writeLiteral text := by
  cases i with
  | writeLiteral text => exact ⟨text, rfl⟩
  | _ => exact absurd h Bool.false_ne_true

end Instruction

/-- Instructions in which nothing is left to simplify, at any depth. -/
inductive IsNormal : List Instruction → Prop
  | intro {is : List Instruction}
    (noBlock : ∀ i ∈ is, i.isBlock = false)
    (noEmpty : ∀ i ∈ is, i ≠ .writeLiteral "")
    (apart : is.IsChain Instruction.IsApart)
    (inside : ∀ i ∈ is, ∀ body ∈ i.bodies, IsNormal body) : IsNormal is

namespace IsNormal

theorem nil : IsNormal [] :=
  ⟨by simp, by simp, .nil, by simp⟩

theorem cons (hblock : i.isBlock = false) (hempty : i ≠ .writeLiteral "")
    (hbodies : ∀ body ∈ i.bodies, IsNormal body) (hhead : ∀ j ∈ rest.head?, i.IsApart j)
    (h : IsNormal rest) : IsNormal (i :: rest) := by
  obtain ⟨noBlock, noEmpty, apart, inside⟩ := h
  refine ⟨?_, ?_, List.isChain_cons.mpr ⟨hhead, apart⟩, ?_⟩
  · exact List.forall_mem_cons.mpr ⟨hblock, noBlock⟩
  · exact List.forall_mem_cons.mpr ⟨hempty, noEmpty⟩
  · exact List.forall_mem_cons.mpr ⟨hbodies, inside⟩

theorem tail (h : IsNormal (i :: rest)) : IsNormal rest := by
  obtain ⟨noBlock, noEmpty, apart, inside⟩ := h
  exact ⟨fun j hj ↦ noBlock j (List.mem_cons_of_mem i hj),
    fun j hj ↦ noEmpty j (List.mem_cons_of_mem i hj), (List.isChain_cons.mp apart).2,
    fun j hj ↦ inside j (List.mem_cons_of_mem i hj)⟩

theorem apart_head (h : IsNormal (i :: rest)) : ∀ j ∈ rest.head?, i.IsApart j := by
  obtain ⟨-, -, apart, -⟩ := h
  exact (List.isChain_cons.mp apart).1

/-- What is no literal may stand in front of anything. -/
theorem cons_of_not_isLiteral (hi : i.isLiteral = false) (hblock : i.isBlock = false)
    (hbodies : ∀ body ∈ i.bodies, IsNormal body) (h : IsNormal rest) : IsNormal (i :: rest) := by
  have happart : ∀ j ∈ rest.head?, i.IsApart j := by
    intro j _ hboth
    rw [hi] at hboth
    exact Bool.false_ne_true hboth.1
  refine h.cons hblock ?_ hbodies happart
  rintro rfl
  exact Bool.false_ne_true hi.symm

/-- A literal with a text may stand in front of anything but a literal. -/
theorem literal {text : String} (htext : text ≠ "")
    (hhead : ∀ j ∈ rest.head?, j.isLiteral = false) (h : IsNormal rest) :
    IsNormal (.writeLiteral text :: rest) := by
  refine h.cons rfl (by simpa using htext) (by simp [Instruction.bodies]) fun j hj hboth ↦ ?_
  rw [hhead j hj] at hboth
  exact Bool.false_ne_true hboth.2

/-! ## Simplifying answers normal forms -/

theorem joinLiteral (h : IsNormal rest) (text : String) :
    IsNormal (TypedJson.joinLiteral text rest) := by
  rw [joinLiteral_eq]
  by_cases hempty : text.isEmpty = true
  · rwa [if_pos hempty]
  rw [if_neg hempty]
  have htext : text ≠ "" := fun h ↦ hempty (String.isEmpty_iff.mpr h)
  rcases rest with _ | ⟨i, rest⟩
  · exact nil.literal htext (by simp)
  by_cases hi : i.isLiteral = true
  · obtain ⟨next, rfl⟩ := Instruction.exists_of_isLiteral hi
    -- The two become one, and what follows did not follow the first literal for the first time.
    refine h.tail.literal (by simp [htext]) fun j hj ↦ ?_
    exact Bool.eq_false_iff.mpr fun hlit ↦ h.apart_head j hj ⟨hi, hlit⟩
  · rw [Bool.not_eq_true] at hi
    rw [mergeLiteral_cons hi]
    exact h.literal htext (by simpa using hi)

end IsNormal

mutual

/-- A simplified instruction in front of a normal form makes a normal form. -/
theorem isNormal_onto {tail : List Instruction} (h : IsNormal tail) :
    ∀ i : Instruction, IsNormal (i.onto tail)
  | .writeLiteral text => h.joinLiteral text
  | .block body => isNormal_spliceOnto h body
  | .call formatter argument bind body => by
    have hbody : IsNormal (spliceOnto [] body) := isNormal_spliceOnto .nil body
    exact h.cons_of_not_isLiteral rfl rfl (List.forall_mem_singleton.mpr hbody)
  | .loop iterable kind slots separator body => by
    have hbody : IsNormal (spliceOnto [] body) := isNormal_spliceOnto .nil body
    exact h.cons_of_not_isLiteral rfl rfl (List.forall_mem_singleton.mpr hbody)
  | .branch accessor selector cases => by
    have hbodies := isNormal_optimizeCases cases
    exact h.cons_of_not_isLiteral rfl rfl (List.forall_mem_map.mpr hbodies)
  | .writeValue accessor kind => h.cons_of_not_isLiteral rfl rfl (List.forall_mem_nil _)
  | .writeKey accessor => h.cons_of_not_isLiteral rfl rfl (List.forall_mem_nil _)
termination_by structural i => i

/-- Simplified instructions in front of a normal form make a normal form. -/
theorem isNormal_spliceOnto {tail : List Instruction} (h : IsNormal tail) :
    ∀ is : List Instruction, IsNormal (spliceOnto tail is)
  | [] => h
  | i :: rest => isNormal_onto (isNormal_spliceOnto h rest) i
termination_by structural is => is

theorem isNormal_optimizeCases : ∀ cases : List (BranchCase Instruction),
    ∀ case ∈ optimizeCases cases, IsNormal case.body
  | [] => List.forall_mem_nil _
  | ⟨_, body⟩ :: cases =>
    List.forall_mem_cons.mpr ⟨isNormal_spliceOnto .nil body, isNormal_optimizeCases cases⟩
termination_by structural cases => cases

end

theorem isNormal_optimize (is : List Instruction) : IsNormal (optimize is) :=
  isNormal_spliceOnto .nil is

/-! ## Normal forms stay as they are -/

/-- A literal with a text is put in front of anything but a literal as it is. -/
theorem joinLiteral_of_apart {text : String} (htext : text ≠ "")
    (hhead : ∀ j ∈ rest.head?, (Instruction.writeLiteral text).IsApart j) :
    joinLiteral text rest = .writeLiteral text :: rest := by
  rw [joinLiteral_eq, if_neg fun h ↦ htext (String.isEmpty_iff.mp h)]
  rcases rest with _ | ⟨j, rest⟩
  · rfl
  · exact mergeLiteral_cons (Bool.eq_false_iff.mpr fun hj ↦ hhead j rfl ⟨rfl, hj⟩) text rest

theorem optimizeCases_of_optimize {cases : List (BranchCase Instruction)}
    (h : ∀ case ∈ cases, optimize case.body = case.body) : optimizeCases cases = cases := by
  induction cases with
  | nil => rfl
  | cons case cases ih =>
    rw [List.forall_mem_cons] at h
    have hbody : spliceOnto [] case.body = case.body := h.1
    rw [optimizeCases, hbody, ih h.2]

/-- An instruction is put in front of others as it is if nothing inside it changes and it does not
meet a literal as a literal. -/
theorem onto_of_apart (hblock : i.isBlock = false) (hempty : i ≠ .writeLiteral "")
    (hbodies : ∀ body ∈ i.bodies, optimize body = body) (hhead : ∀ j ∈ rest.head?, i.IsApart j) :
    i.onto rest = i :: rest := by
  cases i with
  | writeLiteral text =>
    have htext : text ≠ "" := fun h ↦ hempty (congrArg _ h)
    exact joinLiteral_of_apart htext hhead
  | block body => exact absurd hblock.symm Bool.false_ne_true
  | call formatter argument bind body =>
    have hbody : spliceOnto [] body = body := hbodies body (List.mem_singleton_self body)
    rw [Instruction.onto, hbody]
  | loop iterable kind slots separator body =>
    have hbody : spliceOnto [] body = body := hbodies body (List.mem_singleton_self body)
    rw [Instruction.onto, hbody]
  | branch accessor selector cases =>
    rw [Instruction.onto, optimizeCases_of_optimize (List.forall_mem_map.mp hbodies)]
  | writeValue accessor kind => rfl
  | writeKey accessor => rfl

/-- The induction is on how deep the lists nest, and within each list on its length. -/
theorem IsNormal.optimize_eq (h : IsNormal is) : optimize is = is := by
  induction h with
  | @intro is noBlock noEmpty apart inside ih =>
    induction is with
    | nil => rfl
    | cons i rest ihrest =>
      rw [List.forall_mem_cons] at noBlock noEmpty inside ih
      rw [List.isChain_cons] at apart
      have hrest : spliceOnto [] rest = rest :=
        ihrest noBlock.2 noEmpty.2 apart.2 inside.2 ih.2
      rw [optimize, spliceOnto, hrest]
      exact onto_of_apart noBlock.1 noEmpty.1 ih.1 apart.1

/-- **Simplifying answers normal forms, and normal forms are its fixed points.** So simplifying a
second time changes nothing. -/
theorem optimize_normal (is : List Instruction) :
    IsNormal (optimize is) ∧ (IsNormal is ↔ optimize is = is) ∧
      optimize (optimize is) = optimize is := by
  have hnormal : IsNormal (optimize is) := isNormal_optimize is
  refine ⟨hnormal, ⟨IsNormal.optimize_eq, fun heq ↦ ?_⟩, hnormal.optimize_eq⟩
  rwa [heq] at hnormal

/-- Literals that are apart by blocks only come together, out of any depth. -/
example : optimize [.writeLiteral "[", .block [.block [.writeLiteral ""], .writeLiteral "1"],
    .block [.block []], .writeLiteral "]"] = [.writeLiteral "[1]"] := rfl

end TypedJson
