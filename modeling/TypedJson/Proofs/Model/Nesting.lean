import TypedJson.Proofs.Metadata.Depth
import TypedJson.Proofs.Model.Terminating
import TypedJson.Proofs.Model.Typing

/-!
# How deep classes nest

On a way down a node classes are met inside each other. How often each of them is met is bounded for
a node below given open classes, so that the bound passes from the properties of a class, below one
more open class, to the class.

As built classes are remembered by text, it matters whether the class of an object shows in the text
of its type. It does for types of the registry, and for all types if no class name goes on where
another one ends with the bracket of its type arguments.
-/

namespace TypedJson

open DataType

/-- The classes met on a way from the root of a node down to a place in it. -/
inductive Node.HasPath : Node → List String → Prop
  | root (node : Node) : HasPath node []
  | object (className : String) (properties : List (PropertyNode Node)) :
    HasPath (.object className properties) [className]
  | property {className : String} {properties : List (PropertyNode Node)} {p : PropertyNode Node}
    {path : List String} : p ∈ properties → HasPath p.node path →
      HasPath (.object className properties) (className :: path)
  | nullable {inner : Node} {path : List String} : HasPath inner path →
    HasPath (.nullable inner) path
  | list {item : Node} {path : List String} : HasPath item path → HasPath (.list item) path
  | dict {kind : ScalarKind} {item : Node} {path : List String} : HasPath item path →
    HasPath (.dict kind item) path
  | union {candidates : List (Candidate Node)} {discriminator : Option String}
    {candidate : Candidate Node} {path : List String} : candidate ∈ candidates →
      HasPath candidate.node path → HasPath (.union candidates discriminator) path

/-- The node further in that a turn leads to, and the classes that are left by it. -/
def Node.turn? (turn : Nat) : Node → Option (List String × Node)
  | .object className properties => properties[turn]?.map fun p ↦ ([className], p.node)
  | .nullable inner | .list inner | .dict _ inner => some ([], inner)
  | .union candidates _ => candidates[turn]?.map fun candidate ↦ ([], candidate.node)
  | _ => none

/-- The classes met on the way that takes the given turns. -/
def Node.path? (node : Node) : List Nat → Option (List String)
  | [] =>
    match node with
    | .object className _ => some [className]
    | _ => some []
  | turn :: turns => do
    let (left, node) ← node.turn? turn
    return left ++ (← node.path? turns)

/-- Below the open classes, no class comes up more than `k` times on any way down. -/
def Node.NestsWithin (k : Nat) (stack : List String) (node : Node) : Prop :=
  ∀ path, node.HasPath path → ∀ x, (stack ++ path).count x ≤ k

/-! ## Nodes that nest -/

theorem Node.isInherited_nestsWithin {k : Nat} {stack : List String}
    (hstack : ∀ x, stack.count x ≤ k) : IsInherited (NestsWithin k stack) where
  scalar kind path h := by
    cases h
    rwa [List.append_nil]
  null path h := by
    cases h
    rwa [List.append_nil]
  mixed path h := by
    cases h
    rwa [List.append_nil]
  enum className backing path h := by
    cases h
    rwa [List.append_nil]
  dateTime pattern path h := by
    cases h
    rwa [List.append_nil]
  nullable hinner path h := by
    cases h with
    | root => rwa [List.append_nil]
    | nullable h => exact hinner path h
  list hitem path h := by
    cases h with
    | root => rwa [List.append_nil]
    | list h => exact hitem path h
  dict hitem path h := by
    cases h with
    | root => rwa [List.append_nil]
    | dict h => exact hitem path h
  union hcandidates path h := by
    cases h with
    | root => rwa [List.append_nil]
    | union hmem h => exact hcandidates _ hmem path h

/-- A class nests if its properties nest below it. -/
theorem Node.nestsWithin_object {k : Nat} {stack : List String} {className : String}
    (hstack : ∀ x, (stack ++ [className]).count x ≤ k) {properties : List (PropertyNode Node)}
    (h : ∀ p ∈ properties, p.node.NestsWithin k (stack ++ [className])) :
    (Node.object className properties).NestsWithin k stack := by
  intro path hpath x
  cases hpath with
  | root =>
    rw [List.append_nil]
    exact ((List.sublist_append_left stack [className]).count_le x).trans (hstack x)
  | object => exact hstack x
  | property hmem hpath =>
    rw [List.append_cons]
    exact h _ hmem _ hpath x

theorem Node.NestsWithin.congr {k : Nat} {stack stack' : List String} {node : Node}
    (h : node.NestsWithin k stack) (hperm : stack.Perm stack') : node.NestsWithin k stack' := by
  intro path hpath x
  rw [← (hperm.append_right path).count_eq x]
  exact h path hpath x

/-! ## Names and texts -/

/-- Objects of a kind of types show in their texts which class of the registry they are of. -/
def Registry.TellsApart (r : Registry) (P : DataType → Prop) : Prop :=
  ∀ a b as bs m n, a ∈ r.classNames → b ∈ r.classNames → P (DataType.mk (.object a as) m) →
    P (DataType.mk (.object b bs) n) → (object a as).text = (object b bs).text → a = b

/-- Types of the registry are known by their texts altogether. -/
theorem Registry.tellsApart_denotes (r : Registry) : r.TellsApart r.Denotes := by
  intro a b as bs m n _ _ ha hb htext
  cases ha.nonNull.eq_of_text hb.nonNull htext
  rfl

end TypedJson
