import TypedJson.Codec.Optimize
import TypedJson.Json.Quoted

/-!
# Compiling encoders

A node becomes the instructions that write a value of it, given the accessor of the value and the
first free slot; the next free slot is answered. Everything that does not depend on the value
becomes a literal.
-/

namespace TypedJson

/-- `null` for `null`, and other instructions for other values. -/
def nullBranch (accessor : Accessor) (value : List Instruction) : Instruction :=
  .branch accessor .null [⟨"null", [.writeLiteral "null"]⟩, ⟨"value", value⟩]

/-- Formatters called one after another, each with the next free slot, and the instructions for what
the last one makes. -/
def callChain (body : Accessor → Nat → List Instruction × Nat) (argument : Accessor) (next : Nat) :
    List FormatterRef → List Instruction × Nat
  | [] => body argument next
  | formatter :: formatters =>
    let (inner, free) := callChain body (.slot next) (next + 1) formatters
    ([.call formatter argument next inner], free)

/-- What a property is written from. -/
def PropertyAccessor.of (object : Accessor) : PropertyAccessor → Accessor
  | field name => .property object name
  | computed => object

/-- The name of a property and a colon. -/
def keyLiteral (flags : JsonFlags) (name : String) : Instruction :=
  .writeLiteral (Json.quote flags name ++ ":")

/-- The key of the case of a candidate. -/
def Candidate.caseKey {ν : Type} (candidate : Candidate ν) (discriminator : Option String) :
    String :=
  match discriminator with
  | some _ => candidate.key
  | none => candidate.shape.getD ""

mutual

/-- The instructions that write a value of a node, and the next free slot. -/
def Node.compile (flags : JsonFlags) (accessor : Accessor) (next : Nat) :
    Node → List Instruction × Nat
  | .scalar kind => ([.writeValue accessor (.scalar kind)], next)
  | .null => ([.writeLiteral "null"], next)
  | .mixed => ([.writeValue accessor .mixed], next)
  | .nullable inner =>
    let (value, free) := inner.compile flags accessor next
    ([nullBranch accessor value], free)
  | .list item =>
    let (body, free) := item.compile flags (.slot next) (next + 1)
    ([.writeLiteral "[", .loop accessor .list [next] "," [.block body], .writeLiteral "]"], free)
  | .dict _ item =>
    let (body, free) := item.compile flags (.slot (next + 1)) (next + 2)
    ([.writeLiteral "\x7b",
      .loop accessor .dict [next, next + 1] ","
        [.writeKey (.slot next), .writeLiteral ":", .block body],
      .writeLiteral "\x7d"], free)
  | .object _ properties =>
    let (body, free) := compileProperties flags accessor next true properties
    (.writeLiteral "\x7b" :: (body ++ [.writeLiteral "\x7d"]), free)
  | .union candidates discriminator =>
    let (cases, free) := compileCandidates flags accessor next discriminator candidates
    let selector :=
      match discriminator with
      | some name => Selector.discriminator name
      | none => Selector.kind
    ([.branch accessor selector cases], free)
  | .enum _ backing => ([.writeValue accessor (.enum backing)], next)
  | .dateTime pattern =>
    ([.call (.dateTimeFormat pattern) accessor next
      [.writeValue (.slot next) (.scalar .string)]], next + 1)
termination_by structural node => node

/-- The instructions that write the properties of an object, with commas between them. -/
def compileProperties (flags : JsonFlags) (object : Accessor) (next : Nat) (isFirst : Bool) :
    List (PropertyNode Node) → List Instruction × Nat
  | [] => ([], next)
  | ⟨_, encodedName, accessor, formatters, node⟩ :: properties =>
    let source := accessor.of object
    let (calls, free) := callChain (fun a n ↦ node.compile flags a n) source next formatters
    let body :=
      match formatters, accessor with
      | _ :: _, .field _ => if node.acceptsNull then [nullBranch source calls] else calls
      | _, _ => calls
    let comma := if isFirst then [] else [Instruction.writeLiteral ","]
    let (others, free) := compileProperties flags object free false properties
    (comma ++ keyLiteral flags encodedName :: .block body :: others, free)
termination_by structural properties => properties

/-- The cases of the candidates of a union. -/
def compileCandidates (flags : JsonFlags) (accessor : Accessor) (next : Nat)
    (discriminator : Option String) :
    List (Candidate Node) → List (BranchCase Instruction) × Nat
  | [] => ([], next)
  | ⟨key, shape, node⟩ :: candidates =>
    let caseKey := (Candidate.mk key shape ()).caseKey discriminator
    let (body, free) := node.compile flags accessor next
    let (cases, free) := compileCandidates flags accessor free discriminator candidates
    (⟨caseKey, body⟩ :: cases, free)
termination_by structural candidates => candidates

end

/-- The encoder of a node. -/
def compile (root : Node) (flags : JsonFlags) : Codec :=
  let (instructions, slots) := root.compile flags .root 1
  ⟨optimize instructions, slots⟩

end TypedJson
