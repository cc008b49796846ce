import TypedJson.Proofs.Codec.Compile

/-!
# Encoders that need no definitions

Formatters and discriminators are all that an encoder takes from a registry. The encoder of a node
that names none of them writes the same over any registry.
-/

namespace TypedJson

/-- No part of the node names a formatter or a discriminator. -/
inductive Node.IsUnaided : Node → Prop
  | scalar (kind : ScalarKind) : IsUnaided (.scalar kind)
  | null : IsUnaided .null
  | mixed : IsUnaided .mixed
  | nullable {inner : Node} (h : IsUnaided inner) : IsUnaided (.nullable inner)
  | list {item : Node} (h : IsUnaided item) : IsUnaided (.list item)
  | dict {item : Node} (kind : ScalarKind) (h : IsUnaided item) : IsUnaided (.dict kind item)
  | object {properties : List (PropertyNode Node)} (className : String)
    (hformatters : ∀ p ∈ properties, ∀ name, .named name ∉ p.formatters)
    (h : ∀ p ∈ properties, IsUnaided p.node) : IsUnaided (.object className properties)
  | union {candidates : List (Candidate Node)} (h : ∀ c ∈ candidates, IsUnaided c.node) :
    IsUnaided (.union candidates none)
  | enum (className : String) (backing : ScalarKind) : IsUnaided (.enum className backing)
  | dateTime (pattern : Option String) : IsUnaided (.dateTime pattern)

namespace Run

variable {r r' : Registry} {config : Config}

/-- The instructions do the same over both registries. -/
def SameOver (r r' : Registry) (config : Config) (is : List Instruction) : Prop :=
  instructions ⟨r, config⟩ is = instructions ⟨r', config⟩ is

theorem SameOver.nil : SameOver r r' config [] := rfl

theorem SameOver.cons {i : Instruction} {is : List Instruction}
    (h : instruction ⟨r, config⟩ i = instruction ⟨r', config⟩ i) (h' : SameOver r r' config is) :
    SameOver r r' config (i :: is) := by
  unfold SameOver at *
  rw [instructions, instructions, h, h']

theorem SameOver.append {is js : List Instruction} (h : SameOver r r' config is)
    (h' : SameOver r r' config js) : SameOver r r' config (is ++ js) := by
  unfold SameOver at *
  rw [instructions_append, instructions_append, h, h']

theorem SameOver.nullBranch {is : List Instruction} (h : SameOver r r' config is) (a : Accessor) :
    SameOver r r' config [nullBranch a is] := by
  unfold SameOver at *
  rw [instructions_singleton, instructions_singleton, instruction_nullBranch,
    instruction_nullBranch, h]

theorem apply_of_unnamed {ref : FormatterRef} (h : ∀ name, ref ≠ .named name)
    (formatters formatters' : Formatters) (config : Config) (value : Value) :
    ref.apply formatters config value = ref.apply formatters' config value := by
  cases ref with
  | named name => exact absurd rfl (h name)
  | dateTimeFormat _ | dateTimeParse _ => cases value <;> rfl

theorem SameOver.call {is : List Instruction} (h : SameOver r r' config is) {ref : FormatterRef}
    (href : ∀ name, ref ≠ .named name) (a : Accessor) (n : Nat) :
    SameOver r r' config [.call ref a n is] := by
  refine .cons ?_ .nil
  unfold SameOver at h
  rw [instruction, instruction, h]
  simp only [apply_of_unnamed href r.formatters r'.formatters]

theorem sameOver_callChain {body : Accessor → Nat → List Instruction × Nat}
    (hbody : ∀ a n, SameOver r r' config (body a n).1) {formatters : List FormatterRef}
    (h : ∀ name, .named name ∉ formatters) (a : Accessor) (n : Nat) :
    SameOver r r' config (callChain body a n formatters).1 := by
  induction formatters generalizing a n with
  | nil => exact hbody a n
  | cons ref formatters ih =>
    rw [callChain]
    exact (ih (fun name hname ↦ h name (List.mem_cons_of_mem ref hname)) _ _).call
      (fun name hname ↦ h name (hname ▸ List.mem_cons_self)) a n

theorem sameOver_compileProperties {properties : List (PropertyNode Node)}
    (hformatters : ∀ p ∈ properties, ∀ name, .named name ∉ p.formatters)
    (h : ∀ p ∈ properties, ∀ a n, SameOver r r' config (p.node.compile config.jsonFlags a n).1)
    (object : Accessor) (n : Nat) (isFirst : Bool) :
    SameOver r r' config (compileProperties config.jsonFlags object n isFirst properties).1 := by
  induction properties generalizing n isFirst with
  | nil => rfl
  | cons p properties ih =>
    obtain ⟨_, encodedName, accessor, formatters, node⟩ := p
    have hcalls : ∀ a n, SameOver r r' config
        (callChain (fun a n ↦ node.compile config.jsonFlags a n) a n formatters).1 :=
      sameOver_callChain (h _ List.mem_cons_self) (hformatters _ List.mem_cons_self)
    have hothers := fun n ↦ ih (fun p hp ↦ hformatters p (List.mem_cons_of_mem _ hp))
      (fun p hp ↦ h p (List.mem_cons_of_mem _ hp)) n false
    rw [compileProperties]
    dsimp only
    have hcomma : SameOver r r' config (if isFirst then [] else [.writeLiteral ","]) := by
      cases isFirst <;> rfl
    refine hcomma.append (.cons rfl (.cons ?_ (hothers _)))
    rw [instruction, instruction]
    split
    · split
      · exact (hcalls _ _).nullBranch _
      · exact hcalls _ _
    · exact hcalls _ _

theorem firstCase_compileCandidates {candidates : List (Candidate Node)}
    (h : ∀ c ∈ candidates, ∀ a n, SameOver r r' config (c.node.compile config.jsonFlags a n).1)
    (a : Accessor) (n : Nat) (key : String) :
    firstCase ⟨r, config⟩ key (compileCandidates config.jsonFlags a n none candidates).1 =
      firstCase ⟨r', config⟩ key (compileCandidates config.jsonFlags a n none candidates).1 := by
  induction candidates generalizing n with
  | nil => rfl
  | cons c candidates ih =>
    obtain ⟨_, _, node⟩ := c
    rw [compileCandidates]
    dsimp only
    rw [firstCase, firstCase, h _ List.mem_cons_self,
      ih (fun c hc ↦ h c (List.mem_cons_of_mem _ hc))]

end Run

open Run

/-- The instructions of a node that names nothing do the same over any registries. -/
theorem Node.IsUnaided.sameOver {node : Node} (h : node.IsUnaided) (r r' : Registry)
    (config : Config) (a : Accessor) (n : Nat) :
    SameOver r r' config (node.compile config.jsonFlags a n).1 := by
  induction h generalizing a n with
  | scalar | null | mixed | enum => rfl
  | nullable _ ih =>
    rw [Node.compile]
    exact (ih a n).nullBranch a
  | list _ ih =>
    have hitem := ih (.slot n) (n + 1)
    unfold SameOver at hitem
    rw [Node.compile]
    unfold SameOver
    simp only [instructions, instruction, hitem]
  | dict _ _ ih =>
    have hitem := ih (.slot (n + 1)) (n + 2)
    unfold SameOver at hitem
    rw [Node.compile]
    unfold SameOver
    simp only [instructions, instruction, hitem]
  | object _ hformatters _ ih =>
    have hproperties := sameOver_compileProperties hformatters (fun p hp a n ↦ ih p hp a n) a n true
    rw [Node.compile]
    exact .cons rfl (hproperties.append (.cons rfl .nil))
  | union _ ih =>
    have hcases := firstCase_compileCandidates (fun c hc a n ↦ ih c hc a n) a n
    rw [Node.compile]
    unfold SameOver
    simp only [instructions, instruction, hcases, select]
  | dateTime pattern =>
    rw [Node.compile]
    have hbody : SameOver r r' config [.writeValue (.slot n) (.scalar .string)] := .cons rfl .nil
    exact hbody.call (by rintro _ ⟨⟩) a n

theorem isPure_empty : Registry.IsPure {} :=
  ⟨fun _ _ h ↦ absurd h List.not_mem_nil, fun _ _ h ↦ absurd h List.not_mem_nil⟩

/-- What is written directly without any definitions is what the encoder answers over a registry. -/
theorem Node.IsUnaided.encode_eq {root : Node} (h : root.IsUnaided) (r : Registry)
    {config : Config} {value : Value} {state : RunState}
    (hrun : root.writeDirect ⟨{}, config⟩ (.ofValue value) ⟨"", [], []⟩ = .ok () state) :
    (TypedJson.compile root config.jsonFlags).encode r config value = .ok state.out := by
  let slots := value :: List.replicate ((root.compile config.jsonFlags .root 1).2 - 1) Value.null
  have hsize : (root.compile config.jsonFlags .root 1).2 ≤ slots.length := by
    rw [List.length_cons, List.length_replicate]
    omega
  have hagree := @writes_node ⟨{}, config⟩ isPure_empty .root 1 root ⟨"", [], slots⟩
    ⟨"", [], []⟩ (.ofValue value) ⟨rfl, fun _ ↦ Iff.rfl⟩ ⟨rfl, fun _ ↦ Iff.rfl⟩ Nat.one_pos hsize
  have hsame := h.sameOver {} r config .root 1
  unfold SameOver at hsame
  rw [hsame, ← instructions_optimize, hrun] at hagree
  have hcompiled : (TypedJson.compile root config.jsonFlags).run r config value = Written.of
    (instructions ⟨r, config⟩ (optimize (root.compile config.jsonFlags .root 1).1)
      ⟨"", [], slots⟩) := rfl
  obtain ⟨hout, hfailure, -⟩ := hagree.written
  rw [← hcompiled] at hout hfailure
  rw [Codec.encode, Written.text, Option.map_eq_none_iff.mp hfailure]
  exact congrArg Except.ok hout

end TypedJson
