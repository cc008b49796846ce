import Mathlib.Data.List.Intervals
import TypedJson.Proofs.Codec.Compile

/-!
# Well-scoped instructions

A slot is filled by a formatter call or by a loop, for the instructions inside. Instructions are
well-scoped if every accessor starts from a slot that is filled around the instruction that reads
it, or from the slot of the value being written: the rules of `Instruction.IsScoped`. What is
compiled is well-scoped, and so is what simplifying makes of it.

That no slot is filled twice is shown by counting. The compiler hands slots out in the order in
which the instructions that fill them are written, so the slots filled by what is compiled with
the next free slot `n` are `n`, `n + 1` and so on up to the next free slot that is answered, in this
order and each once (`Allots`).
-/

namespace TypedJson

variable {scope : List Nat} {a : Accessor} {n m free : Nat} {is js : List Instruction}

/-! ## Scopes -/

/-- The slots of `scope` are filled around the instruction, and every accessor in it starts from one
of these or from a slot that is filled inside, around the instruction that reads. A loop fills one
slot for a list, and two for a dictionary. -/
inductive Instruction.IsScoped : List Nat → Instruction → Prop
  | writeLiteral {scope : List Nat} (text : String) : IsScoped scope (.writeLiteral text)
  | writeValue {scope : List Nat} {a : Accessor} (ha : a.base ∈ scope) (kind : WriteKind) :
    IsScoped scope (.writeValue a kind)
  | writeKey {scope : List Nat} {a : Accessor} (ha : a.base ∈ scope) : IsScoped scope (.writeKey a)
  | call {scope : List Nat} {a : Accessor} {bind : Nat} {body : List Instruction}
    (formatter : FormatterRef) (ha : a.base ∈ scope)
    (hbody : ∀ i ∈ body, IsScoped (bind :: scope) i) : IsScoped scope (.call formatter a bind body)
  | list {scope : List Nat} {a : Accessor} {item : Nat} {body : List Instruction}
    (separator : String) (ha : a.base ∈ scope)
    (hbody : ∀ i ∈ body, IsScoped (item :: scope) i) :
    IsScoped scope (.loop a .list [item] separator body)
  | dict {scope : List Nat} {a : Accessor} {key value : Nat} {body : List Instruction}
    (separator : String) (ha : a.base ∈ scope)
    (hbody : ∀ i ∈ body, IsScoped (value :: key :: scope) i) :
    IsScoped scope (.loop a .dict [key, value] separator body)
  | branch {scope : List Nat} {a : Accessor} {cases : List (BranchCase Instruction)}
    (selector : Selector) (ha : a.base ∈ scope)
    (hcases : ∀ case ∈ cases, ∀ i ∈ case.body, IsScoped scope i) :
    IsScoped scope (.branch a selector cases)
  | block {scope : List Nat} {body : List Instruction} (hbody : ∀ i ∈ body, IsScoped scope i) :
    IsScoped scope (.block body)

/-- Instructions around which the slots of a scope are filled. -/
def AreScoped (scope : List Nat) (is : List Instruction) : Prop := ∀ i ∈ is, i.IsScoped scope

/-! ## Filled slots -/

mutual

/-- The slots that an instruction and those inside it fill, in the order in which they are
written. -/
def Instruction.filled : Instruction → List Nat
  | .call _ _ bind body => bind :: filledSlots body
  | .loop _ _ slots _ body => slots ++ filledSlots body
  | .branch _ _ cases => filledInCases cases
  | .block body => filledSlots body
  | .writeLiteral _ | .writeValue _ _ | .writeKey _ => []
termination_by structural i => i

/-- The slots that instructions fill. -/
def filledSlots : List Instruction → List Nat
  | [] => []
  | i :: is => i.filled ++ filledSlots is
termination_by structural is => is

/-- The slots that the bodies of cases fill. -/
def filledInCases : List (BranchCase Instruction) → List Nat
  | [] => []
  | ⟨_, body⟩ :: cases => filledSlots body ++ filledInCases cases
termination_by structural cases => cases

end

theorem filledSlots_eq_flatMap (is : List Instruction) :
    filledSlots is = is.flatMap Instruction.filled := by
  induction is with
  | nil => rfl
  | cons i is ih => rw [filledSlots, ih, List.flatMap_cons]

theorem filledInCases_eq_flatMap (cases : List (BranchCase Instruction)) :
    filledInCases cases = cases.flatMap fun case ↦ filledSlots case.body := by
  induction cases with
  | nil => rfl
  | cons case cases ih => rw [filledInCases, ih, List.flatMap_cons]

theorem filledSlots_append (is js : List Instruction) :
    filledSlots (is ++ js) = filledSlots is ++ filledSlots js := by
  simp only [filledSlots_eq_flatMap, List.flatMap_append]

theorem forall_mem_filledSlots {P : Nat → Prop} :
    (∀ n ∈ filledSlots is, P n) ↔ ∀ i ∈ is, ∀ n ∈ i.filled, P n := by
  rw [filledSlots_eq_flatMap, List.forall_mem_flatMap]

theorem forall_mem_filledInCases {cases : List (BranchCase Instruction)} {P : Nat → Prop} :
    (∀ n ∈ filledInCases cases, P n) ↔ ∀ case ∈ cases, ∀ n ∈ filledSlots case.body, P n := by
  rw [filledInCases_eq_flatMap, List.forall_mem_flatMap]

/-- An encoder that reads only what has been filled, and fills no slot that is not its own. -/
structure Codec.IsScoped (codec : Codec) : Prop where
  /-- Accessors start from the value being written or from a slot that is filled around them. -/
  reads : AreScoped [0] codec.instructions
  /-- The slots that are filled are those of the encoder, without the one of the value being
  written. -/
  filled : ∀ n ∈ filledSlots codec.instructions, 1 ≤ n ∧ n < codec.slots
  /-- No two instructions fill the same slot. -/
  nodup : (filledSlots codec.instructions).Nodup

/-! ## Simplifying -/

theorem filledSlots_joinLiteral (text : String) (tail : List Instruction) :
    filledSlots (joinLiteral text tail) = filledSlots tail := by
  unfold joinLiteral
  split
  · rfl
  · split <;> rfl

mutual

theorem filledSlots_onto (tail : List Instruction) : ∀ i : Instruction,
    filledSlots (i.onto tail) = i.filled ++ filledSlots tail
  | .writeLiteral text => filledSlots_joinLiteral text tail
  | .block body => filledSlots_spliceOnto tail body
  | .call formatter argument bind body => by
    rw [Instruction.onto, filledSlots, Instruction.filled, Instruction.filled,
      filledSlots_spliceOnto [] body, filledSlots, List.append_nil]
  | .loop iterable kind slots separator body => by
    rw [Instruction.onto, filledSlots, Instruction.filled, Instruction.filled,
      filledSlots_spliceOnto [] body, filledSlots, List.append_nil]
  | .branch accessor selector cases => by
    rw [Instruction.onto, filledSlots, Instruction.filled, Instruction.filled,
      filledInCases_optimizeCases cases]
  | .writeValue accessor kind => rfl
  | .writeKey accessor => rfl
termination_by structural i => i

theorem filledSlots_spliceOnto (tail : List Instruction) : ∀ is : List Instruction,
    filledSlots (spliceOnto tail is) = filledSlots is ++ filledSlots tail
  | [] => rfl
  | i :: is => by
    rw [spliceOnto, filledSlots_onto _ i, filledSlots_spliceOnto tail is, filledSlots,
      List.append_assoc]
termination_by structural is => is

theorem filledInCases_optimizeCases : ∀ cases : List (BranchCase Instruction),
    filledInCases (optimizeCases cases) = filledInCases cases
  | [] => rfl
  | ⟨_, body⟩ :: cases => by
    rw [optimizeCases, filledInCases, filledInCases, filledSlots_spliceOnto [] body, filledSlots,
      List.append_nil, filledInCases_optimizeCases cases]
termination_by structural cases => cases

end

/-- Simplified instructions fill the same slots in the same order. -/
theorem filledSlots_optimize (is : List Instruction) :
    filledSlots (optimize is) = filledSlots is := by
  rw [optimize, filledSlots_spliceOnto, filledSlots, List.append_nil]

namespace AreScoped

variable {tail : List Instruction}

theorem nil : AreScoped scope [] := List.forall_mem_nil _

theorem cons {i : Instruction} (hi : i.IsScoped scope) (h : AreScoped scope is) :
    AreScoped scope (i :: is) := List.forall_mem_cons.mpr ⟨hi, h⟩

theorem append (h : AreScoped scope is) (h' : AreScoped scope js) : AreScoped scope (is ++ js) :=
  List.forall_mem_append.mpr ⟨h, h'⟩

theorem singleton {i : Instruction} (hi : i.IsScoped scope) : AreScoped scope [i] := nil.cons hi

theorem joinLiteral (htail : AreScoped scope tail) (text : String) :
    AreScoped scope (TypedJson.joinLiteral text tail) := by
  unfold TypedJson.joinLiteral
  split
  · exact htail
  · split
    · exact .cons (.writeLiteral _) (List.forall_mem_cons.mp htail).2
    · exact .cons (.writeLiteral _) htail

/-- Instructions are put in front of others one by one. -/
theorem spliceOnto (htail : AreScoped scope tail)
    (h : ∀ i ∈ is, ∀ tail, AreScoped scope tail → AreScoped scope (i.onto tail)) :
    AreScoped scope (TypedJson.spliceOnto tail is) := by
  induction is with
  | nil => exact htail
  | cons i is ih =>
    rw [List.forall_mem_cons] at h
    exact h.1 _ (ih h.2)

end AreScoped

theorem mem_optimizeCases {cases : List (BranchCase Instruction)} {case : BranchCase Instruction} :
    case ∈ optimizeCases cases ↔ ∃ c ∈ cases, ⟨c.key, optimize c.body⟩ = case := by
  induction cases with
  | nil => simp [optimizeCases]
  | cons c cases ih => simp [optimizeCases, optimize, ih, eq_comm]

theorem Instruction.IsScoped.onto {i : Instruction} (h : i.IsScoped scope) :
    ∀ tail, AreScoped scope tail → AreScoped scope (i.onto tail) := by
  induction h with
  | writeLiteral text => exact fun tail htail ↦ htail.joinLiteral text
  | writeValue ha kind => exact fun tail htail ↦ htail.cons (.writeValue ha kind)
  | writeKey ha => exact fun tail htail ↦ htail.cons (.writeKey ha)
  | call formatter ha _ ih =>
    exact fun tail htail ↦ htail.cons (.call formatter ha (AreScoped.nil.spliceOnto ih))
  | list separator ha _ ih =>
    exact fun tail htail ↦ htail.cons (.list separator ha (AreScoped.nil.spliceOnto ih))
  | dict separator ha _ ih =>
    exact fun tail htail ↦ htail.cons (.dict separator ha (AreScoped.nil.spliceOnto ih))
  | branch selector ha _ ih =>
    refine fun tail htail ↦ htail.cons (.branch selector ha fun case hcase ↦ ?_)
    obtain ⟨c, hc, rfl⟩ := mem_optimizeCases.mp hcase
    exact AreScoped.nil.spliceOnto (ih c hc)
  | block _ ih => exact fun tail htail ↦ htail.spliceOnto ih

theorem AreScoped.optimize (h : AreScoped scope is) : AreScoped scope (TypedJson.optimize is) :=
  AreScoped.nil.spliceOnto fun i hi ↦ (h i hi).onto

theorem Codec.IsScoped.optimize {codec : Codec} (h : codec.IsScoped) :
    Codec.IsScoped ⟨TypedJson.optimize codec.instructions, codec.slots⟩ := by
  constructor
  case reads => exact h.reads.optimize
  case filled => simpa only [filledSlots_optimize] using h.filled
  case nodup => simpa only [filledSlots_optimize] using h.nodup

/-! ## Compiling -/

/-- Instructions that fill the slots from `n` up to `free`, in order and each once, where those of a
scope are filled around them. -/
structure Allots (scope : List Nat) (n free : Nat) (is : List Instruction) : Prop where
  reads : AreScoped scope is
  filled_eq : filledSlots is = List.Ico n free

namespace Allots

theorem append (h : Allots scope n m is) (h' : Allots scope m free js) (hnm : n ≤ m)
    (hm : m ≤ free) : Allots scope n free (is ++ js) where
  reads := h.reads.append h'.reads
  filled_eq := by
    rw [filledSlots_append, h.filled_eq, h'.filled_eq, List.Ico.append_consecutive hnm hm]

/-- An instruction that fills no slot. -/
theorem plain {i : Instruction} (hi : i.IsScoped scope) (hfilled : i.filled = []) (n : Nat) :
    Allots scope n n [i] where
  reads := .singleton hi
  filled_eq := by rw [filledSlots, hfilled, List.Ico.self_empty]; rfl

theorem literal (text : String) (n : Nat) : Allots scope n n [.writeLiteral text] :=
  .plain (.writeLiteral text) rfl n

theorem nullBranch (h : Allots scope n free is) (ha : a.base ∈ scope) :
    Allots scope n free [TypedJson.nullBranch a is] where
  reads := by
    refine .singleton (.branch .null ha ?_)
    have hnull : AreScoped scope [.writeLiteral "null"] := .singleton (.writeLiteral "null")
    exact List.forall_mem_cons.mpr ⟨hnull, List.forall_mem_singleton.mpr h.reads⟩
  filled_eq := by
    simp [TypedJson.nullBranch, filledSlots, Instruction.filled, filledInCases, h.filled_eq]

/-- A formatter call fills the next slot, for what is inside. -/
theorem call (h : Allots (n :: scope) (n + 1) free is) (ha : a.base ∈ scope)
    (hfree : n + 1 ≤ free) (formatter : FormatterRef) :
    Allots scope n free [.call formatter a n is] where
  reads := .singleton (.call formatter ha h.reads)
  filled_eq := by
    rw [filledSlots, Instruction.filled, filledSlots, List.append_nil, h.filled_eq,
      List.Ico.eq_cons hfree]

theorem block (h : Allots scope n free is) : Allots scope n free [.block is] where
  reads := .singleton (.block h.reads)
  filled_eq := by rw [filledSlots, Instruction.filled, filledSlots, List.append_nil, h.filled_eq]

theorem list (h : Allots (n :: scope) (n + 1) free is) (ha : a.base ∈ scope)
    (hfree : n + 1 ≤ free) (separator : String) :
    Allots scope n free [.loop a .list [n] separator is] where
  reads := .singleton (.list separator ha h.reads)
  filled_eq := by
    rw [filledSlots, Instruction.filled, filledSlots, List.append_nil, h.filled_eq,
      List.singleton_append, List.Ico.eq_cons hfree]

theorem dict (h : Allots ((n + 1) :: n :: scope) (n + 2) free is) (ha : a.base ∈ scope)
    (hfree : n + 2 ≤ free) (separator : String) :
    Allots scope n free [.loop a .dict [n, n + 1] separator is] where
  reads := .singleton (.dict separator ha h.reads)
  filled_eq := by
    rw [filledSlots, Instruction.filled, filledSlots, List.append_nil, h.filled_eq,
      List.Ico.eq_cons (by omega : n < free), List.Ico.eq_cons hfree]
    rfl

/-- Literals around other instructions change nothing. -/
theorem enclosed (h : Allots scope n free is) (hle : n ≤ free) (front back : String) :
    Allots scope n free (.writeLiteral front :: (is ++ [.writeLiteral back])) :=
  (literal front n).append (h.append (literal back free) hle (Nat.le_refl free)) (Nat.le_refl n) hle

/-- A property in front of others. -/
theorem member {others : List Instruction} (h : Allots scope n m is)
    (hothers : Allots scope m free others) (hnm : n ≤ m) (hm : m ≤ free) (isFirst : Bool)
    (key : String) :
    Allots scope n free
      ((if isFirst then [] else [.writeLiteral ","]) ++
        .writeLiteral key :: .block is :: others) := by
  have hmember := (literal key n).append (h.block.append hothers hnm hm) (Nat.le_refl n)
    (Nat.le_trans hnm hm)
  cases isFirst with
  | true => exact hmember
  | false => exact (literal "," n).append hmember (Nat.le_refl n) (Nat.le_trans hnm hm)

/-- Formatters called one after another, each with a slot of its own. -/
theorem callChain {body : Accessor → Nat → List Instruction × Nat}
    (hle : ∀ a n, n ≤ (body a n).2)
    (hbody : ∀ scope a n, a.base ∈ scope → Allots scope n (body a n).2 (body a n).1)
    (ha : a.base ∈ scope) (n : Nat) (formatters : List FormatterRef) :
    Allots scope n (TypedJson.callChain body a n formatters).2
      (TypedJson.callChain body a n formatters).1 := by
  induction formatters generalizing scope a n with
  | nil => exact hbody scope a n ha
  | cons formatter formatters ih =>
    have hinner : Allots (n :: scope) (n + 1) _ _ := ih (a := .slot n) List.mem_cons_self (n + 1)
    exact hinner.call ha (callChain_le hle _ _ formatters) formatter

end Allots

/-! The induction is on the node, together with its properties and its candidates. -/

mutual

/-- The instructions of a node fill the slots from the first free one to the next free one. -/
theorem Node.allots_compile (flags : JsonFlags) {scope : List Nat} {a : Accessor}
    (ha : a.base ∈ scope) (n : Nat) : ∀ node : Node,
    Allots scope n (node.compile flags a n).2 (node.compile flags a n).1
  | .scalar kind => .plain (.writeValue ha (.scalar kind)) rfl n
  | .null => .literal "null" n
  | .mixed => .plain (.writeValue ha .mixed) rfl n
  | .nullable inner => (inner.allots_compile flags ha n).nullBranch ha
  | .list item => by
    have hle : n + 1 ≤ _ := item.compile_le flags (.slot n) (n + 1)
    have hitem : Allots (n :: scope) (n + 1) _ _ :=
      item.allots_compile flags (a := .slot n) List.mem_cons_self (n + 1)
    exact (hitem.block.list ha hle ",").enclosed (Nat.le_of_succ_le hle) "[" "]"
  | .dict _ item => by
    have hle : n + 2 ≤ _ := item.compile_le flags (.slot (n + 1)) (n + 2)
    have hitem : Allots ((n + 1) :: n :: scope) (n + 2) _ _ :=
      item.allots_compile flags (a := .slot (n + 1)) List.mem_cons_self (n + 2)
    have hkey : (Instruction.writeKey (.slot n)).IsScoped ((n + 1) :: n :: scope) :=
      .writeKey (List.mem_cons_of_mem _ List.mem_cons_self)
    have hentry := (Allots.plain hkey rfl (n + 2)).append
      ((Allots.literal ":" (n + 2)).append hitem.block (Nat.le_refl _) hle) (Nat.le_refl _) hle
    exact (hentry.dict ha hle ",").enclosed (by omega) "\x7b" "\x7d"
  | .object _ properties =>
    (allots_compileProperties flags ha n true properties).enclosed
      (compileProperties_le flags a n true properties) "\x7b" "\x7d"
  | .union candidates discriminator => by
    obtain ⟨hreads, hfilled⟩ := allots_compileCandidates flags ha n discriminator candidates
    refine ⟨.singleton (.branch _ ha hreads), ?_⟩
    exact (List.append_nil _).trans hfilled
  | .enum _ backing => .plain (.writeValue ha (.enum backing)) rfl n
  | .dateTime pattern => by
    have htext : (Instruction.writeValue (.slot n) (.scalar .string)).IsScoped (n :: scope) :=
      .writeValue (a := .slot n) List.mem_cons_self _
    exact (Allots.plain htext rfl (n + 1)).call ha (Nat.le_refl _) (.dateTimeFormat pattern)
termination_by structural node => node

theorem allots_compileProperties (flags : JsonFlags) {scope : List Nat} {object : Accessor}
    (hobject : object.base ∈ scope) (n : Nat) (isFirst : Bool) :
    ∀ properties : List (PropertyNode Node),
      Allots scope n (compileProperties flags object n isFirst properties).2
        (compileProperties flags object n isFirst properties).1
  | [] => ⟨.nil, List.Ico.self_empty.symm⟩
  | ⟨_, encodedName, accessor, formatters, node⟩ :: properties => by
    have hsource : (accessor.of object).base ∈ scope := by
      rwa [base_propertyAccessor]
    have hle := fun a n ↦ node.compile_le flags a n
    have hcalls := Allots.callChain hle
      (fun scope a n ha ↦ node.allots_compile flags ha n) hsource n formatters
    rw [compileProperties]
    refine Allots.member ?_ (allots_compileProperties flags hobject _ false properties)
      (callChain_le hle _ n formatters) (compileProperties_le flags object _ false properties)
      isFirst _
    split
    · split
      · exact hcalls.nullBranch hsource
      · exact hcalls
    · exact hcalls
termination_by structural properties => properties

theorem allots_compileCandidates (flags : JsonFlags) {scope : List Nat} {a : Accessor}
    (ha : a.base ∈ scope) (n : Nat) (discriminator : Option String) :
    ∀ candidates : List (Candidate Node),
      (∀ case ∈ (compileCandidates flags a n discriminator candidates).1,
        AreScoped scope case.body) ∧
      filledInCases (compileCandidates flags a n discriminator candidates).1 =
        List.Ico n (compileCandidates flags a n discriminator candidates).2
  | [] => ⟨List.forall_mem_nil _, List.Ico.self_empty.symm⟩
  | ⟨_, _, node⟩ :: candidates => by
    have hbody := node.allots_compile flags ha n
    obtain ⟨hreads, hfilled⟩ := allots_compileCandidates flags ha (node.compile flags a n).2
      discriminator candidates
    refine ⟨List.forall_mem_cons.mpr ⟨hbody.reads, hreads⟩, ?_⟩
    rw [compileCandidates, filledInCases, hbody.filled_eq, hfilled]
    exact List.Ico.append_consecutive (node.compile_le flags a n)
      (compileCandidates_le flags a _ discriminator candidates)
termination_by structural candidates => candidates

end

/-- What is compiled is well-scoped before it is simplified. -/
theorem Node.isScoped_compile (flags : JsonFlags) (root : Node) :
    Codec.IsScoped ⟨(root.compile flags .root 1).1, (root.compile flags .root 1).2⟩ := by
  have h : Allots [0] 1 _ _ := root.allots_compile flags (a := .root) List.mem_cons_self 1
  constructor
  case reads => exact h.reads
  case filled =>
    rw [h.filled_eq]
    exact fun n hn ↦ List.Ico.mem.mp hn
  case nodup =>
    rw [h.filled_eq]
    exact List.Ico.nodup 1 _

/-- A list, the dictionaries in it, and the formatter call for each of their values. -/
example : filledSlots (compile (.list (.dict .string (.dateTime none))) .none).instructions =
    [1, 2, 3, 4] := rfl

end TypedJson
