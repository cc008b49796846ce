import TypedJson.Proofs.Codec.Optimize
import TypedJson.Proofs.Codec.Simulation

/-!
# Encoders write what the data model says

The instructions of a node, run on slots in which an accessor shows a source, agree with writing the
source directly: `Run.writes_node`. The invariant is that instructions compiled with the next free
slot `n` leave the first `n` slots alone. The accessor starts from one of those, so loops, formatter
calls and cases inside each other never clobber what an instruction around them still reads.

From this and from the fact that simplifying changes nothing, `compile_run_agrees` follows: a
compiled encoder and the direct writer write the same bytes, also in front of a failure, and fail
for the same reason.
-/

namespace TypedJson

open RunState

/-! ## Slots are handed out in order -/

theorem callChain_le {body : Accessor → Nat → List Instruction × Nat}
    (hbody : ∀ a n, n ≤ (body a n).2) (a : Accessor) (n : Nat) (formatters : List FormatterRef) :
    n ≤ (callChain body a n formatters).2 := by
  induction formatters generalizing a n with
  | nil => exact hbody a n
  | cons f fs ih =>
    rw [callChain]
    have hinner := ih (.slot n) (n + 1)
    exact Nat.le_trans (Nat.le_succ n) hinner

mutual

theorem Node.compile_le (flags : JsonFlags) (a : Accessor) (n : Nat) : ∀ node : Node,
    n ≤ (node.compile flags a n).2
  | .scalar _ | .null | .mixed | .enum _ _ => Nat.le_refl n
  | .nullable inner => inner.compile_le flags a n
  | .list item => Nat.le_trans (Nat.le_succ n) (item.compile_le flags (.slot n) (n + 1))
  | .dict _ item =>
    Nat.le_trans (Nat.le_add_right n 2) (item.compile_le flags (.slot (n + 1)) (n + 2))
  | .object _ properties => compileProperties_le flags a n true properties
  | .union candidates discriminator => compileCandidates_le flags a n discriminator candidates
  | .dateTime _ => Nat.le_succ n
termination_by structural node => node

theorem compileProperties_le (flags : JsonFlags) (object : Accessor) (n : Nat) (isFirst : Bool) :
    ∀ properties : List (PropertyNode Node),
      n ≤ (compileProperties flags object n isFirst properties).2
  | [] => Nat.le_refl n
  | ⟨_, _, accessor, formatters, node⟩ :: properties => by
    have hcalls := callChain_le (fun a n ↦ node.compile_le flags a n) (accessor.of object) n
      formatters
    exact Nat.le_trans hcalls (compileProperties_le flags object _ false properties)
termination_by structural properties => properties

theorem compileCandidates_le (flags : JsonFlags) (a : Accessor) (n : Nat)
    (discriminator : Option String) : ∀ candidates : List (Candidate Node),
      n ≤ (compileCandidates flags a n discriminator candidates).2
  | [] => Nat.le_refl n
  | ⟨_, _, node⟩ :: candidates =>
    Nat.le_trans (node.compile_le flags a n)
      (compileCandidates_le flags a _ discriminator candidates)
termination_by structural candidates => candidates

end

theorem base_propertyAccessor (accessor : PropertyAccessor) (object : Accessor) :
    (accessor.of object).base = object.base := by
  cases accessor <;> rfl

namespace Run

/-! ## Instructions -/

section

variable (context : RunContext)

theorem instructions_singleton (i : Instruction) :
    instructions context [i] = instruction context i := by
  rw [instructions, instructions, bind_pure_unit]

theorem instructions_append (is js : List Instruction) :
    instructions context (is ++ js) = (do instructions context is; instructions context js) := by
  induction is with
  | nil => rw [List.nil_append, instructions, pure_bind]
  | cons i is ih => rw [List.cons_append, instructions, instructions, ih, bind_assoc]

theorem atAccessor_pure {α : Type} (a : Accessor) (value : α) :
    atAccessor a (pure value) = pure value := rfl

theorem instruction_nullBranch (a : Accessor) (value : List Instruction) :
    instruction context (nullBranch a value) =
      (do if (← read a).isNull then write "null" else instructions context value) := by
  rw [nullBranch, instruction]
  congr 1
  funext v
  cases hnull : v.isNull <;>
    simp only [select, hnull, atAccessor_pure, pure_bind] <;>
    simp [caseFor?, firstCase, instructions_singleton, instruction]

end

variable {α : Type} {n : Nat} {s t : RunState} {a : Accessor} {source : Source}
  {context : RunContext}

/-! ## Slots -/

/-- What a slot holds is what it shows. -/
theorem shows_setSlot {m : Nat} (hm : m < s.slots.length) (value : Value) :
    Shows { s with slots := s.slots.set m value } (.slot m) (.ofValue value) := by
  refine ⟨?_, fun _ ↦ Iff.rfl⟩
  change Except.ok ((s.slots.set m value)[m]?.getD .null) = Except.ok value
  rw [List.getElem?_set_self hm]
  rfl

/-- Going on after a slot above the first `n` has been filled. -/
theorem agree_setSlot {m : Nat} {c : Run α} {y : EStateM.Result Failure RunState α}
    (value : Value) (hm : n ≤ m)
    (h : Agree n { s with slots := s.slots.set m value }
      (c { s with slots := s.slots.set m value }) y) :
    Agree n s ((do setSlot m value; c) s) y := by
  have hlater : Later n s { s with slots := s.slots.set m value } := by
    refine ⟨fun _ hmem ↦ hmem, List.length_set, fun i hi ↦ ?_⟩
    exact List.getElem?_set_ne (by omega)
  exact Agree.of_later hlater h

/-! ## Pieces -/

theorem agree_nullBranch {value : List Instruction} {direct : Value → Run Unit}
    (h : Shows s a source) (halike : Alike s t)
    (hvalue : ∀ v s' t', Alike s' t' → Later n s s' → Shows s' a (.ofValue v) →
      Agree n s' (instructions context value s') (direct v t')) :
    Agree n s (instruction context (nullBranch a value) s)
      ((do
        let v ← look source
        if v.isNull then write "null" else direct v) t) := by
  rw [instruction_nullBranch]
  refine agree_read h halike fun v s' t' halike' hlater hshows ↦ ?_
  cases v.isNull with
  | true => exact steady_write _ n s' t' halike'
  | false => exact hvalue v s' t' halike' hlater hshows

/-- A body for each item agrees with writing each item, if it does so in every later state. -/
theorem agree_forItems (separator : String) {body direct : Value → Run Unit} (isFirst : Bool)
    (items : List Value) (halike : Alike s t)
    (hbody : ∀ item s' t', Alike s' t' → Later n s s' →
      Agree n s' (body item s') (direct item t')) :
    Agree n s (forItems separator body isFirst items s)
      (forItems separator direct isFirst items t) := by
  induction items generalizing isFirst s t with
  | nil => exact Agree.pure halike ()
  | cons item items ih =>
    rw [forItems, forItems]
    refine agree_separated separator isFirst halike fun s' t' halike' hlater ↦ ?_
    refine Agree.bind (hbody item s' t' halike' hlater) fun _ s'' t'' halike'' hlater' ↦ ?_
    exact ih false halike'' fun item s₃ t₃ halike₃ hlater₃ ↦
      hbody item s₃ t₃ halike₃ ((hlater.trans hlater').trans hlater₃)

/-- A body for each entry agrees with writing each entry, if it does so in every later state. -/
theorem agree_forEntries (separator : String) {body direct : DictKey → Value → Run Unit}
    (isFirst : Bool) (entries : List (DictKey × Value)) (halike : Alike s t)
    (hbody : ∀ key value s' t', Alike s' t' → Later n s s' →
      Agree n s' (body key value s') (direct key value t')) :
    Agree n s (forEntries separator body isFirst entries s)
      (forEntries separator direct isFirst entries t) := by
  induction entries generalizing isFirst s t with
  | nil => exact Agree.pure halike ()
  | cons entry entries ih =>
    obtain ⟨key, value⟩ := entry
    rw [forEntries, forEntries]
    refine agree_separated separator isFirst halike fun s' t' halike' hlater ↦ ?_
    refine Agree.bind (hbody key value s' t' halike' hlater) fun _ s'' t'' halike'' hlater' ↦ ?_
    exact ih false halike'' fun key value s₃ t₃ halike₃ hlater₃ ↦
      hbody key value s₃ t₃ halike₃ ((hlater.trans hlater').trans hlater₃)

/-- What instructions for an accessor promise: they agree with a direct writer wherever the accessor
shows its source, given enough slots, and they leave the slots below `n` alone. -/
def Writes (context : RunContext) (a : Accessor) (n free : Nat) (is : List Instruction)
    (direct : Source → Run Unit) : Prop :=
  ∀ (s t : RunState) (source : Source), Alike s t → Shows s a source → a.base < n →
    free ≤ s.slots.length → Agree n s (instructions context is s) (direct source t)

/-- Filling a fresh slot and running instructions that read it agrees with writing the value. -/
theorem Writes.fill {m free : Nat} {is : List Instruction} {direct : Source → Run Unit}
    (h : Writes context (.slot m) (m + 1) free is direct) (hm : n ≤ m) (hfree : m + 1 ≤ free)
    (hsize : free ≤ s.slots.length) (halike : Alike s t) (value : Value) :
    Agree n s ((do setSlot m value; instructions context is) s) (direct (.ofValue value) t) := by
  refine agree_setSlot value hm ?_
  refine Agree.mono (Nat.le_succ_of_le hm) ?_
  refine h _ t _ ⟨halike.out_eq, halike.log_same⟩ (shows_setSlot (by omega) value) ?_ ?_
  · exact Nat.lt_succ_self m
  · rw [List.length_set]
    exact hsize

/-! ## Formatters -/

theorem isPure_apply (hpure : context.registry.IsPure) (ref : FormatterRef) (value : Value) :
    (ref.apply context.registry.formatters context.config value).IsPure := by
  unfold FormatterRef.apply
  split
  · rename_i name
    unfold Formatters.find
    cases hfind : Entries.find? context.registry.formatters name with
    | none => exact Traced.IsPure.pure _
    | some f =>
      have hbody := hpure.formatters name f (Entries.mem_of_find? hfind) value context.config
      exact hbody.bind fun _ ↦ Traced.IsPure.pure _
  all_goals exact Traced.IsPure.pure _

/-- Calling a formatter and filling a slot with what it makes. -/
theorem agree_call (hpure : context.registry.IsPure) (f : FormatterRef) {m : Nat}
    {is : List Instruction} {direct : Value → Run Unit} (h : Shows s a source) (halike : Alike s t)
    (hbody : ∀ made s' t', Alike s' t' → Later n s s' →
      Agree n s' ((do setSlot m made; instructions context is) s') (direct made t')) :
    Agree n s (instruction context (.call f a m is) s)
      ((do direct (← formatted context (← look source) f)) t) := by
  rw [instruction]
  refine agree_read h halike fun value s' t' halike' hlater _ ↦ ?_
  have hsteady : Steady (formatted context value f) :=
    Steady.bind (steady_traced (isPure_apply hpure f value)) fun _ ↦ steady_found _
  refine Agree.bind (Agree.atAccessor a (hsteady n s' t' halike')) ?_
  intro made s'' t'' halike'' hlater'
  exact hbody made s'' t'' halike'' (hlater.trans hlater')

/-- Formatters called one after another, each with a slot of its own. -/
theorem writes_callChain (hpure : context.registry.IsPure)
    {body : Accessor → Nat → List Instruction × Nat} {direct : Source → Run Unit}
    (hle : ∀ a n, n ≤ (body a n).2)
    (hbody : ∀ a n, Writes context a n (body a n).2 (body a n).1 direct)
    (a : Accessor) (n : Nat) (f : FormatterRef) (fs : List FormatterRef) :
    Writes context a n (callChain body a n (f :: fs)).2 (callChain body a n (f :: fs)).1
      (fun source ↦ do
        let value ← look source
        let made ← (f :: fs).foldlM (formatted context) value
        direct (.ofValue made)) := by
  induction fs generalizing a n f with
  | nil =>
    intro s t source halike hshows hbase hsize
    rw [callChain, callChain, instructions_singleton]
    simp only [List.foldlM_cons, List.foldlM_nil, bind_pure]
    refine agree_call hpure f hshows halike fun made s' t' halike' hlater ↦ ?_
    refine (hbody (.slot n) (n + 1)).fill (Nat.le_refl n) (hle _ _) ?_ halike' made
    rw [hlater.length_eq]
    exact hsize
  | cons g fs ih =>
    intro s t source halike hshows hbase hsize
    rw [callChain, instructions_singleton]
    simp only [List.foldlM_cons (a := f), bind_assoc]
    refine agree_call hpure f hshows halike fun made s' t' halike' hlater ↦ ?_
    refine (ih (.slot n) (n + 1) g).fill (Nat.le_refl n) (callChain_le hle _ _ _) ?_ halike' made
    rw [hlater.length_eq]
    exact hsize

/-- The instructions of a property, given those of its node. -/
theorem writes_property (hpure : context.registry.IsPure) (accessor : PropertyAccessor)
    (acceptsNull : Bool) (formatters : List FormatterRef)
    {body : Accessor → Nat → List Instruction × Nat} {direct : Source → Run Unit}
    (hle : ∀ a n, n ≤ (body a n).2)
    (hbody : ∀ a n, Writes context a n (body a n).2 (body a n).1 direct)
    (a : Accessor) (n : Nat) :
    Writes context a n (callChain body a n formatters).2
      (match formatters, accessor with
        | _ :: _, .field _ =>
          if acceptsNull then [nullBranch a (callChain body a n formatters).1]
          else (callChain body a n formatters).1
        | _, _ => (callChain body a n formatters).1)
      (writeFormatted context accessor acceptsNull formatters direct) := by
  cases formatters with
  | nil => exact hbody a n
  | cons f fs =>
    have hchain := writes_callChain hpure hle hbody a n f fs
    cases accessor with
    | computed => exact hchain
    | field name =>
      cases acceptsNull with
      | false => exact hchain
      | true =>
        intro s t source halike hshows hbase hsize
        rw [if_pos rfl, instructions_singleton]
        refine agree_nullBranch hshows halike fun value s' t' halike' hlater hshows' ↦ ?_
        refine hchain s' t' (.ofValue value) halike' hshows' hbase ?_
        rw [hlater.length_eq]
        exact hsize

/-! ## Cases -/

/-- The shape of a value is never the key of a candidate without shape. -/
theorem shapeOf_ne_empty (value : Value) : shapeOf value ≠ "" := by
  have hprefixed : ∀ head rest : String, head ≠ "" → head ++ rest ≠ "" := by
    intro head rest hhead happend
    exact hhead (String.append_eq_empty_iff.mp happend).1
  cases value with
  | object o => exact hprefixed "object:" _ (by decide)
  | enum className case => exact hprefixed "enum:" _ (by decide)
  | null | bool _ | int _ | float _ | string _ | list _ | dict _ | dateTime _ =>
    simp [shapeOf, Value.kindName]

theorem caseKey_shape_eq_iff {ν : Type} (candidate : Candidate ν) {shape : String}
    (h : shape ≠ "") : candidate.caseKey none = shape ↔ candidate.shape = some shape := by
  rw [Candidate.caseKey]
  cases candidate.shape with
  | none => simp [h.symm]
  | some other => simp

theorem caseFor?_of_mem {keys : List String} {key : String} (h : key ∈ keys)
    (selector : Selector) (value : Value) : caseFor? keys selector value key = some key := by
  unfold caseFor?
  rw [if_pos (List.contains_iff_mem.mpr h)]

theorem caseFor?_discriminator {keys : List String} {key : String} (h : key ∉ keys)
    (name : String) (value : Value) : caseFor? keys (.discriminator name) value key = none := by
  unfold caseFor?
  rw [if_neg fun hmem ↦ h (List.contains_iff_mem.mp hmem)]

theorem caseFor?_kind {keys : List String} {key : String} (h : key ∉ keys) (value : Value) :
    caseFor? keys .kind value key =
      match value with
      | .int _ => if keys.contains "float" then some "float" else none
      | _ => none := by
  unfold caseFor?
  rw [if_neg fun hmem ↦ h (List.contains_iff_mem.mp hmem)]
  cases value <;> rfl

/-- The keys of the cases that are compiled. -/
theorem keys_compileCandidates (flags : JsonFlags) (a : Accessor) (n : Nat)
    (discriminator : Option String) (candidates : List (Candidate Node)) :
    (compileCandidates flags a n discriminator candidates).1.map (·.key) =
      candidates.map fun c ↦ c.caseKey discriminator := by
  induction candidates generalizing n with
  | nil => rfl
  | cons c cs ih =>
    obtain ⟨key, shape, node⟩ := c
    rw [compileCandidates, List.map_cons, List.map_cons, ih]
    rfl

theorem writeFirst_cons (isRight : String → Option String → Bool) (c : Candidate Node)
    (cs : List (Candidate Node)) (value : Value) (otherwise : Run Unit) :
    writeFirst context isRight (c :: cs) value otherwise =
      if isRight c.key c.shape then c.node.writeDirect context (.ofValue value)
      else writeFirst context isRight cs value otherwise := rfl

/-- Without a candidate that is right, something else is written. -/
theorem writeFirst_eq_otherwise {isRight : String → Option String → Bool}
    {candidates : List (Candidate Node)} (h : ∀ c ∈ candidates, isRight c.key c.shape = false)
    (value : Value) (otherwise : Run Unit) :
    writeFirst context isRight candidates value otherwise = otherwise := by
  induction candidates with
  | nil => rfl
  | cons c cs ih =>
    rw [writeFirst_cons, h c List.mem_cons_self]
    exact ih fun c hmem ↦ h c (List.mem_cons_of_mem _ hmem)

/-- What the cases of candidates promise: the first case of a key agrees with the first candidate
that has the key. -/
def WritesCases (context : RunContext) (a : Accessor) (n free : Nat)
    (discriminator : Option String) (cases : List (BranchCase Instruction))
    (candidates : List (Candidate Node)) : Prop :=
  ∀ (s t : RunState) (value : Value) (key : String) (isRight : String → Option String → Bool)
    (otherwise : Run Unit), Alike s t → Shows s a (.ofValue value) → a.base < n →
    free ≤ s.slots.length →
    (∀ c ∈ candidates, isRight c.key c.shape = decide (c.caseKey discriminator = key)) →
    key ∈ candidates.map (fun c ↦ c.caseKey discriminator) →
    Agree n s (firstCase context key cases s)
      (writeFirst context isRight candidates value otherwise t)

theorem writesCases_cons {key : String} {shape : Option String} {node : Node} {n m free : Nat}
    {discriminator : Option String} {body : List Instruction}
    {cases : List (BranchCase Instruction)} {candidates : List (Candidate Node)}
    (hnm : n ≤ m) (hm : m ≤ free)
    (hbody : Writes context a n m body (node.writeDirect context))
    (hcases : WritesCases context a m free discriminator cases candidates) :
    WritesCases context a n free discriminator
      (⟨(Candidate.mk key shape ()).caseKey discriminator, body⟩ :: cases)
      (⟨key, shape, node⟩ :: candidates) := by
  intro s t value wanted isRight otherwise halike hshows hbase hsize hright hmem
  have hfirst := hright _ List.mem_cons_self
  have hkey : (Candidate.mk key shape ()).caseKey discriminator =
      (Candidate.mk key shape node).caseKey discriminator := rfl
  rw [firstCase, writeFirst_cons, hfirst, hkey]
  by_cases heq : (Candidate.mk key shape node).caseKey discriminator = wanted
  · rw [if_pos heq, if_pos (decide_eq_true heq)]
    exact hbody s t _ halike hshows hbase (Nat.le_trans hm hsize)
  · rw [if_neg heq, if_neg (by simpa using heq)]
    rw [List.map_cons, List.mem_cons] at hmem
    refine Agree.mono hnm ?_
    refine hcases s t value wanted isRight otherwise halike hshows (Nat.lt_of_lt_of_le hbase hnm)
      hsize (fun c hc ↦ hright c (List.mem_cons_of_mem _ hc)) ?_
    exact hmem.resolve_left fun h ↦ heq h.symm

theorem writeFirst_of_not_mem {discriminator : Option String}
    {candidates : List (Candidate Node)} {key : String} {isRight : String → Option String → Bool}
    (hright : ∀ c ∈ candidates, isRight c.key c.shape = decide (c.caseKey discriminator = key))
    (hmem : key ∉ candidates.map (fun c ↦ c.caseKey discriminator)) (value : Value)
    (otherwise : Run Unit) :
    writeFirst context isRight candidates value otherwise = otherwise := by
  refine writeFirst_eq_otherwise (fun c hc ↦ ?_) value otherwise
  rw [hright c hc, decide_eq_false_iff_not]
  intro heq
  exact hmem (List.mem_map.mpr ⟨c, hc, heq⟩)

theorem steady_discriminated (hpure : context.registry.IsPure) (name : String) (value : Value) :
    Steady (discriminated context name value) := by
  unfold discriminated
  cases hfind : context.registry.discriminators.byName? name with
  | none => exact Steady.throw _
  | some d =>
    have hmem : d ∈ context.registry.discriminators.map (·.2) := List.mem_of_find?_eq_some hfind
    obtain ⟨⟨union, d'⟩, hunion, rfl⟩ := List.mem_map.mp hmem
    refine Steady.bind (steady_traced (hpure.discriminators union d' hunion value)) fun key ↦ ?_
    cases key with
    | some key => exact Steady.pure key
    | none => exact Steady.throw _

/-- A union with a discriminator. -/
theorem agree_discriminator (hpure : context.registry.IsPure) {name : String} {free : Nat}
    {cases : List (BranchCase Instruction)} {candidates : List (Candidate Node)}
    (hkeys : cases.map (·.key) = candidates.map fun c ↦ c.caseKey (some name))
    (hcases : WritesCases context a n free (some name) cases candidates)
    (halike : Alike s t) (hshows : Shows s a source) (hbase : a.base < n)
    (hsize : free ≤ s.slots.length) :
    Agree n s (instruction context (.branch a (.discriminator name) cases) s)
      ((do
        let value ← look source
        let key ← discriminated context name value
        writeFirst context (fun k _ ↦ decide (k = key)) candidates value
          (noMember (candidates.map Candidate.key) key)) t) := by
  rw [instruction]
  refine agree_read hshows halike fun value s' t' halike' hlater hshows' ↦ ?_
  refine Agree.bind (Agree.atAccessor a (steady_discriminated hpure name value n s' t' halike')) ?_
  intro key s'' t'' halike'' hlater'
  have hsize'' : free ≤ s''.slots.length := by
    rw [hlater'.length_eq, hlater.length_eq]
    exact hsize
  have hright : ∀ c ∈ candidates,
      (fun (k : String) (_ : Option String) ↦ decide (k = key)) c.key c.shape =
        decide (c.caseKey (some name) = key) := fun _ _ ↦ rfl
  simp only [hkeys]
  by_cases hmem : key ∈ candidates.map (fun c ↦ c.caseKey (some name))
  · rw [caseFor?_of_mem hmem]
    exact hcases s'' t'' value key _ _ halike'' (hshows'.later hlater' hbase) hbase hsize''
      hright hmem
  · rw [caseFor?_discriminator hmem, writeFirst_of_not_mem hright hmem]
    exact Agree.atAccessor a (Agree.throw halike'' rfl)

/-- A union without a discriminator. An integer may be written as a float. -/
theorem agree_kind {free : Nat} {cases : List (BranchCase Instruction)}
    {candidates : List (Candidate Node)}
    (hkeys : cases.map (·.key) = candidates.map fun c ↦ c.caseKey none)
    (hcases : WritesCases context a n free none cases candidates)
    (halike : Alike s t) (hshows : Shows s a source) (hbase : a.base < n)
    (hsize : free ≤ s.slots.length) :
    Agree n s (instruction context (.branch a .kind cases) s)
      ((do
        let value ← look source
        let shape := shapeOf value
        writeFirst context (fun _ s ↦ decide (s = some shape)) candidates value
          (match value with
            | .int _ =>
              writeFirst context (fun _ s ↦ decide (s = some "float")) candidates value
                (noMember (candidates.map fun c : Candidate Node ↦ c.shape.getD "") shape)
            | _ =>
              noMember (candidates.map fun c : Candidate Node ↦ c.shape.getD "") shape)) t) := by
  rw [instruction]
  refine agree_read hshows halike fun value s' t' halike' hlater hshows' ↦ ?_
  have hsize' : free ≤ s'.slots.length := by
    rw [hlater.length_eq]
    exact hsize
  have hright : ∀ shape : String, shape ≠ "" → ∀ c ∈ candidates,
      (fun (_ : String) (s : Option String) ↦ decide (s = some shape)) c.key c.shape =
        decide (c.caseKey none = shape) := by
    intro shape hshape c _
    exact decide_eq_decide.mpr (caseKey_shape_eq_iff c hshape).symm
  have hnone : ∀ shape : String, Agree n s'
      (atAccessor a (throw (.unexpectedValue
        ("|".intercalate (candidates.map fun c ↦ c.caseKey none)) shape)) s')
      (noMember (candidates.map (·.shape.getD "")) shape t') :=
    fun shape ↦ Agree.atAccessor a (Agree.throw halike' rfl)
  have hshape := shapeOf_ne_empty value
  simp only [hkeys, select, atAccessor_pure, pure_bind]
  by_cases hmem : shapeOf value ∈ candidates.map (fun c ↦ c.caseKey none)
  · rw [caseFor?_of_mem hmem]
    exact hcases s' t' value _ _ _ halike' hshows' hbase hsize' (hright _ hshape) hmem
  · rw [caseFor?_kind hmem, writeFirst_of_not_mem (hright _ hshape) hmem]
    cases value with
    | int i =>
      by_cases hfloat : "float" ∈ candidates.map (fun c ↦ c.caseKey none)
      · simp only [List.contains_iff_mem.mpr hfloat, if_true]
        exact hcases s' t' (.int i) _ _ _ halike' hshows' hbase hsize'
          (hright "float" (by decide)) hfloat
      · simp only [List.contains_iff_mem, if_neg hfloat]
        rw [writeFirst_of_not_mem (hright "float" (by decide)) hfloat]
        exact hnone _
    | null | bool _ | float _ | string _ | list _ | dict _ | object _ | enum _ _ | dateTime _ =>
      exact hnone _

/-! ## Containers -/

theorem writes_list {free : Nat} {is : List Instruction} {direct : Source → Run Unit}
    (hfree : n + 1 ≤ free) (h : Writes context (.slot n) (n + 1) free is direct) :
    Writes context a n free
      [.writeLiteral "[", .loop a .list [n] "," [.block is], .writeLiteral "]"]
      (fun source ↦ do
        write "["
        match ← look source with
        | .list items => forItems "," (fun value ↦ direct (.ofValue value)) true items
        | other => throw (.unexpectedValue "list" other.kindName)
        write "]") := by
  intro s t source halike hshows hbase hsize
  rw [instructions, instruction]
  refine Agree.bind (steady_write _ n s t halike) fun _ s₁ t₁ halike₁ hlater₁ ↦ ?_
  rw [instructions, instructions_singleton, instruction, instruction, bind_assoc]
  refine agree_read (hshows.later hlater₁ hbase) halike₁ fun value s₂ t₂ halike₂ hlater₂ _ ↦ ?_
  have hsize₂ : free ≤ s₂.slots.length := by
    rw [hlater₂.length_eq, hlater₁.length_eq]
    exact hsize
  cases value with
  | list items =>
    refine Agree.bind (agree_forItems "," true items halike₂ ?_)
      fun _ s₃ t₃ halike₃ _ ↦ steady_write _ n s₃ t₃ halike₃
    intro item s₃ t₃ halike₃ hlater₃
    rw [instructions_singleton, instruction]
    refine h.fill (Nat.le_refl n) hfree ?_ halike₃ item
    rw [hlater₃.length_eq]
    exact hsize₂
  | null | bool _ | int _ | float _ | string _ | dict _ | object _ | enum _ _ | dateTime _ =>
    refine Agree.bind (Agree.atAccessor a (Agree.throw halike₂ rfl))
      fun _ s₃ t₃ halike₃ _ ↦ steady_write _ n s₃ t₃ halike₃

theorem write_key (flags : JsonFlags) (key : DictKey) :
    writeKey flags (.ofKey key) = write (Json.quote flags key.text) := by
  cases key <;> rfl

/-- Writing the key in a slot. -/
theorem agree_writeKey {m : Nat} (key : DictKey) (hslot : s.slots[m]? = some (.ofKey key))
    (halike : Alike s t) :
    Agree n s (instruction context (.writeKey (.slot m)) s)
      (write (Json.quote context.config.jsonFlags key.text) t) := by
  have hrun : instruction context (.writeKey (.slot m)) s =
      atAccessor (.slot m) (writeKey context.config.jsonFlags (.ofKey key)) s := by
    have hread : read (.slot m) s = .ok (s.slots[m]?.getD .null) s := rfl
    rw [hslot] at hread
    rw [instruction]
    change EStateM.bind (read (.slot m)) _ s = _
    rw [EStateM.bind, hread]
    rfl
  rw [hrun, write_key]
  exact Agree.atAccessor _ (steady_write _ n s t halike)

theorem writes_dict {free : Nat} {is : List Instruction} {direct : Source → Run Unit}
    (hfree : n + 2 ≤ free) (h : Writes context (.slot (n + 1)) (n + 2) free is direct) :
    Writes context a n free
      [.writeLiteral "\x7b",
        .loop a .dict [n, n + 1] "," [.writeKey (.slot n), .writeLiteral ":", .block is],
        .writeLiteral "\x7d"]
      (fun source ↦ do
        write "\x7b"
        match ← look source with
        | .dict entries =>
          forEntries "," (fun key value ↦ do
            write (Json.quote context.config.jsonFlags key.text)
            write ":"
            direct (.ofValue value)) true entries
        | other => throw (.unexpectedValue "dict" other.kindName)
        write "\x7d") := by
  intro s t source halike hshows hbase hsize
  rw [instructions, instruction]
  refine Agree.bind (steady_write _ n s t halike) fun _ s₁ t₁ halike₁ hlater₁ ↦ ?_
  rw [instructions, instructions_singleton, instruction, instruction, bind_assoc]
  refine agree_read (hshows.later hlater₁ hbase) halike₁ fun value s₂ t₂ halike₂ hlater₂ _ ↦ ?_
  have hsize₂ : free ≤ s₂.slots.length := by
    rw [hlater₂.length_eq, hlater₁.length_eq]
    exact hsize
  cases value with
  | dict entries =>
    refine Agree.bind (agree_forEntries "," true entries halike₂ ?_)
      fun _ s₃ t₃ halike₃ _ ↦ steady_write _ n s₃ t₃ halike₃
    intro key item s₃ t₃ halike₃ hlater₃
    have hsize₃ : free ≤ s₃.slots.length := by
      rw [hlater₃.length_eq]
      exact hsize₂
    refine agree_setSlot _ (Nat.le_refl n) (agree_setSlot _ (Nat.le_succ n) ?_)
    refine Agree.mono (Nat.le_add_right n 2) ?_
    have hitem := shows_setSlot (s := { s₃ with slots := s₃.slots.set n (.ofKey key) })
      (m := n + 1) (by rw [List.length_set]; omega) item
    rw [instructions, instructions, instructions_singleton, instruction, instruction]
    refine Agree.bind (agree_writeKey key ?_ ⟨halike₃.out_eq, halike₃.log_same⟩) ?_
    · change ((s₃.slots.set n (.ofKey key)).set (n + 1) item)[n]? = some (.ofKey key)
      rw [List.getElem?_set_ne (by omega), List.getElem?_set_self (by omega)]
    intro _ s₄ t₄ halike₄ hlater₄
    refine Agree.bind (steady_write _ _ s₄ t₄ halike₄) fun _ s₅ t₅ halike₅ hlater₅ ↦ ?_
    have hlater := hlater₄.trans hlater₅
    refine h s₅ t₅ _ halike₅ (hitem.later hlater (Nat.lt_succ_self _)) (Nat.lt_succ_self _) ?_
    rw [hlater.length_eq, List.length_set, List.length_set]
    exact hsize₃
  | null | bool _ | int _ | float _ | string _ | list _ | object _ | enum _ _ | dateTime _ =>
    refine Agree.bind (Agree.atAccessor a (Agree.throw halike₂ rfl))
      fun _ s₃ t₃ halike₃ _ ↦ steady_write _ n s₃ t₃ halike₃

/-- A property in front of others. -/
theorem writes_member {m free : Nat} {isFirst : Bool} {accessor : PropertyAccessor}
    {body others : List Instruction} {direct rest : Source → Run Unit} (name : String)
    (hnm : n ≤ m) (hm : m ≤ free) (hbody : Writes context (accessor.of a) n m body direct)
    (hothers : Writes context a m free others rest) :
    Writes context a n free
      ((if isFirst then [] else [.writeLiteral ","]) ++
        keyLiteral context.config.jsonFlags name :: .block body :: others)
      (fun object ↦ do
        if !isFirst then write ","
        write (Json.quote context.config.jsonFlags name ++ ":")
        direct (object.property accessor)
        rest object) := by
  intro s t source halike hshows hbase hsize
  have hcomma : ∀ is, instructions context
      ((if isFirst then [] else [.writeLiteral ","]) ++ is) =
      if (!isFirst) = true then write "," >>= fun _ ↦ instructions context is
      else instructions context is := by
    intro is
    cases isFirst
    · exact instructions_append context [.writeLiteral ","] is
    · rfl
  rw [hcomma]
  refine agree_separated "," isFirst halike fun s₁ t₁ halike₁ hlater₁ ↦ ?_
  rw [instructions, instructions, keyLiteral, instruction, instruction]
  refine Agree.bind (steady_write _ n s₁ t₁ halike₁) fun _ s₂ t₂ halike₂ hlater₂ ↦ ?_
  have hlater := hlater₁.trans hlater₂
  have hshows₂ := hshows.later hlater hbase
  refine Agree.bind (hbody s₂ t₂ _ halike₂ (hshows₂.property accessor) ?_ ?_)
    fun _ s₃ t₃ halike₃ hlater₃ ↦ ?_
  · rw [base_propertyAccessor]
    exact hbase
  · rw [hlater.length_eq]
    exact Nat.le_trans hm hsize
  · refine Agree.mono hnm (hothers s₃ t₃ source halike₃ (hshows₂.later hlater₃ hbase) ?_ ?_)
    · exact Nat.lt_of_lt_of_le hbase hnm
    · rw [hlater₃.length_eq, hlater.length_eq]
      exact hsize

/-! ## Nodes -/

theorem writes_scalar (a : Accessor) (n : Nat) (kind : ScalarKind) :
    Writes context a n n [.writeValue a (.scalar kind)]
      (fun source ↦ do writeScalar context.config.jsonFlags kind (← look source)) := by
  intro s t source halike hshows _ _
  rw [instructions_singleton, instruction]
  refine agree_read hshows halike fun value s' t' halike' _ _ ↦ ?_
  exact Agree.atAccessor a (steady_writeScalar _ kind value n s' t' halike')

/-! One induction on the node, together with its properties and its candidates. -/

mutual

/-- The instructions of a node agree with writing it directly. -/
theorem writes_node (hpure : context.registry.IsPure) (a : Accessor) (n : Nat) : ∀ node : Node,
    Writes context a n (node.compile context.config.jsonFlags a n).2
      (node.compile context.config.jsonFlags a n).1 (node.writeDirect context)
  | .scalar kind => writes_scalar a n kind
  | .null => by
    intro s t source halike _ _ _
    rw [Node.compile, Node.writeDirect, instructions_singleton, instruction]
    exact steady_write _ n s t halike
  | .mixed => by
    intro s t source halike hshows _ _
    rw [Node.compile, Node.writeDirect, instructions_singleton, instruction]
    refine agree_read hshows halike fun value s' t' halike' _ _ ↦ ?_
    exact Agree.atAccessor a (steady_writeValue _ _ value n s' t' halike')
  | .nullable inner => by
    intro s t source halike hshows hbase hsize
    have hinner := writes_node hpure a n inner
    rw [Node.compile, Node.writeDirect, instructions_singleton]
    refine agree_nullBranch hshows halike fun value s' t' halike' hlater hshows' ↦ ?_
    refine hinner s' t' _ halike' hshows' hbase ?_
    rw [hlater.length_eq]
    exact hsize
  | .list item => by
    rw [Node.compile, Node.writeDirect]
    exact writes_list (Node.compile_le _ _ _ item) (writes_node hpure (.slot n) (n + 1) item)
  | .dict _ item => by
    rw [Node.compile, Node.writeDirect]
    exact writes_dict (Node.compile_le _ _ _ item) (writes_node hpure (.slot (n + 1)) (n + 2) item)
  | .object _ properties => by
    intro s t source halike hshows hbase hsize
    have hproperties := writes_properties hpure a n true properties
    rw [Node.compile, Node.writeDirect, instructions, instruction]
    refine Agree.bind (steady_write _ n s t halike) fun _ s₁ t₁ halike₁ hlater₁ ↦ ?_
    rw [instructions_append, instructions_singleton, instruction]
    refine Agree.bind (hproperties s₁ t₁ source halike₁ (hshows.later hlater₁ hbase) hbase ?_)
      fun _ s₂ t₂ halike₂ _ ↦ steady_write _ n s₂ t₂ halike₂
    rw [hlater₁.length_eq]
    exact hsize
  | .union candidates (some name) => by
    intro s t source halike hshows hbase hsize
    rw [Node.compile, Node.writeDirect, instructions_singleton]
    exact agree_discriminator hpure (keys_compileCandidates _ _ _ _ _)
      (writes_candidates hpure a n (some name) candidates) halike hshows hbase hsize
  | .union candidates none => by
    intro s t source halike hshows hbase hsize
    rw [Node.compile, Node.writeDirect, instructions_singleton]
    exact agree_kind (keys_compileCandidates _ _ _ _ _)
      (writes_candidates hpure a n none candidates) halike hshows hbase hsize
  | .enum _ backing => by
    intro s t source halike hshows _ _
    rw [Node.compile, Node.writeDirect, instructions_singleton, instruction]
    refine agree_read hshows halike fun value s' t' halike' _ _ ↦ ?_
    exact Agree.atAccessor a (steady_writeValue _ _ value n s' t' halike')
  | .dateTime pattern => by
    intro s t source halike hshows _ hsize
    rw [Node.compile, Node.writeDirect, instructions_singleton]
    refine agree_call hpure _ hshows halike fun made s' t' halike' hlater ↦ ?_
    refine (writes_scalar (.slot n) (n + 1) .string).fill (Nat.le_refl n) (Nat.le_refl _) ?_ halike'
      made
    rw [hlater.length_eq]
    exact hsize
termination_by structural node => node

/-- The instructions of properties agree with writing them directly. -/
theorem writes_properties (hpure : context.registry.IsPure) (a : Accessor) (n : Nat)
    (isFirst : Bool) : ∀ properties : List (PropertyNode Node),
    Writes context a n (compileProperties context.config.jsonFlags a n isFirst properties).2
      (compileProperties context.config.jsonFlags a n isFirst properties).1
      (writeProperties context isFirst properties)
  | [] => fun _ _ _ halike _ _ _ ↦ Agree.pure halike ()
  | ⟨_, encodedName, accessor, formatters, node⟩ :: properties => by
    have hle := fun a n ↦ node.compile_le context.config.jsonFlags a n
    rw [compileProperties, writeProperties]
    exact writes_member encodedName (callChain_le hle _ _ formatters)
      (compileProperties_le _ _ _ false properties)
      (writes_property hpure accessor node.acceptsNull formatters hle
        (fun a n ↦ writes_node hpure a n node) (accessor.of a) n)
      (writes_properties hpure a _ false properties)
termination_by structural properties => properties

/-- The cases of candidates agree with writing the candidate that is right. -/
theorem writes_candidates (hpure : context.registry.IsPure) (a : Accessor) (n : Nat)
    (discriminator : Option String) : ∀ candidates : List (Candidate Node),
    WritesCases context a n
      (compileCandidates context.config.jsonFlags a n discriminator candidates).2 discriminator
      (compileCandidates context.config.jsonFlags a n discriminator candidates).1 candidates
  | [] => fun _ _ _ _ _ _ _ _ _ _ _ hmem ↦ absurd hmem List.not_mem_nil
  | ⟨_, _, node⟩ :: candidates => by
    rw [compileCandidates]
    exact writesCases_cons (Node.compile_le _ _ _ node) (compileCandidates_le _ _ _ _ candidates)
      (writes_node hpure a n node) (writes_candidates hpure a _ discriminator candidates)
termination_by structural candidates => candidates

end

end Run

/-! ## Encoders -/

open Run

/-- What became of a run, by its result. -/
def Written.of : EStateM.Result Failure RunState Unit → Written
  | .ok () state => ⟨state.out, none, state.log⟩
  | .error failure state => ⟨state.out, some failure, state.log⟩

/-- Runs that agree have written the same. -/
theorem Agree.written {n : Nat} {s : RunState} {x y : EStateM.Result Failure RunState Unit}
    (h : Agree n s x y) :
    (Written.of x).out = (Written.of y).out ∧
      (Written.of x).failure.map Failure.unplaced = (Written.of y).failure.map Failure.unplaced ∧
      SameAccesses (Written.of x).log (Written.of y).log := by
  cases x with
  | ok _ s' =>
    cases y with
    | ok _ t' => exact ⟨h.2.1.out_eq, rfl, h.2.1.log_same⟩
    | error f t' => exact h.elim
  | error e s' =>
    cases y with
    | ok _ t' => exact h.elim
    | error f t' => exact ⟨h.2.out_eq, congrArg some h.1, h.2.log_same⟩

/-- An encoder and the direct writer write the same bytes, up to a failure if there is one, fail for
the same reason or not at all, and read the same fields. -/
theorem compile_run_agrees {registry : Registry} (hpure : registry.IsPure) (root : Node)
    (config : Config) (value : Value) :
    let compiled := (compile root config.jsonFlags).run registry config value
    let direct := root.run registry config value
    compiled.out = direct.out ∧
      compiled.failure.map Failure.unplaced = direct.failure.map Failure.unplaced ∧
      SameAccesses compiled.log direct.log := by
  intro compiled direct
  let slots := value :: List.replicate ((root.compile config.jsonFlags .root 1).2 - 1) Value.null
  have hsize : (root.compile config.jsonFlags .root 1).2 ≤ slots.length := by
    have hle : 1 ≤ (root.compile config.jsonFlags .root 1).2 := Node.compile_le _ _ _ root
    rw [List.length_cons, List.length_replicate]
    omega
  have hagree := @writes_node ⟨registry, config⟩ hpure .root 1 root ⟨"", [], slots⟩
    ⟨"", [], []⟩ (.ofValue value) ⟨rfl, fun _ ↦ Iff.rfl⟩ ⟨rfl, fun _ ↦ Iff.rfl⟩ Nat.one_pos hsize
  rw [← instructions_optimize] at hagree
  change Agree 1 _ (instructions ⟨registry, config⟩ (compile root config.jsonFlags).instructions
    ⟨"", [], slots⟩) _ at hagree
  have hcompiled : compiled = Written.of (instructions ⟨registry, config⟩
    (compile root config.jsonFlags).instructions ⟨"", [], slots⟩) := rfl
  have hdirect : direct = Written.of
    (root.writeDirect ⟨registry, config⟩ (.ofValue value) ⟨"", [], []⟩) := rfl
  rw [hcompiled, hdirect]
  exact hagree.written

/-- A formatter that makes the label of an object from its name, and a discriminator that looks at
the class. -/
def labelRegistry : Registry where
  formatters := [("label",
    { name := "label"
      signature := ⟨.static, [.value .mixed], .value (.scalar .string)⟩
      body := fun value _ ↦ do
        match value with
        | .object o =>
          match ← o.read "name" with
          | .ok (some (.string name)) => return .ok (.string ("<" ++ name ++ ">"))
          | _ => return .error "no name"
        | _ => return .error "no object" })]
  discriminators := [("Tag|int",
    { name := "byClass"
      select := fun value ↦ return match value with
        | .object o => some o.className
        | .int _ => some "int"
        | _ => none })]

theorem isPure_labelRegistry : labelRegistry.IsPure where
  formatters name f hmem value _ := by
    obtain ⟨rfl, rfl⟩ := Prod.mk.inj (List.mem_singleton.mp hmem)
    cases value with
    | object o =>
      refine (Traced.IsPure.read o "name").bind fun outcome ↦ ?_
      split <;> exact Traced.IsPure.pure _
    | null | bool _ | int _ | float _ | string _ | list _ | dict _ | enum _ _ | dateTime _ =>
      exact Traced.IsPure.pure _
  discriminators union d hmem value := by
    obtain ⟨rfl, rfl⟩ := Prod.mk.inj (List.mem_singleton.mp hmem)
    exact Traced.IsPure.pure _

/-- A list of tags and integers; a tag is written with its label and with a note that may be
missing. -/
def labelNode : Node :=
  .list (.union
    [⟨"Tag", some "object:Tag", .object "Tag"
      [⟨"label", "label", .computed, [.named "label"], .scalar .string⟩,
        ⟨"note", "note", .field "note", [], .nullable (.scalar .string)⟩]⟩,
      ⟨"int", some "int", .scalar .int⟩]
    (some "byClass"))

/-- Two tags, one of which fails to find its note. -/
def labelValue : Value :=
  .list [.int 7,
    .object ⟨.made 0, "Tag", .ready [("name", .pending {} (.ok (.string "a")))]⟩,
    .object ⟨.made 1, "Tag", .ready [("name", .initialized (.string "b")),
      ("note", .pending {} (.error (.unexpectedValue "note" "nothing")))]⟩]

/-- What was written before the failure of a note, and the failure, are those of the direct
writer. -/
theorem compile_run_agrees_labels :
    labelRegistry.IsPure ∧
      (let compiled := (compile labelNode .none).run labelRegistry {} labelValue
      let direct := labelNode.run labelRegistry {} labelValue
      compiled.out = direct.out ∧
        compiled.failure.map Failure.unplaced = direct.failure.map Failure.unplaced ∧
        SameAccesses compiled.log direct.log) ∧
      (labelNode.run labelRegistry {} labelValue).out =
        "[7,\x7b\"label\":\"<a>\",\"note\":null\x7d,\x7b\"label\":\"<b>\",\"note\":" :=
  ⟨isPure_labelRegistry, compile_run_agrees isPure_labelRegistry labelNode {} labelValue, by rfl⟩

end TypedJson
