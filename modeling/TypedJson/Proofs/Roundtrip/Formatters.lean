import TypedJson.Proofs.Codec.Compile
import TypedJson.Proofs.Decode.Runs
import TypedJson.Proofs.Roundtrip.Nodes

/-!
# Formatters on the way out and back

An encoder calls the formatters of a property one inside the other, the first one first and each
with a slot of its own. A decoder applies its formatters after it has read the text, the last one
first. So each formatter of the decoder meets what its partner has made. If it undoes that, a field
is read back from what is written for it: `PropertyNode.recovers_of_undone`.

`null` takes another way. A branch keeps it from the formatters of the encoder, and the decoder
returns it before it comes to its own. The two ways do not cross as long as no formatter makes
`null` of something else.

Nothing is assumed of formatters beyond the values that reach them; in particular they may depend
on what has been read before. Which values count as the same is left open, since an object is made
anew when it is read. All that matters is that `null` is told from other values.
-/

namespace TypedJson

/-! ## Properties in place -/

namespace PropertyNode

/-- The formatters of a property, called on what the property is read from, and what is written of
the value that leaves the last one. -/
def calls (flags : JsonFlags) (p : PropertyNode Node) (source : Accessor) (next : Nat) :
    List Instruction × Nat :=
  callChain (fun a n ↦ p.node.compile flags a n) source next p.formatters

/-- The instructions that write a property of an object, and the next free slot. -/
def compile (flags : JsonFlags) (p : PropertyNode Node) (object : Accessor) (next : Nat) :
    List Instruction × Nat :=
  let source := p.accessor.of object
  let (calls, free) := p.calls flags source next
  let body :=
    match p.formatters, p.accessor with
    | _ :: _, .field _ => if p.node.acceptsNull then [nullBranch source calls] else calls
    | _, _ => calls
  (body, free)

variable {flags : JsonFlags} {p : PropertyNode Node} {name : String}

/-- A property is written behind its name. -/
theorem compileProperties_singleton (isFirst : Bool) (object : Accessor) (next : Nat) :
    compileProperties flags object next isFirst [p] =
      ((if isFirst then [] else [.writeLiteral ","]) ++
        [keyLiteral flags p.encodedName, .block (p.compile flags object next).1],
        (p.compile flags object next).2) := by
  obtain ⟨_, _, _, _, _⟩ := p
  rfl

/-- A field with formatters is looked at first if it may be `null`. -/
theorem compile_of_field (hp : p.accessor = .field name) (a : Accessor) (n : Nat) :
    p.compile flags a n =
      (if p.formatters ≠ [] ∧ p.node.acceptsNull = true then
          [nullBranch (.property a name) (p.calls flags (.property a name) n).1]
        else (p.calls flags (.property a name) n).1,
        (p.calls flags (.property a name) n).2) := by
  obtain ⟨_, _, _, formatters, node⟩ := p
  obtain rfl : _ = PropertyAccessor.field name := hp
  cases formatters with
  | nil => rfl
  | cons f fs =>
    by_cases haccepts : node.acceptsNull = true
    · rw [if_pos ⟨List.cons_ne_nil f fs, haccepts⟩]
      exact Prod.ext (if_pos haccepts) rfl
    · rw [if_neg fun h ↦ haccepts h.2]
      exact Prod.ext (if_neg haccepts) rfl

end PropertyNode

namespace Run

variable {α : Type} {context : RunContext} {s s' : RunState} {a : Accessor} {v : Value}
  {text : String}

/-! ## Instructions that write a value -/

theorem atAccessor_of_ok {x : Run α} {made : α} (h : x s = .ok made s') :
    atAccessor a x s = .ok made s' := by
  change EStateM.tryCatch x _ s = _
  rw [EStateM.tryCatch, h]

theorem read_of_find (h : (a.find s.slots).outcome = .ok v) :
    read a s = .ok v (logged (a.find s.slots) s) := by
  rcases read_apply a s with ⟨value, hvalue, hread⟩ | ⟨_, _, herror, _⟩
  · rw [h] at hvalue
    rw [hread, Except.ok.inj hvalue]
  · rw [h] at herror
    cases herror

/-- From the state, the step succeeds and adds the text. -/
def AddsFrom (s : RunState) (x : Run Unit) (text : String) : Prop :=
  ∃ s', x s = .ok () s' ∧ s'.out = s.out ++ text

/-- What is compiled for an accessor and a next free slot writes the value as a text of some kind,
wherever the accessor names the value and whatever is in the other slots. -/
def Encodes (context : RunContext) (compiled : Accessor → Nat → List Instruction × Nat)
    (v : Value) (P : String → Prop) : Prop :=
  ∀ (a : Accessor) (n : Nat) (s : RunState), (a.find s.slots).outcome = .ok v → a.base < n →
    (compiled a n).2 ≤ s.slots.length →
      ∃ text, AddsFrom s (instructions context (compiled a n).1) text ∧ P text

theorem Encodes.mono {compiled : Accessor → Nat → List Instruction × Nat} {P Q : String → Prop}
    (h : Encodes context compiled v P) (hPQ : ∀ text, P text → Q text) :
    Encodes context compiled v Q := by
  intro a n s hfind hbase hsize
  obtain ⟨text, hadds, hP⟩ := h a n s hfind hbase hsize
  exact ⟨text, hadds, hPQ text hP⟩

theorem addsFrom_write (s : RunState) (text : String) : AddsFrom s (write text) text :=
  ⟨{ s with out := s.out ++ text }, rfl, rfl⟩

theorem AddsFrom.write_bind {f : Unit → Run Unit} {head : String}
    (hf : AddsFrom { s with out := s.out ++ head } (f ()) text) :
    AddsFrom s (write head >>= f) (head ++ text) := by
  obtain ⟨s', hrun, hout⟩ := hf
  refine ⟨s', hrun, ?_⟩
  rw [hout, String.append_assoc]

theorem AddsFrom.atAccessor {x : Run Unit} (h : AddsFrom s x text) :
    AddsFrom s (atAccessor a x) text := by
  obtain ⟨s', hrun, hout⟩ := h
  exact ⟨s', atAccessor_of_ok hrun, hout⟩

/-- Going on with the value that an accessor names. -/
theorem AddsFrom.read_bind {f : Value → Run Unit} (h : (a.find s.slots).outcome = .ok v)
    (hf : AddsFrom (logged (a.find s.slots) s) (f v) text) : AddsFrom s (read a >>= f) text := by
  obtain ⟨s', hrun, hout⟩ := hf
  exact ⟨s', (bind_of_ok (read_of_find h)).trans hrun, hout⟩

theorem addsFrom_nullBranch {is : List Instruction} (h : (a.find s.slots).outcome = .ok v)
    (hnull : v.isNull = true → text = "null")
    (hvalue : v.isNull = false →
      AddsFrom (logged (a.find s.slots) s) (instructions context is) text) :
    AddsFrom s (instructions context [nullBranch a is]) text := by
  rw [instructions_singleton, instruction_nullBranch]
  refine .read_bind h ?_
  cases hv : v.isNull with
  | true =>
    rw [hnull hv]
    exact addsFrom_write _ "null"
  | false => exact hvalue hv

/-- Nodes that accept `null` write it as `null`. -/
theorem encodes_null (flags : JsonFlags) {node : Node} (h : node.acceptsNull = true) :
    Encodes context (node.compile flags) .null (· = "null") := by
  intro a n s hfind _ _
  refine ⟨"null", ?_, rfl⟩
  beta_reduce
  cases node with
  | null =>
    rw [Node.compile, instructions_singleton, instruction]
    exact addsFrom_write s "null"
  | mixed =>
    rw [Node.compile, instructions_singleton, instruction]
    exact .read_bind hfind (addsFrom_write _ "null").atAccessor
  | nullable inner =>
    rw [Node.compile]
    refine addsFrom_nullBranch hfind (fun _ ↦ rfl) fun hv ↦ ?_
    cases hv
  | _ => cases h

/-- What a member of an object looks like: a comma unless it is the first one, the name, and the
text of the value. -/
def memberText (flags : JsonFlags) (isFirst : Bool) (name value : String) : String :=
  (if isFirst then "" else ",") ++ (Json.quote flags name ++ ":" ++ value)

/-- A property that writes a value writes a member with that value. -/
theorem Encodes.member {flags : JsonFlags} {p : PropertyNode Node} {P : String → Prop}
    (h : Encodes context (p.compile flags) v P) (isFirst : Bool) :
    Encodes context (fun a n ↦ compileProperties flags a n isFirst [p]) v
      fun text ↦ ∃ value, text = memberText flags isFirst p.encodedName value ∧ P value := by
  intro a n s hfind hbase hsize
  let comma := if isFirst then "" else ","
  let key := Json.quote flags p.encodedName ++ ":"
  beta_reduce at hsize ⊢
  rw [PropertyNode.compileProperties_singleton] at hsize ⊢
  obtain ⟨value, hadds, hP⟩ := h a n { s with out := s.out ++ comma ++ key } hfind hbase hsize
  refine ⟨comma ++ (key ++ value), ?_, value, rfl, hP⟩
  have hmember : AddsFrom { s with out := s.out ++ comma }
      (instructions context [keyLiteral flags p.encodedName, .block (p.compile flags a n).1])
      (key ++ value) := by
    rw [instructions, keyLiteral, instruction, instructions_singleton, instruction]
    exact .write_bind hadds
  rw [instructions_append]
  cases isFirst with
  | true =>
    have hempty : s.out ++ comma = s.out := String.append_empty
    rw [hempty] at hmember
    have htext : comma ++ (key ++ value) = key ++ value := String.empty_append
    rw [htext]
    exact hmember
  | false => exact .write_bind hmember

end Run

/-! ## Steps that read a value back -/

namespace Decode

variable {context : DecodeContext} {P Q : Value → Prop} {text : String}

/-- From every window on the text the step reads a value of some kind, whatever else is decoded. -/
def Recovers (read : Window → Place → Decode Value) (P : Value → Prop) (text : String) : Prop :=
  ∀ w place state, w.bytes = Utf8.encode text →
    ∃ v state', read w place state = .ok v state' ∧ P v

theorem Recovers.mono {read : Window → Place → Decode Value} (h : Recovers read P text)
    (hPQ : ∀ v, P v → Q v) : Recovers read Q text := by
  intro w place state hw
  obtain ⟨v, state', hrun, hv⟩ := h w place state hw
  exact ⟨v, state', hrun, hPQ v hv⟩

/-- What is read from the text of a tree, wherever that stands. -/
theorem recovers_of_reads {plan : Plan} {v : Value}
    (h : ∀ offset, ∃ tree : Parsed, tree.Fills offset (Utf8.encode text) ∧ Reads plan tree v) :
    Recovers (value plan) (·.SameAs v) text := by
  intro w place state hw
  obtain ⟨tree, hfills, hreads⟩ := h w.offset
  have hin : tree.In w := by
    rw [Parsed.In, hw]
    exact hfills
  obtain ⟨a, cost, hrun, hsame⟩ := hreads.value hin place state
  exact ⟨a, _, hrun, hsame⟩

end Decode

/-! ## Chains -/

/-- Of everything that is the same as `w`, the formatter makes something that is the same as `v`, in
the state in which the formatter leaves it. -/
def FormatterRef.Restores (ref : FormatterRef) (context : DecodeContext)
    (same : Value → Value → Prop) (w v : Value) : Prop :=
  ∀ w', same w' w → ∃ made log,
    ref.apply context.registry.formatters context.config w' [] = (.ok made, log) ∧
      same (made.settle log).1 v

/-- After what has been read before, the formatters `es` make one value after another, from the
first one to the last one, and none of them makes `null` of something else or the other way round.
Each is undone by its partner among the formatters `ds`. -/
inductive Undone (writing : RunContext) (reading : DecodeContext) (same : Value → Value → Prop) :
    List FormatterRef → List FormatterRef → List Access → Value → Value → Prop
  | nil (log : List Access) (v : Value) : Undone writing reading same [] [] log v v
  | cons {e d : FormatterRef} {es ds : List FormatterRef} {log log' : List Access} {v w y : Value}
    (hmakes : e.apply writing.registry.formatters writing.config v log = (.ok w, log'))
    (hnull : w.isNull = v.isNull) (hrestores : d.Restores reading same w v)
    (hrest : Undone writing reading same es ds log' w y) :
    Undone writing reading same (e :: es) (d :: ds) log v y

/-- A call runs its body after its slot has been filled with what the formatter makes. -/
theorem Run.AddsFrom.call {context : RunContext} {s : RunState} {a : Accessor} {v w : Value}
    {text : String} {ref : FormatterRef} {log : List Access} {n : Nat} {is : List Instruction}
    (hfind : (a.find s.slots).outcome = .ok v)
    (hmakes : ref.apply context.registry.formatters context.config v
      (logged (a.find s.slots) s).log = (.ok w, log))
    (hbody : AddsFrom { s with log, slots := s.slots.set n w } (instructions context is) text) :
    AddsFrom s (instruction context (.call ref a n is)) text := by
  rw [instruction]
  refine .read_bind hfind ?_
  obtain ⟨s', hrun, hout⟩ := hbody
  have hmade : (do found (← traced (ref.apply context.registry.formatters context.config v)))
      (logged (a.find s.slots) s) = .ok w { logged (a.find s.slots) s with log } := by
    change found (ref.apply _ _ v (logged (a.find s.slots) s).log).1
      { logged (a.find s.slots) s with
        log := (ref.apply _ _ v (logged (a.find s.slots) s).log).2 } = _
    rw [hmakes]
    rfl
  exact ⟨s', (bind_of_ok (atAccessor_of_ok hmade)).trans hrun, hout⟩

section

variable {writing : RunContext} {reading : DecodeContext} {same : Value → Value → Prop}
  {es ds : List FormatterRef} {log : List Access} {v w x y : Value}

theorem Undone.isNull_eq (h : Undone writing reading same es ds log v y) :
    y.isNull = v.isNull := by
  induction h with
  | nil log v => rfl
  | cons _ hnull _ _ ih => rw [ih, hnull]

/-- Formatters called one after another write what the instructions inside write for the value that
leaves the last one. -/
theorem Undone.exists_addsFrom {body : Accessor → Nat → List Instruction × Nat}
    (h : Undone writing reading same es ds log v y) {P : String → Prop}
    (hle : ∀ a n, n ≤ (body a n).2) (hbody : Run.Encodes writing body y P) {a : Accessor} {n : Nat}
    {s : RunState} (hfind : (a.find s.slots).outcome = .ok v) (hbase : a.base < n)
    (hsize : (callChain body a n es).2 ≤ s.slots.length)
    (hlog : (Run.logged (a.find s.slots) s).log = log) :
    ∃ text, Run.AddsFrom s (Run.instructions writing (callChain body a n es).1) text ∧ P text := by
  -- by the calls from the outermost one inwards; each is compiled for a slot that is still free
  induction h generalizing a n s with
  | nil log v => exact hbody a n s hfind hbase hsize
  | @cons e d es ds log log' v w y hmakes _ _ _ ih =>
    rw [callChain] at hsize ⊢
    rw [Run.instructions_singleton]
    have hfree : n + 1 ≤ s.slots.length := (callChain_le hle _ _ es).trans hsize
    -- the slot of this call is the argument of the next one
    let s' : RunState := { s with log := log', slots := s.slots.set n w }
    have hslot := (Run.shows_setSlot (s := { s with log := log' }) hfree w).outcome_eq
    obtain ⟨text, hadds, htext⟩ := @ih hbody (.slot n) (n + 1) s' hslot (Nat.lt_succ_self n)
      (by rwa [List.length_set]) rfl
    exact ⟨text, .call hfind (hlog ▸ hmakes) hadds, htext⟩

theorem FormatterRef.Restores.gives {ref : FormatterRef} (h : ref.Restores reading same w v)
    {w' : Value} (hw : same w' w) : (Decode.format reading w' ref).Gives (same · v) := by
  obtain ⟨made, log, happly, hmade⟩ := h w' hw
  rw [Decode.format, happly]
  exact .pay_bind (.pure hmade)

/-- The partners, the last one first, lead from the last value back to the first one. -/
theorem Undone.gives_foldlM (h : Undone writing reading same es ds log v y) {y' : Value}
    (hy : same y' y) : (ds.reverse.foldlM (Decode.format reading) y').Gives (same · v) := by
  induction h with
  | nil log v => exact .pure hy
  | cons _ _ hrestores _ ih =>
    -- the partner of the first formatter is the last one to be applied
    rw [List.reverse_cons, List.foldlM_append]
    refine (ih hy).bind fun w' hw ↦ ?_
    rw [List.foldlM_cons]
    refine (hrestores.gives hw).bind fun v' hv ↦ ?_
    exact .pure hv

/-! ## Fields -/

theorem Decode.recovers_field {q : PropertyNode Plan} {text : String}
    (hsame : ∀ v w, same v w → v.isNull = w.isNull)
    (h : Undone writing reading same es q.formatters log x y) (hx : x.isNull = false)
    (hy : Recovers (value q.node) (same · y) text) :
    Recovers (field reading q) (same · x) text := by
  intro w place state hw
  obtain ⟨y', state', hrun, hy'⟩ := hy w place state hw
  have hnull : y'.isNull = false := by rw [hsame y' y hy', h.isNull_eq, hx]
  have hgives : (locate place (q.formatters.reverse.foldlM (format reading) y')).Gives (same · x) :=
    (h.gives_foldlM hy').locate
  obtain ⟨x', cost, hfold, hx'⟩ := hgives state'
  refine ⟨x', { state' with cost }, (bind_of_ok hrun).trans ?_, hx'⟩
  rw [hnull, if_neg Bool.false_ne_true]
  exact hfold

theorem Decode.recovers_field_null {q : PropertyNode Plan} {text : String}
    (h : Recovers (value q.node) (· = .null) text) :
    Recovers (field reading q) (· = .null) text := by
  intro w place state hw
  obtain ⟨_, state', hrun, rfl⟩ := h w place state hw
  exact ⟨.null, state', bind_of_ok hrun, rfl⟩

/-- A node that accepts `null` reads it. -/
theorem Node.recovers_null {d : Node} (hd : d.acceptsNull = true) :
    Decode.Recovers (Decode.value (d.plan reading)) (· = .null) "null" := by
  refine (Decode.recovers_of_reads fun offset ↦ ?_).mono fun v hv ↦ hv.eq_null
  have hleaf : Parsed.IsLeafOf .null "null" (.scalar offset (Utf8.encode "null") .null) :=
    ⟨rfl, rfl, rfl⟩
  have htext : Parsed.IsTextOf reading d .null _ := hleaf.isTextOf_null hd
  exact ⟨_, (Parsed.Stands.scalar .null).isIn, htext.reads⟩

theorem Value.eq_null_of_isNull (h : v.isNull = true) : v = .null := by
  cases v with
  | null => rfl
  | _ => cases h

/-- What is compiled for a property writes the field: `null` by the branch or by the node, and
everything else through the formatters. -/
theorem Run.encodes_property {flags : JsonFlags} {p : PropertyNode Node} {name : String}
    (hp : p.accessor = .field name) {o : Object Value}
    (hx : (o.get name).result.map (·.getD .null) = .ok x) {P : String → Prop}
    (hnull : x.isNull = true → p.node.acceptsNull = true ∧ P "null")
    (hvalue : x.isNull = false → Encodes writing (p.calls flags) x P) :
    Encodes writing (p.compile flags) (.object o) P := by
  intro a n s hfind hbase hsize
  let source := Accessor.property a name
  have hsource : (source.find s.slots).outcome = .ok x := by
    rw [Accessor.find, Source.field, hfind]
    exact hx
  rw [p.compile_of_field hp] at hsize ⊢
  cases hisNull : x.isNull with
  | true =>
    obtain rfl := Value.eq_null_of_isNull hisNull
    obtain ⟨haccepts, hP⟩ := hnull rfl
    refine ⟨"null", ?_, hP⟩
    by_cases hformatters : p.formatters = []
    · -- without formatters it is up to the node
      have hcalls : p.calls flags source n = p.node.compile flags source n := by
        rw [PropertyNode.calls, hformatters, callChain]
      rw [if_neg fun h ↦ h.1 hformatters, hcalls]
      rw [hcalls] at hsize
      obtain ⟨_, hadds, rfl⟩ := encodes_null flags haccepts source n s hsource hbase hsize
      exact hadds
    · rw [if_pos ⟨hformatters, haccepts⟩]
      refine addsFrom_nullBranch hsource (fun _ ↦ rfl) fun hv ↦ ?_
      cases hv
  | false =>
    by_cases hbranch : p.formatters ≠ [] ∧ p.node.acceptsNull = true
    · -- the branch has read the field once when the first formatter reads it again
      obtain ⟨text, hadds, hP⟩ :=
        hvalue hisNull source n (logged (source.find s.slots) s) hsource hbase hsize
      rw [if_pos hbranch]
      refine ⟨text, addsFrom_nullBranch hsource (fun hv ↦ ?_) (fun _ ↦ hadds), hP⟩
      rw [hisNull] at hv
      cases hv
    · rw [if_neg hbranch]
      exact hvalue hisNull source n s hsource hbase hsize

/-- A field of an object is read back from its member if each formatter of the decoder undoes its
partner, and the nodes read back what leaves the last formatter of the encoder. A field that is
`null` is read back if both nodes accept `null`. -/
theorem PropertyNode.recovers_of_undone (hsame : ∀ v w, same v w → v.isNull = w.isNull)
    (hrefl : same .null .null) {flags : JsonFlags} {p q : PropertyNode Node} {name : String}
    (hp : p.accessor = .field name) {o : Object Value}
    (hx : (o.get name).result.map (·.getD .null) = .ok x)
    (hnull : x.isNull = true → p.node.acceptsNull = true ∧ q.node.acceptsNull = true)
    (hchain : x.isNull = false → ∀ log, ∃ y,
      Undone writing reading same p.formatters q.formatters log x y ∧
        Run.Encodes writing (p.node.compile flags) y
          (Decode.Recovers (Decode.value (q.node.plan reading)) (same · y)))
    (isFirst : Bool) :
    Run.Encodes writing (fun a n ↦ compileProperties flags a n isFirst [p]) (.object o)
      fun text ↦ ∃ value, text = Run.memberText flags isFirst p.encodedName value ∧
        Decode.Recovers (Decode.field reading (q.plan reading)) (same · x) value := by
  refine (Run.encodes_property hp hx (fun hisNull ↦ ?_) fun hisNull ↦ ?_).member isFirst
  · -- `null` is written and read as it is, and no formatter is asked
    obtain ⟨hp, hq⟩ := hnull hisNull
    obtain rfl := Value.eq_null_of_isNull hisNull
    refine ⟨hp, (Decode.recovers_field_null (Node.recovers_null hq)).mono ?_⟩
    rintro _ rfl
    exact hrefl
  · -- the values in between depend on what the run has read up to here
    intro a n s hfind hbase hsize
    obtain ⟨y, hy, hnode⟩ := hchain hisNull (Run.logged (a.find s.slots) s).log
    obtain ⟨text, hadds, htext⟩ := hy.exists_addsFrom (fun a n ↦ p.node.compile_le flags a n)
      hnode hfind hbase hsize rfl
    exact ⟨text, hadds, Decode.recovers_field hsame hy hisNull htext⟩

/-- What agrees with a run that succeeds, succeeds. -/
theorem Agree.exists_ok {α : Type} {n : Nat} {s t' : RunState} {made : α}
    {x : EStateM.Result Failure RunState α} (h : Agree n s x (.ok made t')) :
    ∃ s', x = .ok made s' ∧ RunState.Alike s' t' := by
  cases x with
  | ok _ s' =>
    obtain ⟨rfl, halike, _⟩ := h
    exact ⟨s', rfl, halike⟩
  | error _ _ => exact h.elim

/-- Nodes that round-trip a value do so in an encoder, over formatters that are pure. -/
theorem RoundTrips.encodes {e d : Node} (hpure : writing.registry.IsPure)
    (h : RoundTrips writing reading e d y) :
    Run.Encodes writing (e.compile writing.config.jsonFlags) y
      (Decode.Recovers (Decode.value (d.plan reading)) (·.SameAs y)) := by
  intro a n s hfind hbase hsize
  obtain ⟨text, hadds, hfills⟩ := h (a.find s.slots) hfind
  obtain ⟨log, hdirect⟩ := hadds s
  have hagree := Run.writes_node hpure a n e s s _ ⟨rfl, fun _ ↦ Iff.rfl⟩ ⟨rfl, fun _ ↦ Iff.rfl⟩
    hbase hsize
  rw [hdirect] at hagree
  refine ⟨text, ?_, Decode.recovers_of_reads fun offset ↦ ?_⟩
  · obtain ⟨s', hrun, halike⟩ := Agree.exists_ok hagree
    exact ⟨s', hrun, halike.out_eq⟩
  · obtain ⟨tree, htree, htext⟩ := hfills offset
    exact ⟨tree, htree, htext.reads⟩

end

/-- A formatter that reverses strings. -/
def reverseRegistry : Registry where
  formatters := [("reverse",
    { name := "reverse"
      signature := ⟨.static, [.value (.scalar .string)], .value (.scalar .string)⟩
      body := fun value _ ↦ return match value with
        | .string s => .ok (.string (String.ofList s.toList.reverse))
        | _ => .error "no string" })]

theorem isPure_reverseRegistry : reverseRegistry.IsPure where
  formatters name f hmem value _ := by
    obtain ⟨rfl, rfl⟩ := Prod.mk.inj (List.mem_singleton.mp hmem)
    exact Traced.IsPure.pure _
  discriminators _ _ hmem := absurd hmem List.not_mem_nil

/-- A point in time is written and then reversed. -/
def stampWriter : PropertyNode Node :=
  ⟨"at", "at", .field "at", [.dateTimeFormat none, .named "reverse"], .nullable (.scalar .string)⟩

/-- What has been reversed is reversed and then read. -/
def stampReader : PropertyNode Node :=
  ⟨"at", "at", .field "at", [.dateTimeParse none, .named "reverse"], .nullable (.scalar .string)⟩

/-- The text of the stamp. -/
def stampText : String := "2024-02-29T12:34:56+01:00"

/-- A stamp that is a point in time. -/
def stamp : DateTime := ⟨⟨2024, 2, 29⟩, 45296, 0, 3600⟩

theorem undone_stamp : ∃ y, ∀ log, Undone ⟨reverseRegistry, {}⟩ ⟨reverseRegistry, {}⟩ (· = ·)
    stampWriter.formatters stampReader.formatters log (.dateTime stamp) (.string y) := by
  let reversed := String.ofList stampText.toList.reverse
  have hreversed : String.ofList reversed.toList.reverse = stampText := by
    simp [reversed]
  have hwrite : stamp.write none = .ok stampText := by decide +kernel
  have hread : DateTime.read stampText none = .ok stamp := by decide +kernel
  refine ⟨reversed, fun log ↦ ?_⟩
  have hmakes : FormatterRef.apply (.dateTimeFormat none) reverseRegistry.formatters {}
      (.dateTime stamp) log = (.ok (.string stampText), log) := by
    rw [FormatterRef.apply, hwrite]
    rfl
  have hmakes' : FormatterRef.apply (.named "reverse") reverseRegistry.formatters {}
      (.string stampText) log = (.ok (.string reversed), log) := rfl
  refine .cons hmakes rfl ?_ (.cons hmakes' rfl ?_ (.nil log _))
  · rintro _ rfl
    refine ⟨.dateTime stamp, [], ?_, rfl⟩
    rw [FormatterRef.apply, hread]
    rfl
  · rintro _ rfl
    refine ⟨.string (String.ofList reversed.toList.reverse), [], rfl, ?_⟩
    rw [hreversed]
    rfl

/-- A stamp that is set is read back, and so is one that is missing. -/
theorem PropertyNode.recovers_of_undone_stamp :
    let context : RunContext := ⟨reverseRegistry, {}⟩
    let reading : DecodeContext := ⟨reverseRegistry, {}⟩
    let IsReadBack (o : Object Value) (x : Value) : Prop :=
      Run.Encodes context (fun a n ↦ compileProperties .none a n false [stampWriter]) (.object o)
        fun text ↦ ∃ value, text = Run.memberText .none false "at" value ∧
          Decode.Recovers (Decode.field reading (stampReader.plan reading)) (· = x) value
    IsReadBack ⟨.made 0, "Visit", .ready [("at", .initialized (.dateTime stamp))]⟩
        (.dateTime stamp) ∧
      IsReadBack ⟨.made 0, "Visit", .ready []⟩ .null := by
  intro context reading IsReadBack
  have hsame : ∀ v w : Value, v = w → v.isNull = w.isNull := by
    rintro v _ rfl
    rfl
  constructor
  · refine PropertyNode.recovers_of_undone (x := .dateTime stamp) hsame rfl rfl rfl ?_ ?_ false
    · intro hisNull
      cases hisNull
    intro _ log
    obtain ⟨y, hy⟩ := undone_stamp
    refine ⟨.string y, hy log, ?_⟩
    have hround : RoundTrips context reading stampWriter.node stampReader.node (.string y) :=
      (RoundTrips.string y).nullable rfl true
    refine (hround.encodes isPure_reverseRegistry).mono fun text htext ↦ ?_
    exact htext.mono fun v hv ↦ hv.eq_string
  · refine PropertyNode.recovers_of_undone (x := .null) hsame rfl rfl rfl ?_ ?_ false
    · exact fun _ ↦ ⟨rfl, rfl⟩
    · intro hisNull
      cases hisNull

end TypedJson
