import TypedJson.Proofs.Codec.Emitting

/-!
# Encoded texts are compact

Whatever value an encoder is given, the text it makes is the text of one value, without a blank
outside strings, and ASCII unless a flag allows more. Nothing is assumed of the value, of formatters
and of discriminators: a value that does not fit the node makes the encoder fail where it would not
know what to write, and a branch without a case for it writes nothing at all but fails.
-/

namespace TypedJson

open Grammar

namespace Run

variable {p q : List UInt8 → Prop} {context : RunContext}

/-! ## Instructions -/

theorem emits_cons {i : Instruction} {is : List Instruction} (hi : (instruction context i).Emits p)
    (his : (instructions context is).Emits q) :
    (instructions context (i :: is)).Emits (Then p q) := by
  rw [instructions]
  exact hi.bind fun _ ↦ his

theorem emits_singleton {i : Instruction} (h : (instruction context i).Emits p) :
    (instructions context [i]).Emits p := by
  rwa [instructions_singleton]

theorem emits_literal {text : String} (h : p (Utf8.encode text)) :
    (instruction context (.writeLiteral text)).Emits p := by
  rw [instruction]
  exact emits_write h

theorem mem_of_caseFor? {keys : List String} {selector : Selector} {value : Value}
    {key found : String} (h : caseFor? keys selector value key = some found) : found ∈ keys := by
  unfold caseFor? at h
  split at h
  · next hkey => exact Option.some.inj h ▸ List.contains_iff_mem.mp hkey
  · split at h
    · split at h
      · next hfloat => exact Option.some.inj h ▸ List.contains_iff_mem.mp hfloat
      · exact nomatch h
    · exact nomatch h

theorem emits_firstCase {cases : List (BranchCase Instruction)} {key : String}
    (hkey : key ∈ cases.map (·.key))
    (h : ∀ case ∈ cases, (instructions context case.body).Emits p) :
    (firstCase context key cases).Emits p := by
  induction cases with
  | nil => exact absurd hkey List.not_mem_nil
  | cons case cases ih =>
    rw [firstCase]
    by_cases hhead : case.key = key
    · rw [if_pos hhead]
      exact h case List.mem_cons_self
    · rw [if_neg hhead]
      refine ih ?_ fun other hother ↦ h other (List.mem_cons_of_mem case hother)
      exact (List.mem_cons.mp hkey).resolve_left (Ne.symm hhead)

/-- A branch that succeeds has run one of its cases. -/
theorem emits_branch {accessor : Accessor} {selector : Selector}
    {cases : List (BranchCase Instruction)}
    (h : ∀ case ∈ cases, (instructions context case.body).Emits p) :
    (instruction context (.branch accessor selector cases)).Emits p := by
  rw [instruction]
  refine (silent_read _).bind fun value ↦ ?_
  refine Silent.bind ((silent_select context value selector).atAccessor _) fun key ↦ ?_
  simp only
  split
  · next found hfound => exact emits_firstCase (mem_of_caseFor? hfound) h
  · exact (emits_throw _).atAccessor _

theorem emits_nullBranch {accessor : Accessor} {value : List Instruction}
    {isBody : List UInt8 → Prop} (h : (instructions context value).Emits (IsCompact isBody)) :
    (instruction context (nullBranch accessor value)).Emits (IsCompact isBody) := by
  refine emits_branch fun case hcase ↦ ?_
  obtain rfl | hcase := List.mem_cons.mp hcase
  · exact emits_singleton (emits_literal .null)
  · rw [List.mem_singleton.mp hcase]
    exact h

theorem emits_call {formatter : FormatterRef} {argument : Accessor} {bind : Nat}
    {body : List Instruction} (h : (instructions context body).Emits p) :
    (instruction context (.call formatter argument bind body)).Emits p := by
  rw [instruction]
  refine (silent_read _).bind fun value ↦ ?_
  refine Silent.bind (Emits.atAccessor ?_ _) fun made ↦ (silent_setSlot _ _).bind fun _ ↦ h
  exact (silent_traced _).bind silent_found

theorem emits_listLoop {accessor : Accessor} {slots : List Nat} {body : List Instruction}
    (h : (instructions context body).Emits p) :
    (instruction context (.loop accessor .list slots "," body)).Emits (Separated p true) := by
  rw [instruction]
  refine (silent_read _).bind fun value ↦ ?_
  -- The kind of the loop rules out the cases of the other container.
  split
  · exact emits_forItems (fun _ ↦ (silent_setSlot _ _).bind fun _ ↦ h) true _
  · contradiction
  · exact (emits_throw _).atAccessor _
  · contradiction

theorem emits_dictLoop {accessor : Accessor} {slots : List Nat} {body : List Instruction}
    (h : (instructions context body).Emits p) :
    (instruction context (.loop accessor .dict slots "," body)).Emits (Separated p true) := by
  rw [instruction]
  refine (silent_read _).bind fun value ↦ ?_
  split
  · contradiction
  · exact emits_forEntries
      (fun _ _ ↦ (silent_setSlot _ _).bind fun _ ↦ (silent_setSlot _ _).bind fun _ ↦ h) true _
  · contradiction
  · exact (emits_throw _).atAccessor _

theorem emits_value {accessor : Accessor} {kind : WriteKind} :
    (instruction context (.writeValue accessor kind)).Emits
      (IsCompact (QuotedBody context.config.jsonFlags)) := by
  rw [instruction]
  exact (silent_read _).bind fun value ↦ (emits_writeValue _ _ value).atAccessor _

theorem emits_key {accessor : Accessor} :
    (instruction context (.writeKey accessor)).Emits
      (StartsString (QuotedBody context.config.jsonFlags)) := by
  rw [instruction]
  exact (silent_read _).bind fun value ↦ (emits_writeKey _ value).atAccessor _

theorem emits_block {body : List Instruction} (h : (instructions context body).Emits p) :
    (instruction context (.block body)).Emits p := by
  rwa [instruction]

theorem emits_keyLiteral {name : String} :
    (instruction context (keyLiteral context.config.jsonFlags name)).Emits
      (Then (StartsString (QuotedBody context.config.jsonFlags)) (· = [Byte.colon])) := by
  rw [keyLiteral, instruction, write_append]
  exact (emits_quote _ name).bind fun _ ↦ emits_write rfl

/-- A property in front of others. -/
theorem emits_property {name : String} {body others : List Instruction} (isFirst : Bool)
    (hbody : (instructions context body).Emits (IsCompact (QuotedBody context.config.jsonFlags)))
    (hothers : (instructions context others).Emits
      (Separated (IsCompactEntry (QuotedBody context.config.jsonFlags)) false)) :
    (instructions context ((if isFirst then [] else [.writeLiteral ","]) ++
        keyLiteral context.config.jsonFlags name :: .block body :: others)).Emits
      (Separated (IsCompactEntry (QuotedBody context.config.jsonFlags)) isFirst) := by
  have hcomma : (instructions context (if isFirst then [] else [.writeLiteral ","])).Emits
      (· = if isFirst then [] else [Byte.comma]) := by
    cases isFirst with
    | true => exact emits_pure () rfl
    | false => exact emits_singleton (emits_literal rfl)
  rw [instructions_append]
  refine Emits.mono (hcomma.bind fun _ ↦
    emits_cons emits_keyLiteral (emits_cons (emits_block hbody) hothers)) ?_
  rintro _ ⟨comma, _, rfl, hcomma, _, _, rfl, ⟨key, colon, rfl, hkey, hcolon⟩, text, rest, rfl,
    htext, hrest⟩
  refine .cons ⟨comma, _, rfl, hcomma, key ++ (colon ++ text), rest, ?_, ?_, hrest⟩
  · simp only [List.append_assoc]
  · exact isCompactEntry_of_then ⟨key, _, rfl, hkey, colon, text, rfl, hcolon, htext⟩

/-! ## Nodes -/

theorem emits_callChain {body : Accessor → Nat → List Instruction × Nat}
    (h : ∀ a n, (instructions context (body a n).1).Emits p) (formatters : List FormatterRef)
    (a : Accessor) (n : Nat) :
    (instructions context (callChain body a n formatters).1).Emits p := by
  induction formatters generalizing a n with
  | nil => exact h a n
  | cons formatter formatters ih => exact emits_singleton (emits_call (ih _ _))

mutual

theorem emits_node (a : Accessor) (n : Nat) : ∀ node : Node,
    (instructions context (node.compile context.config.jsonFlags a n).1).Emits
      (IsCompact (QuotedBody context.config.jsonFlags))
  | .scalar _ | .mixed | .enum _ _ => emits_singleton emits_value
  | .null => emits_singleton (emits_literal .null)
  | .nullable inner => emits_singleton (emits_nullBranch (emits_node a n inner))
  | .list item => by
    refine Emits.mono ?_ fun _ ↦ isCompact_list
    have hitem := emits_node (.slot n) (n + 1) item
    exact emits_cons (emits_literal rfl) (emits_cons (emits_listLoop
      (emits_singleton (emits_block hitem))) (emits_singleton (emits_literal rfl)))
  | .dict _ item => by
    refine Emits.mono ?_ fun _ ↦ isCompact_dict
    have hitem := emits_node (.slot (n + 1)) (n + 2) item
    refine emits_cons (emits_literal rfl) (emits_cons (emits_dictLoop (Emits.mono ?_ fun _ ↦
      isCompactEntry_of_then)) (emits_singleton (emits_literal rfl)))
    exact emits_cons emits_key
      (emits_cons (emits_literal rfl) (emits_singleton (emits_block hitem)))
  | .object _ properties => by
    refine Emits.mono ?_ fun _ ↦ isCompact_dict
    have hproperties := emits_properties a n true properties
    rw [Node.compile]
    refine emits_cons (emits_literal rfl) ?_
    rw [instructions_append]
    exact hproperties.bind fun _ ↦ emits_singleton (emits_literal rfl)
  | .union candidates (some name) =>
    emits_singleton (emits_branch (emits_candidates a n (some name) candidates))
  | .union candidates none =>
    emits_singleton (emits_branch (emits_candidates a n none candidates))
  | .dateTime pattern => emits_singleton (emits_call (emits_singleton emits_value))
termination_by structural node => node

theorem emits_properties (a : Accessor) (n : Nat) (isFirst : Bool) :
    ∀ properties : List (PropertyNode Node),
      (instructions context
          (compileProperties context.config.jsonFlags a n isFirst properties).1).Emits
        (Separated (IsCompactEntry (QuotedBody context.config.jsonFlags)) isFirst)
  | [] => emits_pure () (.nil isFirst)
  | ⟨_, encodedName, accessor, formatters, node⟩ :: properties => by
    rw [compileProperties]
    refine emits_property isFirst ?_ (emits_properties a _ false properties)
    have hcalls := emits_callChain (fun a n ↦ emits_node a n node) formatters (accessor.of a) n
    -- Formatters that do not see `null` are called in one case of a branch.
    split
    · split
      · exact emits_singleton (emits_nullBranch hcalls)
      · exact hcalls
    · exact hcalls
termination_by structural properties => properties

theorem emits_candidates (a : Accessor) (n : Nat) (discriminator : Option String) :
    ∀ candidates : List (Candidate Node),
      ∀ case ∈ (compileCandidates context.config.jsonFlags a n discriminator candidates).1,
        (instructions context case.body).Emits
          (IsCompact (QuotedBody context.config.jsonFlags))
  | [] => fun _ hmem ↦ absurd hmem List.not_mem_nil
  | ⟨key, shape, node⟩ :: candidates => by
    rw [compileCandidates]
    exact List.forall_mem_cons.mpr
      ⟨emits_node a n node, emits_candidates a _ discriminator candidates⟩
termination_by structural candidates => candidates

end

end Run

/-! ## Encoded texts -/

theorem isString_of_quotedBody {flags : JsonFlags} {body : List UInt8}
    (h : Run.QuotedBody flags body) : IsString body := by
  obtain ⟨s, rfl⟩ := h
  exact isString_of_isBody (Json.isBody_quotedBody flags s)

/-- What is encoded is what the instructions of the node write. -/
theorem exists_run_of_encode {root : Node} {registry : Registry} {config : Config} {value : Value}
    {text : String}
    (h : (compile root config.jsonFlags).encode registry config value = .ok text) :
    ∃ state, Run.instructions ⟨registry, config⟩ (root.compile config.jsonFlags .root 1).1
        ⟨"", [], value :: List.replicate ((compile root config.jsonFlags).slots - 1) .null⟩ =
          .ok () state ∧
      state.out = text := by
  have hsame : Run.instructions ⟨registry, config⟩ (compile root config.jsonFlags).instructions =
      Run.instructions ⟨registry, config⟩ (root.compile config.jsonFlags .root 1).1 :=
    Run.instructions_optimize _ _
  rw [Codec.encode, Written.text, Codec.run, hsame] at h
  cases hrun : Run.instructions ⟨registry, config⟩ (root.compile config.jsonFlags .root 1).1
      ⟨"", [], value :: List.replicate ((compile root config.jsonFlags).slots - 1) .null⟩ with
  | ok a state =>
    rw [hrun] at h
    exact ⟨state, rfl, Except.ok.inj h⟩
  | error failure state =>
    rw [hrun] at h
    cases h

theorem isCompact_encode {root : Node} {registry : Registry} {config : Config} {value : Value}
    {text : String}
    (h : (compile root config.jsonFlags).encode registry config value = .ok text) :
    IsCompact (Run.QuotedBody config.jsonFlags) (Utf8.encode text) := by
  obtain ⟨state, hstate, rfl⟩ := exists_run_of_encode h
  obtain ⟨text, hout, htext⟩ := Run.emits_node .root 1 root _ _ _ hstate
  rw [hout, String.empty_append]
  exact htext

/-- **Encoded texts are JSON.** Whatever the node, the registry, the options and the value are, a
text that is encoded is the text of one value, there is no blank outside its strings, and all of it
is ASCII unless a flag allows other characters. -/
theorem isValue_encode {root : Node} {registry : Registry} {config : Config} {value : Value}
    {text : String}
    (h : (compile root config.jsonFlags).encode registry config value = .ok text) :
    IsValue (Utf8.encode text) ∧
      (∀ b ∈ Scan.outsideStrings .plain (Utf8.encode text), Text.isJsonBlank b = false) ∧
      (config.jsonFlags.has .unescapedUnicode = false → ∀ b ∈ Utf8.encode text, b < 0x80) := by
  have hcompact := isCompact_encode h
  have hstring := fun body ↦ @isString_of_quotedBody config.jsonFlags body
  refine ⟨hcompact.isValue hstring, (hcompact.blankFree hstring).outside, fun hflag ↦ ?_⟩
  refine hcompact.lt_of_mem ?_
  rintro _ ⟨s, rfl⟩
  exact Json.lt_of_mem_quotedBody hflag s

/-- A list with a string that has a blank and a character beyond ASCII. -/
theorem isValue_encode_list :
    let node : Node := .list (.nullable (.scalar .string))
    let text := "[null,\"\\u00e9 \\/\"]"
    (compile node .none).encode {} {} (.list [.null, .string "é /"]) = .ok text ∧
      IsValue (Utf8.encode text) ∧
      (∀ b ∈ Scan.outsideStrings .plain (Utf8.encode text), Text.isJsonBlank b = false) ∧
      (JsonFlags.none.has .unescapedUnicode = false → ∀ b ∈ Utf8.encode text, b < 0x80) := by
  intro node text
  have htext : (compile node .none).encode {} {} (.list [.null, .string "é /"]) = .ok text := by
    rfl
  exact ⟨htext, @isValue_encode node {} {} _ text htext⟩

end TypedJson
