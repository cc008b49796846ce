import Mathlib
import TypedJson.Codec.Run
import TypedJson.Decode.Leaf
import TypedJson.Model.Builder
import TypedJson.Proofs.Outcome
import TypedJson.Proofs.Registry.Discriminators

/-!
# Which discriminator is asked

Builds look a discriminator up by the union that it is for, but a node keeps only its name, and
encoders and decoders look for that. So they ask the discriminator that was registered last for the
*leader* of the name: among the unions whose present discriminator has the name, the one that was
given a discriminator first. Which discriminators unions have now, and in which order they got their
first one, both follow from the calls that registered them (`find?_ofList`, `keys_ofList`).

Unions are told apart by their keys here. A text has the key of the union that it denotes if it
spells the union out (`keyOfText_of_spellsOut`).
-/

namespace TypedJson

/-! ## Histories -/

/-- The registry with discriminators, registered one after another for unions given as texts. -/
def Registry.addDiscriminators (r : Registry) (calls : List (String × Discriminator)) :
    Except ConfigError Registry :=
  calls.foldlM (fun r call ↦ r.addDiscriminator call.1 call.2) r

namespace Discriminators

/-- What calls register, by the keys of the unions. -/
def history (calls : List (String × Discriminator)) : List (String × Discriminator) :=
  calls.filterMap fun call ↦ (keyOfText call.1).toOption.map fun key ↦ (key, call.2)

/-- The discriminator that calls register last for the union of a key. -/
def latest? (calls : List (String × Discriminator)) (key : String) : Option Discriminator :=
  Entries.find? (history calls).reverse key

/-- The key of the leader of a name: of the unions in the order of their first calls, the first
one whose latest discriminator has the name. -/
def leader? (calls : List (String × Discriminator)) (name : String) : Option String :=
  ((history calls).map (·.1)).eraseDups.find? fun key ↦
    (latest? calls key).any fun d ↦ decide (d.name = name)

theorem history_cons {call : String × Discriminator} {key : String}
    (h : keyOfText call.1 = .ok key) (calls : List (String × Discriminator)) :
    history (call :: calls) = (key, call.2) :: history calls := by
  rw [history, List.filterMap_cons, h]
  rfl

end Discriminators

theorem Registry.addDiscriminator_eq_ok {r r' : Registry} {text : String} {d : Discriminator}
    (h : r.addDiscriminator text d = .ok r') :
    ∃ key, Discriminators.keyOfText text = .ok key ∧
      r'.discriminators = Entries.put r.discriminators key d := by
  obtain ⟨ds, hds, h⟩ := Outcome.bind_eq_ok.mp h
  obtain ⟨key, hkey, hput⟩ := Outcome.bind_eq_ok.mp hds
  cases h
  cases hput
  exact ⟨key, hkey, rfl⟩

theorem Registry.discriminators_of_addDiscriminators {calls : List (String × Discriminator)}
    {r r' : Registry} (h : r.addDiscriminators calls = .ok r') :
    r'.discriminators = (Discriminators.history calls).foldl
      (fun ds entry ↦ Entries.put ds entry.1 entry.2) r.discriminators := by
  induction calls generalizing r with
  | nil =>
    cases h
    rfl
  | cons call calls ih =>
    obtain ⟨between, hcall, hcalls⟩ := Outcome.bind_eq_ok.mp h
    obtain ⟨key, hkey, hput⟩ := addDiscriminator_eq_ok hcall
    rw [ih hcalls, Discriminators.history_cons hkey, List.foldl_cons, hput]

namespace Discriminators

variable (calls : List (String × Discriminator))

theorem forUnion?_ofList_history (t : DataType) :
    forUnion? (Entries.ofList (history calls)) t = latest? calls (keyOfType t) :=
  Entries.find?_ofList _ _

theorem byName?_ofList_history (name : String) :
    byName? (Entries.ofList (history calls)) name = (leader? calls name).bind (latest? calls) := by
  -- Discriminators stand in the order of their keys, which is that of the first calls.
  have hlatest : Entries.find? (Entries.ofList (history calls)) = latest? calls :=
    funext (Entries.find?_ofList _)
  rw [byName?, Entries.values_eq_filterMap (Entries.nodup_keys_ofList _), Entries.keys_ofList,
    hlatest, List.find?_filterMap, leader?]

theorem exists_leader {key name : String} {d : Discriminator} (h : latest? calls key = some d)
    (hname : d.name = name) : ∃ leader, leader? calls name = some leader := by
  have hmem : key ∈ ((history calls).map (·.1)).eraseDups := by
    rw [List.mem_eraseDups]
    exact List.mem_map_of_mem (List.mem_reverse.mp (Entries.mem_of_find? h))
  refine Option.isSome_iff_exists.mp (List.find?_isSome.mpr ⟨key, hmem, ?_⟩)
  rw [h]
  exact decide_eq_true hname

theorem exists_latest_of_leader {name leader : String} (h : leader? calls name = some leader) :
    ∃ asked, latest? calls leader = some asked ∧ asked.name = name := by
  rw [leader?] at h
  have hany := List.find?_some h
  simpa [Option.any_eq_true, and_comm] using hany

end Discriminators

/-! ## What a build stores -/

/-- The discriminator that is stored in the node of a union, with `null` or without. -/
def Node.discriminator? : Node → Option String
  | union _ discriminator => discriminator
  | nullable inner => inner.discriminator?
  | _ => none

section

variable {context : BuildContext} {enter : DataType → String → List DataType → Build Node}
  {s s' : BuildState} {node : Node}

theorem DataType.length_of_toCandidates {types : List DataType}
    {candidates : List (Candidate Node)} {s s' : BuildState}
    (h : toCandidates context enter types s = .ok candidates s') :
    candidates.length = (types.filter fun t ↦ !t.isNull).length := by
  induction types generalizing candidates s s' with
  | nil =>
    cases h
    rfl
  | cons t types ih =>
    unfold toCandidates at h
    split at h
    · next hnull =>
      rw [ih h, List.filter_cons, hnull]
      rfl
    · next hnull =>
      obtain ⟨node, _, -, h⟩ := Outcome.exists_of_run_bind h
      obtain ⟨others, _, hothers, h⟩ := Outcome.exists_of_run_bind h
      cases h
      rw [List.length_cons, ih hothers, List.filter_cons, if_pos (by simpa using hnull),
        List.length_cons]

theorem discriminator?_of_unionNode {t : DataType} {candidates : List (Candidate Node)}
    (hlen : candidates.length ≠ 1) (h : unionNode context t candidates s = .ok node s') :
    node.discriminator? = (context.registry.discriminators.forUnion? t).map (·.name) := by
  unfold unionNode at h
  split at h
  · exact (hlen rfl).elim
  · dsimp only at h
    split at h
    · cases h
    · cases h
      rfl

/-- What is stored for a union is the name of the discriminator that is found for it. With a single
member apart from `null`, the node is that of the member. -/
theorem forUnion?_of_toNode {t : DataType} {name : String} (hlen : t.alternatives.length ≠ 1)
    (h : t.toNode context enter s = .ok node s') (hname : node.discriminator? = some name) :
    ∃ d, context.registry.discriminators.forUnion? t = some d ∧ d.name = name := by
  obtain ⟨kind, nullable⟩ := t
  cases kind with
  | union members =>
    obtain ⟨candidates, _, hcandidates, h⟩ := Outcome.exists_of_run_bind h
    obtain ⟨inner, _, hinner, h⟩ := Outcome.exists_of_run_bind h
    have hcount := DataType.length_of_toCandidates hcandidates
    have hstored := discriminator?_of_unionNode (hcount ▸ hlen) hinner
    refine Option.map_eq_some_iff.mp (hstored ▸ ?_)
    cases h
    split at hname <;> exact hname
  | null =>
    cases h
    cases hname
  | _ => exact (hlen rfl).elim

end

/-! ## What a run asks -/

/-- Asks a discriminator which case is for a value, and runs this case. -/
def Run.asking (context : RunContext) (d : Discriminator) (accessor : Accessor)
    (cases : List (BranchCase Instruction)) : Run Unit := do
  let value ← read accessor
  let key ← atAccessor accessor do
    match ← traced (d.select value) with
    | some key => return key
    | none => throw (.unexpectedValue s!"a member chosen by `{d.name}`" value.kindName)
  if key ∈ cases.map (·.key) then firstCase context key cases
  else atAccessor accessor (throw (.unexpectedValue ("|".intercalate (cases.map (·.key))) key))

/-- Asks a discriminator which candidate is for the value in a window. -/
def Decode.asking {ν : Type} (d : Discriminator) (candidates : List (Candidate ν)) (w : Window) :
    Decode (Candidate ν) := do
  let json ← json w
  match (d.select (Value.ofJson json) []).1 with
  | none =>
    throw (.unexpectedValue ("|".intercalate (candidates.map (·.key))) (Value.ofJson json).kindName)
  | some key =>
    match candidates.find? fun c ↦ decide (c.key = key) with
    | some c => return c
    | none => throw (.unexpectedValue ("|".intercalate (candidates.map (·.key))) key)

/-- Wherever a node stores the name, encoders and decoders ask the discriminator. -/
structure Registry.Asks (r : Registry) (name : String) (d : Discriminator) : Prop where
  encoder : ∀ config accessor cases,
    Run.instruction ⟨r, config⟩ (.branch accessor (.discriminator name) cases) =
      Run.asking ⟨r, config⟩ d accessor cases
  decoder : ∀ {ν : Type} (candidates : List (Candidate ν)) (w : Window),
    Decode.choose r candidates (some name) w = Decode.asking d candidates w

theorem Registry.asks_of_byName? {r : Registry} {name : String} {d : Discriminator}
    (h : r.discriminators.byName? name = some d) : r.Asks name d := by
  obtain rfl : d.name = name := by
    rw [Discriminators.byName?] at h
    have hfound := List.find?_some h
    exact of_decide_eq_true hfound
  constructor
  · intro config accessor cases
    rw [Run.instruction, Run.asking]
    refine bind_congr fun value ↦ ?_
    rw [Run.select, h]
    refine bind_congr fun key ↦ ?_
    by_cases hkey : key ∈ cases.map (·.key)
    · simp only [Run.caseFor?, List.contains_iff_mem, if_pos hkey]
    · simp only [Run.caseFor?, List.contains_iff_mem, if_neg hkey]
  · intro ν candidates w
    simp only [Decode.choose, h]
    refine bind_congr fun json ↦ ?_
    cases (d.select (Value.ofJson json) []).1 with
    | none => rfl
    | some key => cases candidates.find? fun c ↦ decide (c.key = key) <;> rfl

/-- Given any calls that register discriminators, what is stored for a union is the name of the
discriminator that was registered last for this union. What encoders and decoders ask by this name
is the discriminator that was registered last for the leader of the name, which is the right one if
the union leads. -/
theorem Registry.asks_of_toNode {r₀ r : Registry} {calls : List (String × Discriminator)}
    (hempty : r₀.discriminators = []) (hcalls : r₀.addDiscriminators calls = .ok r)
    {context : BuildContext} (hcontext : context.registry = r)
    {enter : DataType → String → List DataType → Build Node} {t : DataType}
    (hlen : t.alternatives.length ≠ 1) {s s' : BuildState} {node : Node} {name : String}
    (hnode : t.toNode context enter s = .ok node s') (hname : node.discriminator? = some name) :
    ∃ d, Discriminators.latest? calls (Discriminators.keyOfType t) = some d ∧ d.name = name ∧
      ∃ leader asked, Discriminators.leader? calls name = some leader ∧
        Discriminators.latest? calls leader = some asked ∧ asked.name = name ∧
          r.Asks name asked ∧ (leader = Discriminators.keyOfType t → asked = d) := by
  have hds : r.discriminators = Entries.ofList (Discriminators.history calls) := by
    rw [discriminators_of_addDiscriminators hcalls, hempty, Entries.ofList]
  obtain ⟨d, hd, hdname⟩ := forUnion?_of_toNode hlen hnode hname
  rw [hcontext, hds, Discriminators.forUnion?_ofList_history] at hd
  obtain ⟨leader, hleader⟩ := Discriminators.exists_leader calls hd hdname
  obtain ⟨asked, hasked, haskedname⟩ := Discriminators.exists_latest_of_leader calls hleader
  refine ⟨d, hd, hdname, leader, asked, hleader, hasked, haskedname, asks_of_byName? ?_, ?_⟩
  · rw [hds, Discriminators.byName?_ofList_history, hleader, Option.bind_some, hasked]
  · rintro rfl
    exact Option.some.inj (hasked.symm.trans hd)

/-- For `int|string`, a discriminator is stored by its name, but the one of `bool|float` is asked,
which leads that name. It is the one that was registered last for `bool|float`. -/
theorem Registry.asks_of_toNode_shared :
    let calls : List (String × Discriminator) :=
      [("bool|float", .always "same" "bool"), ("int|string", .always "same" "int"),
        ("float | bool", .always "same" "float")]
    let r : Registry :=
      { discriminators :=
          [("bool|float", .always "same" "float"), ("int|string", .always "same" "int")] }
    let t := DataType.mk (.union [.scalar .int, .scalar .string]) false
    let node : Node := .union
      [⟨"int", some "int", .scalar .int⟩, ⟨"string", some "string", .scalar .string⟩] (some "same")
    let state : BuildState := { hooks := ⟨.encode, [], []⟩ }
    Registry.addDiscriminators {} calls = .ok r ∧
      t.toNode ⟨r, {}, .encode, [], .reject⟩ (fun _ _ _ ↦ return .null) state = .ok node state ∧
        Discriminators.latest? calls (Discriminators.keyOfType t) = some (.always "same" "int") ∧
          r.Asks "same" (.always "same" "float") := by
  intro calls r t node state
  have hcalls : Registry.addDiscriminators {} calls = .ok r := by cbv
  have hnode : t.toNode ⟨r, {}, .encode, [], .reject⟩ (fun _ _ _ ↦ return .null) state =
      .ok node state := by
    simp only [t, node]
    cbv
  have hhistory : Discriminators.history calls =
      [("bool|float", .always "same" "bool"), ("int|string", .always "same" "int"),
        ("bool|float", .always "same" "float")] := by cbv
  have hlatest : Discriminators.latest? calls (Discriminators.keyOfType t) =
      some (.always "same" "int") := by
    rw [Discriminators.latest?, hhistory]
    cbv
  have hleader : Discriminators.leader? calls "same" = some "bool|float" := by
    simp only [Discriminators.leader?, Discriminators.latest?, hhistory]
    cbv
  have hlast : Discriminators.latest? calls "bool|float" = some (.always "same" "float") := by
    rw [Discriminators.latest?, hhistory]
    rfl
  obtain ⟨-, -, -, leader, asked, hleader', hasked, -, hasks, -⟩ :=
    asks_of_toNode rfl hcalls rfl (by decide) hnode rfl
  obtain rfl := Option.some.inj (hleader.symm.trans hleader')
  obtain rfl := Option.some.inj (hlast.symm.trans hasked)
  exact ⟨hcalls, hnode, hlatest, hasks⟩

end TypedJson
