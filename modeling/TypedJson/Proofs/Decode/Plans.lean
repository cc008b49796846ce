import TypedJson.Proofs.Decode.Runs

/-!
# Parts of nodes and their plans

The parts of an object and of a union are its nodes with plans in their place. A union is told by
keys and shapes, so it makes no difference whether the plans are put in before or after a member is
chosen.
-/

namespace TypedJson

/-- What holds of a node if it holds of its parts holds of all nodes. -/
@[elab_as_elim]
theorem Node.induction {motive : Node → Prop} (scalar : ∀ kind, motive (.scalar kind))
    (null : motive .null) (mixed : motive .mixed)
    (nullable : ∀ inner, motive inner → motive (.nullable inner))
    (list : ∀ item, motive item → motive (.list item))
    (dict : ∀ key item, motive item → motive (.dict key item))
    (object : ∀ className properties, (∀ p ∈ properties, motive p.node) →
      motive (.object className properties))
    (union : ∀ candidates discriminator, (∀ c ∈ candidates, motive c.node) →
      motive (.union candidates discriminator))
    (enum : ∀ className backing, motive (.enum className backing))
    (dateTime : ∀ pattern, motive (.dateTime pattern)) (node : Node) : motive node :=
  @Node.rec motive (fun properties ↦ ∀ p ∈ properties, motive p.node)
    (fun candidates ↦ ∀ c ∈ candidates, motive c.node) (fun p ↦ motive p.node)
    (fun c ↦ motive c.node) scalar null mixed nullable list dict object union enum dateTime
    (List.forall_mem_nil _) (fun _ _ hp hps ↦ List.forall_mem_cons.mpr ⟨hp, hps⟩)
    (List.forall_mem_nil _) (fun _ _ hc hcs ↦ List.forall_mem_cons.mpr ⟨hc, hcs⟩)
    (fun _ _ _ _ _ h ↦ h) (fun _ _ _ h ↦ h) node

/-- The property with the plan of its node. -/
def PropertyNode.plan (context : DecodeContext) (p : PropertyNode Node) : PropertyNode Plan :=
  ⟨p.sourceName, p.encodedName, p.accessor, p.formatters, p.node.plan context⟩

/-- The candidate with the plan of its node. -/
def Candidate.plan (context : DecodeContext) (c : Candidate Node) : Candidate Plan :=
  ⟨c.key, c.shape, c.node.plan context⟩

theorem propertyPlans_eq_map (context : DecodeContext) (properties : List (PropertyNode Node)) :
    propertyPlans context properties = properties.map (PropertyNode.plan context) := by
  induction properties with
  | nil => rfl
  | cons p properties ih =>
    obtain ⟨_, _, _, _, _⟩ := p
    rw [propertyPlans, ih]
    rfl

theorem candidatePlans_eq_map (context : DecodeContext) (candidates : List (Candidate Node)) :
    candidatePlans context candidates = candidates.map (Candidate.plan context) := by
  induction candidates with
  | nil => rfl
  | cons c candidates ih =>
    obtain ⟨_, _, _⟩ := c
    rw [candidatePlans, ih]
    rfl

namespace Decode

variable {ν μ : Type}

/-- What candidates carry does not matter to the choice. -/
theorem choose_map {f : Candidate ν → Candidate μ} (hkey : ∀ c, (f c).key = c.key)
    (hshape : ∀ c, (f c).shape = c.shape) (registry : Registry) (candidates : List (Candidate ν))
    (discriminator : Option String) (w : Window) :
    choose registry (candidates.map f) discriminator w =
      f <$> choose registry candidates discriminator w := by
  have hkeys : (candidates.map f).map (·.key) = candidates.map (·.key) := by
    simp [Function.comp_def, hkey]
  have hshapes : (candidates.map f).filterMap (·.shape) = candidates.filterMap (·.shape) := by
    rw [List.filterMap_map]
    exact congrArg (List.filterMap · candidates) (funext hshape)
  unfold choose
  cases discriminator with
  | some name =>
    dsimp only
    cases registry.discriminators.byName? name with
    | none => rfl
    | some d =>
      dsimp only
      rw [hkeys, map_bind]
      refine bind_congr fun value ↦ ?_
      cases (d.select (Value.ofJson value) []).1 with
      | none => rfl
      | some key =>
        simp only [List.find?_map, Function.comp_def, hkey]
        cases candidates.find? fun c ↦ decide (c.key = key) with
        | none => rfl
        | some c => rfl
  | none =>
    dsimp only
    rw [hshapes, map_bind]
    refine bind_congr fun _ ↦ ?_
    rw [map_bind]
    refine bind_congr fun shape ↦ ?_
    simp only [List.find?_map, Function.comp_def, hshape]
    cases candidates.find? fun c ↦ decide (c.shape = some shape) with
    | some c => rfl
    | none =>
      by_cases hint : shape = "int"
      · simp only [if_pos hint]
        cases candidates.find? fun c ↦ decide (c.shape = some "float") with
        | none => rfl
        | some c => rfl
      · simp only [if_neg hint]
        rfl

/-- What is chosen is one of the candidates. -/
theorem returns_choose (registry : Registry) (candidates : List (Candidate ν))
    (discriminator : Option String) (w : Window) :
    Returns (· ∈ candidates) (choose registry candidates discriminator w) := by
  unfold choose
  cases discriminator with
  | some name =>
    dsimp only
    cases registry.discriminators.byName? name with
    | none => exact returns_throw _
    | some d =>
      refine .bind fun value ↦ ?_
      cases (d.select (Value.ofJson value) []).1 with
      | none => exact returns_throw _
      | some key =>
        dsimp only
        cases hfind : candidates.find? fun c ↦ decide (c.key = key) with
        | none => exact returns_throw _
        | some c => exact returns_pure (List.mem_of_find?_eq_some hfind)
  | none =>
    refine .bind fun _ ↦ .bind fun shape ↦ ?_
    dsimp only
    cases hfirst : candidates.find? fun c ↦ decide (c.shape = some shape) with
    | some c => exact returns_pure (List.mem_of_find?_eq_some hfirst)
    | none =>
      by_cases hint : shape = "int"
      · simp only [if_pos hint]
        cases hfloat : candidates.find? fun c ↦ decide (c.shape = some "float") with
        | none => exact returns_throw _
        | some c => exact returns_pure (List.mem_of_find?_eq_some hfloat)
      · simp only [if_neg hint]
        exact returns_throw _

theorem read_union (context : DecodeContext) (candidates : List (Candidate Node))
    (discriminator : Option String) (w : Window) (place : Place) :
    (Node.union candidates discriminator).read context w place = (do
      let chosen ← choose context.registry candidates discriminator w
      value (chosen.node.plan context) w place) := by
  unfold Node.read
  dsimp only
  rw [candidatePlans_eq_map, choose_map (f := Candidate.plan context) (fun _ ↦ rfl)
    (fun _ ↦ rfl), map_eq_pure_bind, bind_assoc]
  rfl

/-- The step for a property, if it is in the text or may be missing. -/
def fieldStep? (context : DecodeContext) (place : Place) (texts : List (String × Window))
    (p : PropertyNode Node) : Option (Decode Value) :=
  match Entries.find? texts p.encodedName with
  | some w =>
    some (field context (p.plan context) w (PlaceStep.property p.sourceName p.encodedName :: place))
  | none => if p.node.acceptsNull then some (return .null) else none

theorem fieldSteps_cons (context : DecodeContext) (place : Place) (texts : List (String × Window))
    (p : PropertyNode Node) (properties : List (PropertyNode Node)) (steps : FieldSteps) :
    fieldSteps context place texts ((p :: properties).map (PropertyNode.plan context)) steps =
      fieldSteps context place texts (properties.map (PropertyNode.plan context))
        (match fieldStep? context place texts p with
        | some step => Entries.put steps p.sourceName step
        | none => steps) := by
  rw [List.map_cons, fieldSteps, fieldStep?]
  congr 1
  show (match Entries.find? texts p.encodedName with
    | some w => Entries.put steps p.sourceName
        (field context (p.plan context) w (PlaceStep.property p.sourceName p.encodedName :: place))
    | none =>
      if p.node.acceptsNull then Entries.put steps p.sourceName (return .null) else steps) = _
  cases Entries.find? texts p.encodedName with
  | some w => rfl
  | none =>
    cases p.node.acceptsNull with
    | true => rfl
    | false => rfl

theorem read_object (context : DecodeContext) (className : String)
    (properties : List (PropertyNode Node)) (w : Window) (place : Place) :
    (Node.object className properties).read context w place = (do
      return .object (← makeObject context.config.lazy (.decoded place) className
        (properties.map fun p ↦ (p.sourceName, p.encodedName))
        (loadFields context (properties.map (PropertyNode.plan context)) w place))) := by
  unfold Node.read
  dsimp only
  rw [propertyPlans_eq_map, List.map_map]
  rfl

theorem read_object_of_eager {context : DecodeContext} (heager : context.config.lazy = false)
    (className : String) (properties : List (PropertyNode Node)) (w : Window) (place : Place) :
    (Node.object className properties).read context w place = (do
      let slots ← (do
        let steps ← loadFields context (properties.map (PropertyNode.plan context)) w place
        readFields steps)
      return .object ⟨.decoded place, className, .ready slots⟩) := by
  rw [read_object, heager]
  unfold makeObject
  simp only [Bool.false_eq_true, if_false, bind_assoc, pure_bind]

theorem read_object_of_lazy {context : DecodeContext} (hlazy : context.config.lazy = true)
    (className : String) (properties : List (PropertyNode Node)) (w : Window) (place : Place) :
    (Node.object className properties).read context w place = (do
      let shape ← shape className (properties.map fun p ↦ (p.sourceName, p.encodedName))
      let found ← later (do
        let steps ← loadFields context (properties.map (PropertyNode.plan context)) w place
        deferFields steps)
      return .object ⟨.decoded place, shape.className, .ghost shape.fields found.1 found.2⟩) := by
  rw [read_object, hlazy]
  unfold makeObject
  simp only [if_true, bind_assoc, pure_bind]

end Decode

end TypedJson
