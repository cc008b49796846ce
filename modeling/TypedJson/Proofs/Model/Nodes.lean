import TypedJson.Proofs.Config.Hooks
import TypedJson.Proofs.Metadata.Load
import TypedJson.Proofs.Model.InStep

/-!
# Building nodes in step

The definitions of a build, one lemma each: a build of a type is in step with another one if the
classes that the type names are entered in step, and a class is built in step if its properties are
loaded in step and their types are built in step.

Kinds of types and kinds of nodes are carried along. A kind of types has to pass from a type to its
parts, a kind of nodes from the parts to the node. What a build refuses by itself, without entering
a class, is listed in `DataType.Refused`.
-/

namespace TypedJson

open DataType

/-- The contexts do not differ in what nodes are made of. -/
structure BuildContext.Alike (c d : BuildContext) : Prop where
  registry : d.registry = c.registry
  direction : d.direction = c.direction
  dateTimeFormat : d.config.dateTimeFormat = c.config.dateTimeFormat

theorem BuildContext.Alike.refl (c : BuildContext) : c.Alike c := ⟨rfl, rfl, rfl⟩

/-- The request that a build makes for the properties of a class. -/
def BuildContext.request (context : BuildContext) (className : String)
    (metadata : MetadataContext) : MetadataRequest :=
  ⟨className, context.direction, context.registry, context.config, metadata⟩

/-- A kind of types that passes from a type to the parts that are built. -/
structure DataType.IsHereditary (T : DataType → Prop) : Prop where
  item : ∀ {item nullable}, T (mk (.list item) nullable) → T item
  value : ∀ {key value nullable}, T (mk (.dict key value) nullable) → T value
  members : ∀ {members nullable}, T (mk (.union members) nullable) → ∀ m ∈ members, T m

theorem Registry.isHereditary_denotes (r : Registry) : IsHereditary r.Denotes where
  item h := h.item
  value h := h.value
  members h := h.members

/-- A kind of nodes that passes from the parts to a node, objects excepted. -/
structure Node.IsInherited (N : Node → Prop) : Prop where
  scalar : ∀ kind, N (.scalar kind)
  null : N .null
  mixed : N .mixed
  enum : ∀ className backing, N (.enum className backing)
  dateTime : ∀ pattern, N (.dateTime pattern)
  nullable : ∀ {inner}, N inner → N (.nullable inner)
  list : ∀ {item}, N item → N (.list item)
  dict : ∀ {kind item}, N item → N (.dict kind item)
  union : ∀ {candidates discriminator}, (∀ c ∈ candidates, N c.node) →
    N (.union candidates discriminator)

theorem Node.isInherited_true : IsInherited fun _ ↦ True := by
  constructor <;> intros <;> trivial

theorem Node.IsInherited.imp {p : Prop} {N : Node → Prop} (h : p → IsInherited N) :
    IsInherited fun node ↦ p → N node where
  scalar kind hp := (h hp).scalar kind
  null hp := (h hp).null
  mixed hp := (h hp).mixed
  enum className backing hp := (h hp).enum className backing
  dateTime pattern hp := (h hp).dateTime pattern
  nullable hinner hp := (h hp).nullable (hinner hp)
  list hitem hp := (h hp).list (hitem hp)
  dict hitem hp := (h hp).dict (hitem hp)
  union hcandidates hp := (h hp).union fun c hc ↦ hcandidates c hc hp

theorem Node.IsInherited.nullableNode {N : Node → Prop} (h : IsInherited N) {node : Node}
    (hnode : N node) (nullable : Bool) : N (nullableNode nullable node) := by
  cases nullable
  · exact hnode
  · exact h.nullable hnode

/-- The errors with which a build refuses a type by itself. -/
inductive DataType.Refused (r : Registry) : DataType → ConfigError → Prop
  | union (members : List DataType) (nullable : Bool) :
    Refused r (mk (.union members) nullable)
      (.ambiguousUnion (mk (.union members) nullable).text)
  | key {key : DataType} (value : DataType) (nullable : Bool)
    (hint : key ≠ .scalar .int) (hstring : key ≠ .scalar .string) :
    Refused r (mk (.dict key value) nullable)
      (.invalidType (mk (.dict key value) nullable).text "dict keys must be int or string")
  | enum {className : String} {error : ConfigError} (backing : ScalarKind) (nullable : Bool)
    (h : r.findEnum className = .error error) :
    Refused r (mk (.enum className backing) nullable) error
  | template (name : String) (nullable : Bool) :
    Refused r (mk (.template name) nullable) (.invalidType name "unbound template parameter")

/-- Kinds of types and nodes that a build in step carries along. -/
structure Lockstep.Carries (L : Lockstep) (r : Registry) (T : DataType → Prop) (N : Node → Prop) :
    Prop where
  types : IsHereditary T
  nodes : Node.IsInherited N
  refused : ∀ {t error}, T t → t.Refused r error →
    L.failure (.configuration error) (.configuration error)

theorem Lockstep.carries_alone {M : BuildMemory → Prop} {E : Failure → Prop} {r : Registry}
    {T : DataType → Prop} {N : Node → Prop} (hT : IsHereditary T) (hN : Node.IsInherited N)
    (hE : ∀ t error, T t → t.Refused r error → E (.configuration error)) :
    (Lockstep.alone M E).Carries r T N :=
  ⟨hT, hN, fun ht hrefused ↦ ⟨rfl, hE _ _ ht hrefused⟩⟩

namespace Build

variable {L : Lockstep} {S S' : List String} {c d : BuildContext} {T : DataType → Prop}
  {N B : Node → Prop}

/-! ## From types to nodes -/

theorem unionNode_inStep (hcd : c.Alike d) (hcarries : L.Carries c.registry T N)
    {members : List DataType} {nullable : Bool} (ht : T (mk (.union members) nullable))
    {candidates : List (Candidate Node)} (hcandidates : ∀ x ∈ candidates, N x.node) :
    InStep L S S' N (unionNode c (mk (.union members) nullable) candidates)
      (unionNode d (mk (.union members) nullable) candidates) := by
  unfold unionNode
  rw [hcd.registry]
  split
  · exact .pure (hcandidates _ (List.mem_singleton_self _))
  · dsimp only
    split
    · exact .refuse (hcarries.refused ht (.union members nullable))
    · exact .pure (hcarries.nodes.union hcandidates)

theorem keyKind_inStep {t key : DataType}
    (h : key ≠ .scalar .int → key ≠ .scalar .string →
      L.failure (.configuration (.invalidType t.text "dict keys must be int or string"))
        (.configuration (.invalidType t.text "dict keys must be int or string"))) :
    InStep L S S' (fun _ ↦ True) (keyKind t key) (keyKind t key) := by
  unfold keyKind
  split
  · exact .pure trivial
  · exact .pure trivial
  · next hint hstring => exact .refuse (h hint hstring)

mutual

/-- Given classes that are entered in step, a type is built in step. -/
theorem toNode_inStep (hcd : c.Alike d) (hcarries : L.Carries c.registry T N)
    {enter enter' : DataType → String → List DataType → Build Node}
    (henter : ∀ className generics nullable, className ∉ dateTimeClasses →
      T (mk (.object className generics) nullable) →
        InStep L S S' N (enter (mk (.object className generics) nullable) className generics)
          (enter' (mk (.object className generics) nullable) className generics))
    (t : DataType) (ht : T t) : InStep L S S' N (t.toNode c enter) (t.toNode d enter') := by
  have hnodes := hcarries.nodes
  match t with
  | .mk (.union members) nullable =>
    refine .bind (toCandidates_inStep hcd hcarries henter members (hcarries.types.members ht))
      fun candidates hcandidates ↦ ?_
    refine .bind (unionNode_inStep hcd hcarries ht hcandidates) fun node hnode ↦ .pure ?_
    split
    · exact hnodes.nullable hnode
    · exact hnode
  | .mk .null _ => exact .pure hnodes.null
  | .mk .mixed _ => exact .pure hnodes.mixed
  | .mk (.scalar kind) nullable => exact .pure (hnodes.nullableNode (hnodes.scalar kind) nullable)
  | .mk (.list item) nullable =>
    refine .bind (toNode_inStep hcd hcarries henter item (hcarries.types.item ht))
      fun node hnode ↦ .pure ?_
    exact hnodes.nullableNode (hnodes.list hnode) nullable
  | .mk (.dict key value) nullable =>
    refine .bind (keyKind_inStep fun hint hstring ↦
      hcarries.refused ht (.key value nullable hint hstring)) fun _ _ ↦ ?_
    refine .bind (toNode_inStep hcd hcarries henter value (hcarries.types.value ht))
      fun node hnode ↦ .pure ?_
    exact hnodes.nullableNode (hnodes.dict hnode) nullable
  | .mk (.object className generics) nullable =>
    unfold DataType.toNode
    dsimp only
    split
    · rw [hcd.dateTimeFormat]
      exact .pure (hnodes.nullableNode (hnodes.dateTime _) nullable)
    · next hclass =>
      have hnot : className ∉ dateTimeClasses := fun h ↦ hclass (List.contains_iff_mem.mpr h)
      refine .bind (henter className generics nullable hnot ht) fun node hnode ↦ .pure ?_
      exact hnodes.nullableNode hnode nullable
  | .mk (.enum className backing) nullable =>
    unfold DataType.toNode
    rw [hcd.registry]
    refine .bind (.lift (P := fun _ ↦ True) (fun _ _ ↦ trivial) fun error herror ↦
      hcarries.refused ht (.enum backing nullable herror)) fun e _ ↦ .pure ?_
    exact hnodes.nullableNode (hnodes.enum className e.backing) nullable
  | .mk (.template name) nullable => exact .refuse (hcarries.refused ht (.template name nullable))
termination_by structural t

theorem toCandidates_inStep (hcd : c.Alike d) (hcarries : L.Carries c.registry T N)
    {enter enter' : DataType → String → List DataType → Build Node}
    (henter : ∀ className generics nullable, className ∉ dateTimeClasses →
      T (mk (.object className generics) nullable) →
        InStep L S S' N (enter (mk (.object className generics) nullable) className generics)
          (enter' (mk (.object className generics) nullable) className generics))
    (types : List DataType) (htypes : ∀ t ∈ types, T t) :
    InStep L S S' (fun candidates ↦ ∀ x ∈ candidates, N x.node) (toCandidates c enter types)
      (toCandidates d enter' types) := by
  match types with
  | [] => exact .pure fun _ h ↦ absurd h List.not_mem_nil
  | t :: types =>
    have hrest := toCandidates_inStep hcd hcarries henter types fun u hu ↦
      htypes u (List.mem_cons_of_mem _ hu)
    unfold DataType.toCandidates
    split
    · exact hrest
    · rw [hcd.direction]
      refine .bind (toNode_inStep hcd hcarries henter t (htypes t List.mem_cons_self))
        fun node hnode ↦ .bind hrest fun candidates hcandidates ↦ .pure ?_
      exact List.forall_mem_cons.mpr ⟨hnode, hcandidates⟩
termination_by structural types

end

/-! ## From properties to nodes -/

/-- Loading answers what the cache answers, and keeps the cache that it leaves. -/
theorem loadMetadata_eq (context : BuildContext) (className : String) (metadata : MetadataContext)
    (s : BuildState) :
    let request := context.request className metadata
    let after := { s with metadata := (s.metadata.load context.pipeline request).2 }
    loadMetadata context className metadata s =
      match (s.metadata.load context.pipeline request).1 with
      | .ok properties => .ok properties after
      | .error error => .error (.configuration error) after := by
  intro request after
  show lift (s.metadata.load context.pipeline request).1 after = _
  split <;> next h => rw [h]; rfl

/-- Properties are loaded in step if caches that go together answer alike. -/
theorem loadMetadata_inStep {Q : PropertyMap → Prop} {className : String} {p q : MetadataContext}
    (h : ∀ m m', L.memory m m' →
      let left := m.metadata.load c.pipeline (c.request className p)
      let right := m'.metadata.load d.pipeline (d.request className q)
      left.1 = right.1 ∧ L.memory { m with metadata := left.2 } { m' with metadata := right.2 } ∧
        (∀ properties, left.1 = .ok properties → Q properties) ∧
        ∀ error, left.1 = .error error → L.failure (.configuration error) (.configuration error)) :
    InStep L S S' Q (loadMetadata c className p) (loadMetadata d className q) := by
  intro s s' hs
  obtain ⟨hsame, hmemory, hok, hfail⟩ := h _ _ hs.memory
  rw [loadMetadata_eq, loadMetadata_eq, ← hsame]
  cases hload : (s.metadata.load c.pipeline (c.request className p)).1 with
  | ok properties => exact ⟨rfl, hok _ hload, hs.left, hs.right, hmemory⟩
  | error error => exact ⟨hfail _ hload, hs.left, hs.right, hmemory⟩

/-- Given types that are built in step, properties are. -/
theorem propertyNodes_inStep {className : String} {properties : PropertyMap}
    (hhooked : ∀ entry ∈ properties, InStep L S S' (fun changed ↦ ∀ p, changed = some p → T p.type)
      (hooked c className entry.1 entry.2) (hooked d className entry.1 entry.2))
    {node node' : DataType → Build Node} (hnode : ∀ t, T t → InStep L S S' N (node t) (node' t)) :
    InStep L S S' (fun nodes ↦ ∀ n ∈ nodes, N n.node) (propertyNodes c node className properties)
      (propertyNodes d node' className properties) := by
  induction properties with
  | nil => exact .pure fun _ h ↦ absurd h List.not_mem_nil
  | cons first rest ih =>
    obtain ⟨key, p⟩ := first
    have hrest := ih fun entry hentry ↦ hhooked entry (List.mem_cons_of_mem _ hentry)
    refine .bind (hhooked (key, p) List.mem_cons_self) fun changed hchanged ↦ ?_
    cases changed with
    | none => exact hrest
    | some p =>
      refine .bind (hnode p.type (hchanged p rfl)) fun n hn ↦ .bind hrest fun others hothers ↦ ?_
      exact .pure (List.forall_mem_cons.mpr ⟨hn, hothers⟩)

/-- Without hooks the properties are those that are loaded. -/
theorem properties_inStep_of_isEmpty (hc : c.config.hooks.isEmpty = true)
    (hd : d.config.hooks.isEmpty = true) {Q : PropertyMap → Prop} {t u : DataType}
    {className : String} {p q : MetadataContext}
    (hstack : ∀ s s', L.Matches S S' s s' → L.Matches S S'
      { s with hooks := { s.hooks with stack := s.stack } }
      { s' with hooks := { s'.hooks with stack := s'.stack } })
    (h : InStep L S S' Q (loadMetadata c className p) (loadMetadata d className q)) :
    InStep L S S' Q (properties c t className p) (properties d u className q) := by
  refine .bind h fun loaded hloaded ↦ .bind (.modify hstack) fun _ _ ↦ ?_
  rw [Hooks.objectHook?_of_isEmpty hc, Hooks.objectHook?_of_isEmpty hd]
  exact .pure hloaded

/-- Without hooks a property is built as it is loaded. -/
theorem hooked_inStep_of_isEmpty (hc : c.config.hooks.isEmpty = true)
    (hd : d.config.hooks.isEmpty = true) (className : String) {key : String} {p : Property}
    (hp : T p.type) :
    InStep L S S' (fun changed ↦ ∀ p, changed = some p → T p.type) (hooked c className key p)
      (hooked d className key p) := by
  unfold hooked
  rw [Hooks.propertyHook?_of_isEmpty hc, Hooks.propertyHook?_of_isEmpty hd]
  refine .pure fun q hq ↦ ?_
  rw [← Option.some.inj hq]
  exact hp

/-- Without hooks, given types that are built in step, properties are. -/
theorem propertyNodes_inStep_of_isEmpty (hc : c.config.hooks.isEmpty = true)
    (hd : d.config.hooks.isEmpty = true) {className : String} {properties : PropertyMap}
    (hproperties : properties.HasTypes T) {node node' : DataType → Build Node}
    (hnode : ∀ t, T t → InStep L S S' N (node t) (node' t)) :
    InStep L S S' (fun nodes ↦ ∀ n ∈ nodes, N n.node) (propertyNodes c node className properties)
      (propertyNodes d node' className properties) :=
  propertyNodes_inStep (fun entry hentry ↦
    hooked_inStep_of_isEmpty hc hd className (hproperties entry hentry)) hnode

/-! ## Classes -/

/-- The context in which the properties of a class are loaded while the classes of `stack` are
open, the class itself the last of them. -/
def metadataFor (templates : List String) (generics : List DataType) (stack : List String) :
    MetadataContext :=
  ⟨Entries.ofList (templates.zip generics), Depths.ofStack stack⟩

/-- Given properties that are loaded and built in step, a class is. -/
theorem classNode_inStep (hcd : c.Alike d) {Q : PropertyMap → Prop} {t u : DataType}
    {className : String} {generics : List DataType}
    (hunknown : ∀ error, c.registry.templates className = .error error →
      L.failure (.configuration error) (.configuration error))
    (hmismatch : ∀ templates, c.registry.templates className = .ok templates →
      templates.length ≠ generics.length →
        let error := ConfigError.genericsMismatch className templates.length generics.length
        L.failure (.configuration error) (.configuration error))
    (hproperties : ∀ templates, c.registry.templates className = .ok templates →
      templates.length = generics.length →
        InStep L (S ++ [className]) (S' ++ [className]) Q
          (properties c t className (metadataFor templates generics (S ++ [className])))
          (properties d u className (metadataFor templates generics (S' ++ [className]))))
    {node node' : DataType → Build Node}
    (hnodes : ∀ properties, Q properties →
      InStep L (S ++ [className]) (S' ++ [className]) (fun nodes ↦ N (.object className nodes))
        (propertyNodes c node className properties) (propertyNodes d node' className properties)) :
    InStep L S S' N (classNode c node t className generics)
      (classNode d node' u className generics) := by
  unfold classNode
  rw [hcd.registry]
  refine .bind (.lift (P := fun templates ↦ c.registry.templates className = .ok templates)
    (fun _ h ↦ h) hunknown) fun templates htemplates ↦ ?_
  split
  · next hlen => exact .refuse (hmismatch templates htemplates hlen)
  next hlen =>
  refine .get_bind fun s s' hs ↦ ?_
  rw [hs.left, hs.right]
  refine .bind (.opening (.bind (hproperties templates htemplates (Decidable.not_not.mp hlen))
    hnodes)) fun nodes hnodes ↦ .pure hnodes

/-- A class is entered in step over memories that remember the same. -/
theorem enterStep_inStep (hpolicy : d.policy = c.policy) {t : DataType} {className : String}
    {generics : List DataType} {enter enter' : DataType → String → List DataType → Build Node}
    (hfail : isTooDeep c.policy S className = true →
      L.failure (circular S className) (circular S className))
    (hsame : ∀ m m', L.memory m m' → ∀ key, Entries.find? m.memo key = Entries.find? m'.memo key)
    (hfound : ∀ m m' node, L.memory m m' →
      Entries.find? m.memo (t.nonNull.text, Depths.ofStack (S ++ [className])) = some node → N node)
    (hput : ∀ m m' node, L.memory m m' → B node →
      let key := (t.nonNull.text, Depths.ofStack (S ++ [className]))
      L.memory { m with memo := Entries.put m.memo key node }
        { m' with memo := Entries.put m'.memo key node })
    (hbuilt : ∀ node, B node → N node)
    (h : isTooDeep c.policy S className = false →
      InStep L S S B (classNode c (DataType.toNode c enter) t className generics)
        (classNode d (DataType.toNode d enter') t className generics)) :
    InStep L S S N (enterStep c enter t className generics)
      (enterStep d enter' t className generics) := by
  unfold enterStep
  rw [hpolicy]
  refine .guarding rfl hfail fun hopen ↦ .get_bind fun s s' hs ↦ ?_
  rw [hs.left, hs.right]
  exact .remembering (fun m m' hm ↦ hsame m m' hm _) hfound hput hbuilt (h hopen)

/-- Without fuel every class is too deep. -/
theorem enter_zero_inStep {t u : DataType} {className : String} {generics generics' : List DataType}
    (hfail : L.failure (circular S className) (circular S' className)) :
    InStep L S S' N (enter c 0 t className generics) (enter d 0 u className generics') := by
  unfold enter
  refine .get_bind fun s s' hs ↦ ?_
  rw [hs.left, hs.right]
  exact .throw hfail

/-! ## Builds beside themselves -/

section

variable {M : BuildMemory → Prop} {E : Failure → Prop} {className : String}

theorem loadMetadata_alone {Q : PropertyMap → Prop} {metadata : MetadataContext}
    (h : ∀ m, M m →
      let out := m.metadata.load c.pipeline (c.request className metadata)
      M { m with metadata := out.2 } ∧ (∀ properties, out.1 = .ok properties → Q properties) ∧
        ∀ error, out.1 = .error error → E (.configuration error)) :
    InStep (.alone M E) S S Q (loadMetadata c className metadata)
      (loadMetadata c className metadata) := by
  refine loadMetadata_inStep fun m m' hm ↦ ?_
  obtain ⟨rfl, hM⟩ := hm
  obtain ⟨hafter, hok, hfail⟩ := h m hM
  exact ⟨rfl, ⟨rfl, hafter⟩, hok, fun error herror ↦ ⟨rfl, hfail error herror⟩⟩

theorem properties_alone_of_isEmpty (hc : c.config.hooks.isEmpty = true) {Q : PropertyMap → Prop}
    {t : DataType} {metadata : MetadataContext}
    (hhooks : ∀ m hooks, M m → M { m with hooks })
    (h : InStep (.alone M E) S S Q (loadMetadata c className metadata)
      (loadMetadata c className metadata)) :
    InStep (.alone M E) S S Q (properties c t className metadata)
      (properties c t className metadata) := by
  refine properties_inStep_of_isEmpty hc hc (fun s s' hs ↦ ?_) h
  obtain rfl := hs.eq
  exact ⟨hs.left, hs.right, rfl, hhooks _ _ hs.memory.2⟩

/-- A class is entered if what is remembered for it is of the kind that is built. -/
theorem enterStep_alone {t : DataType} {generics : List DataType}
    {enter : DataType → String → List DataType → Build Node}
    (hfail : isTooDeep c.policy S className = true → E (circular S className))
    (hfound : ∀ m node, M m →
      Entries.find? m.memo (t.nonNull.text, Depths.ofStack (S ++ [className])) = some node → N node)
    (hput : ∀ m node, M m → B node →
      let key := (t.nonNull.text, Depths.ofStack (S ++ [className]))
      M { m with memo := Entries.put m.memo key node })
    (hbuilt : ∀ node, B node → N node)
    (h : isTooDeep c.policy S className = false →
      InStep (.alone M E) S S B (classNode c (DataType.toNode c enter) t className generics)
        (classNode c (DataType.toNode c enter) t className generics)) :
    InStep (.alone M E) S S N (enterStep c enter t className generics)
      (enterStep c enter t className generics) := by
  refine enterStep_inStep rfl ?_ ?_ ?_ ?_ hbuilt h
  · exact fun hdeep ↦ ⟨rfl, hfail hdeep⟩
  · exact fun m m' hm key ↦ by rw [hm.1]
  · exact fun m m' node hm hfind ↦ hfound m node hm.2 hfind
  · rintro m m' node ⟨rfl, hM⟩ hnode
    exact ⟨rfl, hput m node hM hnode⟩

end

end Build

end TypedJson
