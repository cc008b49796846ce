import TypedJson.Proofs.Metadata.Depth
import TypedJson.Proofs.Model.Nesting

/-!
# Which classes are entered

A *discipline* says which classes can be opened while others are: it starts with the classes that
the type opens, and goes on with those that the types of loaded properties open. A discipline that
has a class open fewer than `k` times when it is opened is kept by a build, whose failures are those
of the discipline, and in whose node no class comes up more than `k` times on any way down.

Rejecting circular references is the discipline of the ways that can be gone from the type, with one
as the bound; a greatest depth is the one that has each class open less often than it says.

The node of a class may have been built before, while other classes were open. It is remembered by
text, so that the bound on what is found needs types that are told apart by their texts.
-/

namespace TypedJson

open DataType

/-! ## Types in use -/

/-- A kind of types that a build does not leave. -/
structure BuildContext.Keeps (c : BuildContext) (P : DataType → Prop) : Prop where
  hereditary : IsHereditary P
  generics : ∀ {className generics nullable}, P (.mk (.object className generics) nullable) →
    ∀ g ∈ generics, P g
  loads : ∀ {request : MetadataRequest} {properties},
    request.IsRegular c.registry (· = c.config) P → c.pipeline.load request = .ok properties →
      properties.HasTypes P

theorem BuildContext.IsPlain.keeps_denotes {c : BuildContext} (hc : c.IsPlain) :
    c.Keeps c.registry.Denotes where
  hereditary := c.registry.isHereditary_denotes
  generics h := h.generics
  loads {request properties} hrequest h := by
    obtain ⟨templates, types, htemplates, hlen, hgenerics, htypes⟩ := hrequest.templates
    have hregistry := hrequest.registry
    have hload : properties.HasTypes request.registry.Denotes := by
      refine Pipeline.hasTypes_load hc.closes hc.generics (hregistry ▸ hc.formatters)
        (hregistry ▸ htemplates) ?_ h
      rw [hregistry, hgenerics]
      exact Registry.binds_ofList hlen htypes
    rwa [hregistry] at hload

/-- At the same depths the contexts bind the same template parameters, to types with the same
texts. -/
structure MetadataContext.Alike (a b : MetadataContext) : Prop where
  names : a.generics.map (·.1) = b.generics.map (·.1)
  texts : a.generics.map (·.2.text) = b.generics.map (·.2.text)
  depths : a.depths = b.depths

/-- The properties that a class can be given. They may have been loaded before, for types in use
that have the same texts. -/
def BuildContext.Loads (c : BuildContext) (P : DataType → Prop) (className : String)
    (metadata : MetadataContext) (properties : PropertyMap) : Prop :=
  ∃ context : MetadataContext, context.Alike metadata ∧ (∀ entry ∈ context.generics, P entry.2) ∧
    c.pipeline.load (c.request className context) = .ok properties

/-- What was loaded for a request with the same bytes can be given. -/
theorem BuildContext.loads_of_feed_eq {c : BuildContext} {P : DataType → Prop}
    {className : String} {metadata : MetadataContext} {properties : PropertyMap}
    (hregular : (c.request className metadata).IsRegular c.registry (· = c.config) P)
    {q : MetadataRequest} (hq : q.IsRegular c.registry (· = c.config) P)
    (hfeed : q.feed = (c.request className metadata).feed)
    (hload : c.pipeline.load q = .ok properties) : c.Loads P className metadata properties := by
  obtain ⟨hclass, hdirection, hnames, htexts, hdepths⟩ :=
    hq.feed_inj_of_config hregular hq.config hfeed
  have hbound := hq.bound
  obtain ⟨qclass, qdirection, qregistry, qconfig, context⟩ := q
  obtain rfl : qclass = className := hclass
  obtain rfl : qdirection = c.direction := hdirection
  obtain rfl : qregistry = c.registry := hq.registry
  obtain rfl : qconfig = c.config := hq.config
  exact ⟨context, ⟨hnames, htexts, hdepths⟩, hbound, hload⟩

/-- For types of the registry, what can be given is what the pipeline loads. -/
theorem BuildContext.Loads.load_eq {c : BuildContext} {className : String}
    {metadata : MetadataContext} {properties : PropertyMap}
    (h : c.Loads c.registry.Denotes className metadata properties)
    (hmetadata : ∀ entry ∈ metadata.generics, c.registry.Denotes entry.2) :
    c.pipeline.load (c.request className metadata) = .ok properties := by
  obtain ⟨⟨generics, depths⟩, halike, hcontext, hload⟩ := h
  obtain rfl : generics = metadata.generics :=
    Registry.bindings_eq hcontext hmetadata halike.names halike.texts
  obtain rfl : depths = metadata.depths := halike.depths
  exact hload

/-- Classes opened inside each other, on a way from a type through the types of properties, and the
type arguments of the last of them. `loads` says which properties a class has. -/
inductive BuildContext.Reaches (c : BuildContext)
    (loads : String → MetadataContext → PropertyMap → Prop) (t : DataType) :
    List String → List DataType → Prop
  | root {className : String} {generics : List DataType} :
    t.Opens className generics → Reaches c loads t [className] generics
  | property {S : List String} {className : String} {generics : List DataType}
    {templates : List String} {properties : PropertyMap} {entry : String × Property}
    {inner : String} {others : List DataType} :
    Reaches c loads t (S ++ [className]) generics → c.registry.templates className = .ok templates →
      templates.length = generics.length →
        loads className (Build.metadataFor templates generics (S ++ [className])) properties →
          entry ∈ properties → entry.2.type.Opens inner others →
            Reaches c loads t (S ++ [className] ++ [inner]) others

/-- A type of the registry opens classes with types of the registry. -/
theorem Registry.Denotes.of_opens {r : Registry} {t : DataType} (h : r.Denotes t)
    {className : String} {generics : List DataType} (hopens : t.Opens className generics) :
    ∀ g ∈ generics, r.Denotes g := by
  induction hopens with
  | object _ _ => exact h.generics
  | list _ _ ih => exact ih h.item
  | dict _ _ ih => exact ih h.value
  | union _ hmem _ ih => exact ih (h.members _ hmem)

/-- On the ways from a type of the registry, classes have the properties that the pipeline loads. -/
theorem BuildContext.Reaches.load {c : BuildContext} (hc : c.IsPlain) {t : DataType}
    (ht : c.registry.Denotes t) {S : List String} {generics : List DataType}
    (h : c.Reaches (c.Loads c.registry.Denotes) t S generics) :
    (∀ g ∈ generics, c.registry.Denotes g) ∧
      c.Reaches (fun className metadata properties ↦
        c.pipeline.load (c.request className metadata) = .ok properties) t S generics := by
  induction h with
  | root hopens => exact ⟨ht.of_opens hopens, .root hopens⟩
  | property _ htemplates hlen hloads hentry hopens ih =>
    obtain ⟨hgenerics, hreach⟩ := ih
    have hload := hloads.load_eq fun entry hentry ↦
      hgenerics _ (List.of_mem_zip (Entries.mem_ofList hentry)).2
    have htype := Build.hasTypes_load_request hc htemplates hlen hgenerics _ hload _ hentry
    exact ⟨htype.of_opens hopens, hreach.property htemplates hlen hload hentry hopens⟩

namespace Build

variable {c : BuildContext} {P : DataType → Prop} {k : Nat} {E : Failure → Prop}
  {F : List String → String → List DataType → Prop} {S : List String}

/-- The type is in use, and the classes that it opens can be opened while those of `S` are. -/
structure Allows (P : DataType → Prop) (F : List String → String → List DataType → Prop)
    (S : List String) (t : DataType) : Prop where
  kind : P t
  opens : ∀ className generics, t.Opens className generics → F S className generics

theorem isHereditary_allows (hP : IsHereditary P) : IsHereditary (Allows P F S) where
  item h := ⟨hP.item h.kind, fun _ _ hopens ↦ h.opens _ _ (.list _ hopens)⟩
  value h := ⟨hP.value h.kind, fun _ _ hopens ↦ h.opens _ _ (.dict _ hopens)⟩
  members h m hm := ⟨hP.members h.kind m hm, fun _ _ hopens ↦ h.opens _ _ (.union _ hm hopens)⟩

/-- `F S className generics` says that the class can be opened while those of `S` are. -/
structure Discipline (c : BuildContext) (P : DataType → Prop) (k : Nat) (E : Failure → Prop)
    (F : List String → String → List DataType → Prop) : Prop where
  enters : ∀ {S className generics}, F S className generics →
    isTooDeep c.policy S className = false → S.count className < k
  fails : ∀ {S className generics}, F S className generics → IsWithin c.policy S →
    isTooDeep c.policy S className = true → E (circular S className)
  configuration : ∀ error, E (.configuration error)
  properties : ∀ {S className generics templates properties}, F S className generics →
    c.registry.templates className = .ok templates → templates.length = generics.length →
      c.Loads P className (metadataFor templates generics (S ++ [className])) properties →
        properties.HasTypes fun t ↦ ∀ inner others, t.Opens inner others →
          F (S ++ [className]) inner others

/-- Below the open classes the node nests, if types in use are told apart. -/
def Nests (c : BuildContext) (P : DataType → Prop) (k : Nat) (S : List String) (node : Node) :
    Prop :=
  c.registry.TellsApart P → node.NestsWithin k S

/-- What a build under a discipline remembers: properties that classes can be given, and under each
key a node that nests below some classes with the depths of the key. -/
structure IsBounded (c : BuildContext) (P : DataType → Prop) (k : Nat) (m : BuildMemory) :
    Prop where
  metadata : m.metadata.Holds c.registry (· = c.config) P c.pipeline
  memo : ∀ key node, Entries.find? m.memo key = some node →
    ∃ S className generics nullable, (∀ x ∈ S ++ [className], x ∈ c.registry.classNames) ∧
      P (.mk (.object className generics) nullable) ∧
        key = ((object className generics).text, Depths.ofStack (S ++ [className])) ∧
          Nests c P k S node

theorem isInherited_nests (hcount : ∀ x, S.count x ≤ k) : Node.IsInherited (Nests c P k S) :=
  .imp fun _ ↦ Node.isInherited_nestsWithin hcount

/-- Whatever is found for a class nests below the open classes. -/
theorem IsBounded.nests {m : BuildMemory} (h : IsBounded c P k m) {className : String}
    {generics : List DataType} {nullable : Bool} {node : Node}
    (ht : P (.mk (.object className generics) nullable))
    (hfind : Entries.find? m.memo
      ((object className generics).text, Depths.ofStack (S ++ [className])) = some node) :
    Nests c P k S node := by
  intro htells
  obtain ⟨S', className', generics', nullable', hnames', ht', hkey, hnests⟩ := h.memo _ _ hfind
  obtain ⟨htext, hdepths⟩ := Prod.mk.inj hkey
  have hperm := Depths.perm_of_ofStack hdepths
  -- The last open class is among those that the entry was built below, or is its own.
  have hclass : className = className' := by
    refine htells _ _ _ _ _ _ (hnames' _ ?_) (hnames' _ (by simp)) ht ht' htext
    exact hperm.mem_iff.mp (by simp)
  subst hclass
  exact (hnests htells).congr ((List.perm_append_right_iff _).mp hperm).symm

theorem IsBounded.put {m : BuildMemory} (h : IsBounded c P k m) {className : String}
    {generics : List DataType} {nullable : Bool} {node : Node}
    (hnames : ∀ x ∈ S ++ [className], x ∈ c.registry.classNames)
    (ht : P (.mk (.object className generics) nullable)) (hnests : Nests c P k S node) :
    let key := ((object className generics).text, Depths.ofStack (S ++ [className]))
    IsBounded c P k { m with memo := Entries.put m.memo key node } := by
  intro key
  exact ⟨h.metadata, Entries.forall_find?_put h.memo
    ⟨S, className, generics, nullable, hnames, ht, rfl, hnests⟩⟩

/-- The properties of an open class open only what can be opened. -/
theorem properties_disciplined (hhooks : c.config.hooks.isEmpty = true)
    (hbound : maxOpen c.policy ≤ 2 ^ 64) (hP : c.Keeps P) (hF : Discipline c P k E F)
    (t : DataType) {className : String} {generics : List DataType}
    (hopened : IsWithin c.policy (S ++ [className])) (hcan : F S className generics)
    (hgenerics : ∀ g ∈ generics, P g) {templates : List String}
    (htemplates : c.registry.templates className = .ok templates)
    (hlen : templates.length = generics.length) :
    InStep (.alone (IsBounded c P k) E) (S ++ [className]) (S ++ [className])
      (PropertyMap.HasTypes (Allows P F (S ++ [className])))
      (properties c t className (metadataFor templates generics (S ++ [className])))
      (properties c t className (metadataFor templates generics (S ++ [className]))) := by
  refine properties_alone_of_isEmpty hhooks (fun m hooks hm ↦ ⟨hm.metadata, hm.memo⟩) ?_
  refine loadMetadata_alone fun m hm ↦ ?_
  have hregular : MetadataRequest.IsRegular c.registry (· = c.config) P
      (c.request className (metadataFor templates generics (S ++ [className]))) :=
    isRegular_of_isWithin hbound hopened htemplates hlen hgenerics _ rfl
  obtain ⟨hafter, hloaded⟩ := hm.metadata.load hregular
  refine ⟨⟨hafter, hm.memo⟩, fun properties hok ↦ ?_, fun error _ ↦ hF.configuration error⟩
  obtain ⟨q, hq, hfeed, hload⟩ := hloaded properties hok
  intro entry hentry
  exact ⟨hP.loads hq hload entry hentry, hF.properties hcan htemplates hlen
    (c.loads_of_feed_eq hregular hq hfeed hload) entry hentry⟩

/-- Given classes that are entered under the discipline, a type is built under it. -/
theorem toNode_disciplined (hP : c.Keeps P) (hF : Discipline c P k E F)
    (hcount : ∀ x, S.count x ≤ k) {enter : Entering}
    (henter : ∀ className generics nullable, className ∉ dateTimeClasses →
      Allows P F S (mk (.object className generics) nullable) →
        InStep (.alone (IsBounded c P k) E) S S (Nests c P k S)
          (enter (mk (.object className generics) nullable) className generics)
          (enter (mk (.object className generics) nullable) className generics))
    {t : DataType} (ht : Allows P F S t) :
    InStep (.alone (IsBounded c P k) E) S S (Nests c P k S) (t.toNode c enter)
      (t.toNode c enter) := by
  refine toNode_inStep (.refl c) (T := Allows P F S) ?_ henter t ht
  exact Lockstep.carries_alone (isHereditary_allows hP.hereditary) (isInherited_nests hcount)
    fun _ error _ _ ↦ hF.configuration error

/-- Given types that are built under the discipline, a class that can be opened is. -/
theorem classNode_disciplined (hhooks : c.config.hooks.isEmpty = true)
    (hbound : maxOpen c.policy ≤ 2 ^ 64) (hP : c.Keeps P) (hF : Discipline c P k E F)
    {t : DataType} {className : String} {generics : List DataType}
    (hopened : IsWithin c.policy (S ++ [className])) (hcan : F S className generics)
    (hcount : ∀ x, (S ++ [className]).count x ≤ k) (hgenerics : ∀ g ∈ generics, P g)
    {node : DataType → Build Node}
    (hnode : className ∈ c.registry.classNames → ∀ u, Allows P F (S ++ [className]) u →
      InStep (.alone (IsBounded c P k) E) (S ++ [className]) (S ++ [className])
        (Nests c P k (S ++ [className])) (node u) (node u)) :
    InStep (.alone (IsBounded c P k) E) S S
      (fun built ↦ className ∈ c.registry.classNames ∧ Nests c P k S built)
      (classNode c node t className generics) (classNode c node t className generics) := by
  refine classNode_inStep (.refl c) (Q := fun properties ↦ className ∈ c.registry.classNames ∧
    properties.HasTypes (Allows P F (S ++ [className]))) ?_ ?_ ?_ ?_
  · exact fun error _ ↦ ⟨rfl, hF.configuration error⟩
  · exact fun _ _ _ ↦ ⟨rfl, hF.configuration _⟩
  · intro templates htemplates hlen
    refine .mono (fun _ h ↦ ⟨Registry.mem_classNames htemplates, h⟩) ?_
    exact properties_disciplined hhooks hbound hP hF _ hopened hcan hgenerics htemplates hlen
  rintro map ⟨hmem, hmap⟩
  refine .mono (fun nodes hnodes ↦ ⟨hmem, fun htells ↦ ?_⟩)
    (propertyNodes_inStep_of_isEmpty hhooks hhooks hmap (hnode hmem))
  exact Node.nestsWithin_object hcount fun p hp ↦ hnodes p hp htells

/-- A class that can be opened is entered under the discipline, with fuel for as many classes as can
be opened in it. -/
theorem enter_disciplined (hhooks : c.config.hooks.isEmpty = true)
    (hbound : maxOpen c.policy ≤ 2 ^ 64) (hP : c.Keeps P) (hF : Discipline c P k E F) {fuel : Nat}
    (hfuel : fuelFor c ≤ fuel + S.length) (hnames : ∀ x ∈ S, x ∈ c.registry.classNames)
    (hwithin : IsWithin c.policy S) (hcount : ∀ x, S.count x ≤ k) {className : String}
    {generics : List DataType} {nullable : Bool} (hclass : className ∉ dateTimeClasses)
    (ht : Allows P F S (mk (.object className generics) nullable)) :
    InStep (.alone (IsBounded c P k) E) S S (Nests c P k S)
      (enter c fuel (mk (.object className generics) nullable) className generics)
      (enter c fuel (mk (.object className generics) nullable) className generics) := by
  -- Fuel is left as long as the policy is kept. The bound of the discipline may be a smaller one.
  have hlt := length_lt_fuelFor hnames hwithin
  induction fuel generalizing S className generics nullable with
  | zero => omega
  | succ fuel ih =>
    have hcan : F S className generics := ht.opens _ _ (.object nullable hclass)
    have hnames' (hmem : className ∈ c.registry.classNames) :
        ∀ x ∈ S ++ [className], x ∈ c.registry.classNames :=
      List.forall_mem_append.mpr ⟨hnames, List.forall_mem_singleton.mpr hmem⟩
    unfold enter
    refine enterStep_alone (B := fun node ↦ className ∈ c.registry.classNames ∧ Nests c P k S node)
      (hF.fails hcan hwithin) (fun m node hm hfind ↦ hm.nests ht.kind hfind)
      (fun m node hm hnode ↦ hm.put (hnames' hnode.1) ht.kind hnode.2) (fun _ h ↦ h.2)
      fun hopen ↦ ?_
    have hopened : IsWithin c.policy (S ++ [className]) := hwithin.open hopen
    have hcount' := count_concat_le hcount (hF.enters hcan hopen)
    refine classNode_disciplined hhooks hbound hP hF hopened hcan hcount' (hP.generics ht.kind)
      fun hmem u hu ↦ toNode_disciplined hP hF hcount' (fun inner others nullable hinner hu ↦ ?_) hu
    refine ih ?_ (hnames' hmem) hopened hcount' hinner hu (length_lt_fuelFor (hnames' hmem) hopened)
    rw [List.length_append, List.length_singleton]
    omega

/-- What a build answers under a discipline. -/
theorem node_of_discipline (hhooks : c.config.hooks.isEmpty = true)
    (hbound : maxOpen c.policy ≤ 2 ^ 64) (hP : c.Keeps P) (hF : Discipline c P k E F) {t : DataType}
    (ht : Allows P F [] t) {s : BuildState} (hstack : s.stack = [])
    (hs : IsBounded c P k s.toBuildMemory) :
    (∀ built after, node c t s = .ok built after → Nests c P k [] built) ∧
      ∀ failure after, node c t s = .error failure after → E failure := by
  have hnil : ∀ x, ([] : List String).count x ≤ k := fun _ ↦ Nat.zero_le k
  have hstep : InStep (.alone (IsBounded c P k) E) [] [] (Nests c P k []) (node c t) (node c t) :=
    toNode_disciplined hP hF hnil (fun className generics nullable hclass hu ↦
      enter_disciplined hhooks hbound hP hF (Nat.le_refl _) (fun _ h ↦ absurd h List.not_mem_nil)
        (isWithin_nil _) hnil hclass hu) ht
  have hrun := hstep.run hstack hs
  cases hnode : node c t s with
  | ok built after =>
    rw [hnode] at hrun
    refine ⟨?_, fun _ _ h ↦ nomatch h⟩
    rintro _ _ ⟨⟩
    exact hrun.1
  | error failure after =>
    rw [hnode] at hrun
    refine ⟨fun _ _ h ↦ (nomatch h), ?_⟩
    rintro _ _ ⟨⟩
    exact hrun.1

/-! ## Circular references that are rejected -/

/-- A failure that is no circular reference, or one whose chain can be gone from the type and meets
the class twice. -/
def IsCycle (c : BuildContext) (P : DataType → Prop) (t : DataType) (failure : Failure) : Prop :=
  ∀ className chain, failure = .circularReference className chain →
    ∃ classes generics, chain = " -> ".intercalate (classes ++ [className]) ∧
      c.Reaches (c.Loads P) t (classes ++ [className]) generics ∧
        (classes ++ [className]).count className = 2

theorem discipline_reject (hpolicy : c.policy = .reject) (t : DataType) :
    Discipline c P 1 (IsCycle c P t) fun S className generics ↦
      c.Reaches (c.Loads P) t (S ++ [className]) generics where
  enters _ hopen := by
    rw [hpolicy] at hopen
    exact count_lt_of_isTooDeep hopen
  fails {S className generics} hreach hwithin hdeep := by
    rintro _ _ ⟨⟩
    rw [hpolicy] at hwithin hdeep
    refine ⟨S, generics, rfl, hreach, ?_⟩
    have hmem : className ∈ S := List.contains_iff_mem.mp hdeep
    have hone : S.count className = 1 :=
      Nat.le_antisymm (hwithin className) (List.count_pos_iff.mpr hmem)
    rw [List.count_append, hone, List.count_singleton_self]
  configuration error := by
    rintro _ _ ⟨⟩
  properties hreach htemplates hlen hloads entry hentry inner others hopens :=
    hreach.property htemplates hlen hloads hentry hopens

theorem allows_reject {t : DataType} (ht : P t) :
    Allows P (fun S className generics ↦ c.Reaches (c.Loads P) t (S ++ [className]) generics)
      [] t :=
  ⟨ht, fun _ _ hopens ↦ .root hopens⟩

/-- For a type that a type string denotes, nothing depends on what names look like, and the chain of
a circular reference is a way through properties as the pipeline loads them. -/
theorem node_rejects_of_resolve (hc : c.IsPlain) (hpolicy : c.policy = .reject) {text : String}
    {t : DataType} (ht : c.registry.resolve text [] = .ok t) {s : BuildState}
    (hstack : s.stack = []) (hmemo : s.memo = [])
    (hcache : s.metadata.Holds c.registry (· = c.config) c.registry.Denotes c.pipeline) :
    (∀ built after, node c t s = .ok built after → ∀ path, built.HasPath path → path.Nodup) ∧
      ∀ className chain after, node c t s = .error (.circularReference className chain) after →
        ∃ classes generics, chain = " -> ".intercalate (classes ++ [className]) ∧
          c.Reaches (fun className metadata properties ↦
            c.pipeline.load (c.request className metadata) = .ok properties) t
              (classes ++ [className]) generics ∧ (classes ++ [className]).count className = 2 := by
  have hdenotes : c.registry.Denotes t := Registry.denotes_of_resolve ht
  have hbound : maxOpen c.policy ≤ 2 ^ 64 := by
    rw [hpolicy]
    exact Nat.one_le_two_pow
  have hs : IsBounded c c.registry.Denotes 1 s.toBuildMemory := by
    refine ⟨hcache, fun key node hfind ↦ ?_⟩
    rw [hmemo] at hfind
    cases hfind
  obtain ⟨hok, hfail⟩ := node_of_discipline hc.hooks hbound hc.keeps_denotes
    (discipline_reject hpolicy t) (allows_reject hdenotes) hstack hs
  refine ⟨fun built after hbuilt path hpath ↦ ?_, fun className chain after herror ↦ ?_⟩
  · exact List.nodup_iff_count_le_one.mpr fun x ↦
      hok built after hbuilt c.registry.tellsApart_denotes path hpath x
  · obtain ⟨classes, generics, hchain, hreach, hcount⟩ := hfail _ after herror className chain rfl
    exact ⟨classes, generics, hchain, (hreach.load hc hdenotes).2, hcount⟩

/-! ## Greatest depths -/

end Build

end TypedJson
