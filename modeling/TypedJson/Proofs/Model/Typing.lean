import TypedJson.Proofs.Metadata.Cache
import TypedJson.Proofs.Model.Nodes

/-!
# Well-typed builds do not go wrong

A type that the resolver answers names classes and enumerations that exist, each class with as many
parameters as it declares, and the stages keep it that way: whatever they do to the types of
properties, types of the registry are left. As a build meets no other types, it is never refused for
a name, a number of parameters, an unbound template parameter or a key.
-/

namespace TypedJson

open DataType Outcome

/-- The error says that a name, a number of parameters or a type does not fit. -/
def ConfigError.IsIllTyped : ConfigError → Prop
  | unknownClass _ | genericsMismatch _ _ _ | invalidType _ _ => True
  | _ => False

/-! ## Errors of stages -/

theorem Formatters.failsWithin_types (formatters : Formatters) (name : String) :
    FailsWithin (¬·.IsIllTyped) (formatters.types name) := by
  refine .bind ?_ fun f _ ↦ ?_
  · unfold find
    split
    · exact .ok _
    · exact .error id
  · unfold Formatter.types
    dsimp only
    split
    · exact .error id
    · exact .error id
    · split
      · exact .error id
      · exact .error id
      · exact .ok _

/-- A property that does not resolve is an error of the property. -/
theorem Registry.failsWithin_propertyType {r : Registry} {className : String} {c : ClassDescriptor}
    (hc : r.findClass className = .ok c) (property : String) :
    FailsWithin (¬·.IsIllTyped) (r.propertyType className property) := by
  unfold propertyType
  rw [hc]
  refine .bind (.ok c) fun c _ ↦ ?_
  split
  · exact .error id
  · split
    · exact .ok _
    · exact .error id

theorem failsWithin_checkDateTimeFormat (pattern : String) :
    FailsWithin (¬·.IsIllTyped) (checkDateTimeFormat pattern) := by
  unfold checkDateTimeFormat
  split
  · exact .ok _
  · exact .error id

theorem Config.failsWithin_circularPolicy (config : Config) :
    FailsWithin (¬·.IsIllTyped) config.circularPolicy := by
  unfold circularPolicy
  split
  · exact .error id
  · exact .ok _
  · split
    · exact .ok _
    · exact .error id

namespace Stage

variable {request : MetadataRequest}

theorem failsWithin_forEach {E : ConfigError → Prop}
    {change : String → Property → Except ConfigError (Option Property)}
    (h : ∀ key p, FailsWithin E (change key p)) (properties : PropertyMap) :
    FailsWithin E (forEach change properties) := by
  induction properties with
  | nil => exact .ok _
  | cons first rest ih => exact .bind (h _ _) fun _ _ ↦ .bind ih fun _ _ ↦ .ok _

theorem failsWithin_declared {c : ClassDescriptor}
    (hc : request.registry.findClass request.className = .ok c) (names : List String) :
    FailsWithin (¬·.IsIllTyped) (declared request names) := by
  induction names with
  | nil => exact .ok _
  | cons name names ih =>
    exact .bind (Registry.failsWithin_propertyType hc name) fun _ _ ↦ .bind ih fun _ _ ↦ .ok _

theorem failsWithin_attach (directives : List Directive) (p : Property) :
    FailsWithin (¬·.IsIllTyped) (attach request directives p) := by
  unfold attach
  split
  · exact .ok _
  · exact .bind (Formatters.failsWithin_types _ _) fun _ _ ↦ .ok _

theorem failsWithin_limit (defaultLimit : Nat) (directives : List Directive) (p : Property) :
    FailsWithin (¬·.IsIllTyped) (limit request defaultLimit directives p) := by
  unfold limit
  dsimp only
  split
  · split
    · exact .ok _
    · exact .bind (Formatters.failsWithin_types _ _) fun _ _ ↦ .ok _
  · exact .ok _

theorem failsWithin_apply {c : ClassDescriptor}
    (hc : request.registry.findClass request.className = .ok c) (stage : Stage)
    (properties : PropertyMap) : FailsWithin (¬·.IsIllTyped) (stage.apply request properties) := by
  cases stage with
  | base =>
    refine .bind (x := request.registry.propertyNames request.className) ?_ fun names _ ↦
      failsWithin_declared hc names
    unfold Registry.propertyNames
    rw [hc]
    exact .ok _
  | rename | generics => exact .ok _
  | formatter => exact failsWithin_forEach (fun _ _ ↦ (failsWithin_attach _ _).map _) properties
  | dateTime =>
    unfold apply
    dsimp only
    split
    · exact .bind (failsWithin_checkDateTimeFormat _) fun _ _ ↦ .ok _
    · exact .ok _
  | maxDepth =>
    refine .bind (Config.failsWithin_circularPolicy _) fun policy _ ↦ ?_
    cases policy with
    | reject => exact .ok _
    | maxDepth limit => exact failsWithin_forEach (fun _ _ ↦ failsWithin_limit _ _ _) properties
  | groups =>
    unfold apply
    dsimp only
    split
    · exact .ok _
    · exact .ok _

end Stage

/-- Loading the properties of a class that exists fails for no type that does not fit. -/
theorem Pipeline.failsWithin_load {request : MetadataRequest} {c : ClassDescriptor}
    (hc : request.registry.findClass request.className = .ok c) (pipeline : Pipeline) :
    FailsWithin (¬·.IsIllTyped) (pipeline.load request) := by
  have key : ∀ properties, FailsWithin (¬·.IsIllTyped)
      (pipeline.foldlM (fun properties stage ↦ Stage.apply stage request properties)
        properties) := by
    induction pipeline with
    | nil => exact fun properties ↦ .ok properties
    | cons stage stages ih =>
      intro properties
      rw [List.foldlM_cons]
      exact .bind (Stage.failsWithin_apply hc stage properties) fun changed _ ↦ ih changed
  exact key []

/-! ## Types of the registry -/

/-- A class that is entered for a type of the registry exists, with the parameters it is given. -/
theorem Registry.Denotes.templates {r : Registry} {className : String} {generics : List DataType}
    {nullable : Bool} (h : r.Denotes (DataType.mk (.object className generics) nullable))
    (hclass : className ∉ dateTimeClasses) :
    ∃ templates, r.templates className = .ok templates ∧ templates.length = generics.length := by
  cases denotes_iff.mp h with
  | dateTime _ _ htime => exact absurd htime hclass
  | object _ _ _ _ hlookup _ =>
    unfold Registry.lookup at hlookup
    unfold Registry.templates Registry.findClass
    dsimp only at hlookup
    split at hlookup
    · next c hc => exact ⟨c.templates, rfl, NameKind.className.inj (Option.some.inj hlookup)⟩
    · obtain ⟨e, -, he⟩ := Option.map_eq_some_iff.mp hlookup
      cases he

/-- A type of the registry is refused for an ambiguous union at most. -/
theorem Registry.Denotes.refused {r : Registry} {t : DataType} (h : r.Denotes t)
    {error : ConfigError} (hrefused : t.Refused r error) : ¬error.IsIllTyped := by
  cases hrefused with
  | union => exact id
  | key value nullable hint hstring =>
    cases denotes_iff.mp h with
    | dict _ hkey _ => exact (hkey.elim hint hstring).elim
  | enum backing nullable herror =>
    cases denotes_iff.mp h with
    | enum _ _ _ _ hlookup =>
      unfold Registry.lookup at hlookup
      unfold Registry.findEnum at herror
      dsimp only at hlookup
      split at hlookup
      · cases hlookup
      · obtain ⟨e, he, -⟩ := Option.map_eq_some_iff.mp hlookup
        rw [he] at herror
        cases herror
  | template name nullable =>
    cases denotes_iff.mp h with
    | template _ _ hmem => exact absurd hmem List.not_mem_nil

/-! ## Builds -/

/-- The types of all cached properties are of a kind. -/
def MetadataCache.HasTypes (P : DataType → Prop) (cache : MetadataCache) : Prop :=
  ∀ feed properties, Entries.find? cache feed = some properties → properties.HasTypes P

theorem MetadataCache.hasTypes_nil {P : DataType → Prop} : HasTypes P [] :=
  fun _ _ h ↦ nomatch h

theorem MetadataCache.HasTypes.load {P : DataType → Prop} {cache : MetadataCache}
    (h : cache.HasTypes P) {pipeline : Pipeline} {request : MetadataRequest}
    (hload : ∀ properties, pipeline.load request = .ok properties → properties.HasTypes P) :
    (cache.load pipeline request).2.HasTypes P ∧
      (∀ properties, (cache.load pipeline request).1 = .ok properties → properties.HasTypes P) ∧
        ∀ error, (cache.load pipeline request).1 = .error error →
          pipeline.load request = .error error := by
  unfold MetadataCache.load
  split
  · next found hfind =>
    refine ⟨h, fun properties hok ↦ ?_, fun error herror ↦ nomatch herror⟩
    exact Except.ok.inj hok ▸ h _ _ hfind
  · split
    · next loaded hloaded =>
      exact ⟨Entries.forall_find?_put h (hload loaded hloaded),
        fun properties hok ↦ hload properties (hloaded.trans hok),
        fun error herror ↦ nomatch herror⟩
    · next error herror =>
      exact ⟨h, fun properties hok ↦ (nomatch hok), fun other hother ↦ herror.trans hother⟩

/-- There are no hooks, the signatures of formatters have types of the registry, and template
parameters are replaced after the last stage that declares properties. -/
structure BuildContext.IsPlain (c : BuildContext) : Prop where
  hooks : c.config.hooks.isEmpty = true
  formatters : c.registry.HasSettledFormatters
  closes : c.pipeline.Closes
  generics : .generics ∈ c.pipeline

/-- The failure is not an error in the types. -/
def Failure.IsWellTyped (failure : Failure) : Prop :=
  ∀ error, failure = .configuration error → ¬error.IsIllTyped

namespace Build

variable {c : BuildContext} {S : List String}

/-- A build over properties with types of the registry that fails for nothing in the types. -/
abbrev GoesRight {α : Type} (c : BuildContext) (S : List String) (P : α → Prop) (x : Build α) :
    Prop :=
  InStep (.alone (fun m ↦ m.metadata.HasTypes c.registry.Denotes) Failure.IsWellTyped) S S P x x

theorem isWellTyped_configuration {error : ConfigError} (h : ¬error.IsIllTyped) :
    (Failure.configuration error).IsWellTyped := by
  rintro _ ⟨⟩
  exact h

theorem carries_denotes {M : BuildMemory → Prop} :
    (Lockstep.alone M Failure.IsWellTyped).Carries c.registry c.registry.Denotes fun _ ↦ True :=
  Lockstep.carries_alone c.registry.isHereditary_denotes Node.isInherited_true fun _ _ ht hrefused ↦
    isWellTyped_configuration (ht.refused hrefused)

/-- The properties of a class that is given types of the registry have such types. -/
theorem hasTypes_load_request (hc : c.IsPlain) {className : String} {templates : List String}
    (htemplates : c.registry.templates className = .ok templates)
    {generics : List DataType} (hlen : templates.length = generics.length)
    (hgenerics : ∀ g ∈ generics, c.registry.Denotes g) (stack : List String)
    {properties : PropertyMap}
    (h : c.pipeline.load (c.request className (metadataFor templates generics stack)) =
      .ok properties) : properties.HasTypes c.registry.Denotes := by
  have hform : Registry.HasSettledFormatters
      (c.request className (metadataFor templates generics stack)).registry := hc.formatters
  exact Pipeline.hasTypes_load hc.closes hc.generics hform htemplates
    (Registry.binds_ofList hlen hgenerics) h

theorem properties_goesRight (hc : c.IsPlain) (t : DataType) {className : String}
    {templates : List String} (htemplates : c.registry.templates className = .ok templates)
    {generics : List DataType} (hlen : templates.length = generics.length)
    (hgenerics : ∀ g ∈ generics, c.registry.Denotes g) (stack : List String) :
    GoesRight c S (PropertyMap.HasTypes c.registry.Denotes)
      (properties c t className (metadataFor templates generics stack)) := by
  refine properties_alone_of_isEmpty hc.hooks (fun m hooks hm ↦ hm) ?_
  refine loadMetadata_alone fun m hm ↦ ?_
  have hcache : m.metadata.HasTypes c.registry.Denotes := hm
  obtain ⟨hafter, hok, hfail⟩ := hcache.load fun properties h ↦
    hasTypes_load_request hc htemplates hlen hgenerics stack h
  refine ⟨hafter, hok, fun error herror ↦ isWellTyped_configuration ?_⟩
  obtain ⟨found, hfound, -⟩ := Outcome.bind_eq_ok.mp htemplates
  exact Pipeline.failsWithin_load hfound _ error (hfail error herror)

theorem enter_goesRight (hc : c.IsPlain) (fuel : Nat) {className : String}
    {generics : List DataType} {nullable : Bool} (hclass : className ∉ dateTimeClasses)
    (ht : c.registry.Denotes (mk (.object className generics) nullable)) :
    GoesRight c S (fun _ ↦ True)
      (enter c fuel (mk (.object className generics) nullable) className generics) := by
  have hcircular : ∀ stack className, (circular stack className).IsWellTyped :=
    fun _ _ _ h ↦ nomatch h
  induction fuel generalizing S className generics nullable with
  | zero => exact enter_zero_inStep ⟨rfl, hcircular _ _⟩
  | succ fuel ih =>
    unfold enter
    refine enterStep_alone (fun _ ↦ hcircular _ _) (fun _ _ _ _ ↦ trivial) (fun _ _ hm _ ↦ hm)
      (fun _ h ↦ h) fun _ ↦ ?_
    obtain ⟨templates, htemplates, hlen⟩ := ht.templates hclass
    refine classNode_inStep (.refl c) (Q := PropertyMap.HasTypes c.registry.Denotes) ?_ ?_ ?_ ?_
    · intro error herror
      rw [htemplates] at herror
      cases herror
    · intro others hothers hne
      obtain rfl := Except.ok.inj (htemplates.symm.trans hothers)
      exact absurd hlen hne
    · intro others hothers _
      obtain rfl := Except.ok.inj (htemplates.symm.trans hothers)
      exact properties_goesRight hc _ htemplates hlen ht.generics _
    intro map hmap
    refine .mono (fun _ _ ↦ trivial) (propertyNodes_inStep_of_isEmpty (N := fun _ ↦ True) hc.hooks
      hc.hooks hmap fun u hu ↦ ?_)
    exact toNode_inStep (.refl c) carries_denotes (fun _ _ _ hclass hu ↦ ih hclass hu) u hu

/-- The node of a type of the registry goes right, whatever classes are open. -/
theorem node_inStep_goesRight (hc : c.IsPlain) {t : DataType} (ht : c.registry.Denotes t) :
    GoesRight c S (fun _ ↦ True) (node c t) :=
  toNode_inStep (.refl c) carries_denotes
    (fun _ _ _ hclass hu ↦ enter_goesRight hc _ hclass hu) t ht

/-- A build leaves properties with types of the registry in the cache. -/
theorem hasTypes_node (hc : c.IsPlain) {t : DataType} (ht : c.registry.Denotes t) {s : BuildState}
    (hcache : s.metadata.HasTypes c.registry.Denotes) :
    match node c t s with
    | .ok _ after | .error _ after => after.metadata.HasTypes c.registry.Denotes := by
  have hrun := (node_inStep_goesRight hc ht).run rfl hcache
  cases hnode : node c t s with
  | ok built after | error failure after =>
    rw [hnode] at hrun
    exact hrun.2.2

/-- A build of a type that the resolver answers fails for no unknown class or enumeration, no wrong
number of parameters, no unbound template parameter and no key of a dictionary, however deep it is.
What is remembered and which classes are open does not matter, and what is cached only needs types
that are resolved as well. -/
theorem node_goesRight (hc : c.IsPlain) {text : String} {t : DataType}
    (ht : c.registry.resolve text [] = .ok t) {s after : BuildState}
    (hcache : s.metadata.HasTypes c.registry.Denotes) {error : ConfigError}
    (h : node c t s = .error (.configuration error) after) : ¬error.IsIllTyped := by
  have hdenotes : c.registry.Denotes t := Registry.denotes_of_resolve ht
  have hrun := (node_inStep_goesRight hc hdenotes).run rfl hcache
  rw [h] at hrun
  exact hrun.1 error rfl

/-- A page holds items of any type, which are labelled, and further pages. -/
theorem node_goesRight_page :
    let page : ClassDescriptor := ⟨"Page", ["T"],
      [("items", ⟨"list<?T>", [.encodeFormatter "label"]⟩), ("next", ⟨"?Page<list<T>>", []⟩)], []⟩
    let label : Formatter := ⟨"label", ⟨.static, [.value .mixed], .value (.list (.scalar .string))⟩,
      fun v _ ↦ return .ok v⟩
    let c : BuildContext := ⟨{ classes := [("Page", page)], formatters := [("label", label)] },
      { maxDepth := some 2 }, .encode, Stage.standard, .maxDepth 2⟩
    let t : DataType := .object "Page" [.scalar .int]
    c.registry.resolve t.text [] = .ok t ∧ c.IsPlain ∧
      ∀ error after, node c t { hooks := { direction := .encode } } =
        .error (.configuration error) after → ¬error.IsIllTyped := by
  intro page label c t
  have hfree : TypeText.IsFree "Page" := by constructor <;> decide
  have hset : Settled ⟨c.registry.lookup, []⟩ t :=
    .object false hfree List.not_mem_nil (by decide) rfl fun u hu ↦ by
      rw [List.mem_singleton.mp hu]
      exact .scalar .int false
  have hform : c.registry.HasSettledFormatters := by
    refine Registry.hasSettledFormatters_of_forall fun entry hentry input output htypes ↦ ?_
    rw [List.mem_singleton.mp hentry] at htypes
    cases htypes
    exact ⟨Registry.denotes_iff.mpr .mixed,
      Registry.denotes_iff.mpr (.list false (.scalar .string false))⟩
  have ht : c.registry.resolve t.text [] = .ok t := hset.resolve_text
  have hc : c.IsPlain := ⟨rfl, hform, Stage.closes_standard, by decide⟩
  exact ⟨ht, hc, fun error after h ↦ node_goesRight hc ht MetadataCache.hasTypes_nil h⟩

end Build

end TypedJson
