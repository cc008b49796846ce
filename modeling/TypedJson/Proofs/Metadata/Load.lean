import TypedJson.Proofs.DataType.Resolved
import TypedJson.Proofs.Metadata.Request

/-!
# What stages look at, and what they leave

Two facts about loading the properties of a class. Stages look at the options only as far as
`Config.Agrees` goes, and at the bound template parameters only to replace them, so requests that
are alike are answered alike. And once template parameters are replaced after the last stage that
brings new ones in, all types are ones that the registry resolves: formatters, points in time and
depth limits put such types in, and the others leave types alone.
-/

namespace TypedJson

/-! ## Requests that are alike -/

/-- The requests differ in nothing but what no stage looks at, and in their template parameters. -/
structure MetadataRequest.Alike (p q : MetadataRequest) : Prop where
  className : p.className = q.className
  direction : p.direction = q.direction
  registry : p.registry = q.registry
  config : p.config.Agrees q.config
  depths : p.context.depths = q.context.depths

namespace Stage

variable {p q : MetadataRequest}

theorem declared_congr (h : p.Alike q) (names : List String) :
    declared p names = declared q names := by
  induction names with
  | nil => rfl
  | cons name names ih => rw [declared, declared, h.className, h.registry, ih]

theorem attach_congr (h : p.Alike q) : attach p = attach q := by
  funext directives property
  rw [attach, attach, h.direction, h.registry]

theorem asText_congr (h : p.Alike q) : asText p = asText q := by
  funext property
  rw [asText, asText, h.direction, h.config.dateTimeFormat]

theorem limit_congr (h : p.Alike q) : limit p = limit q := by
  funext defaultLimit directives property
  rw [limit, limit, h.direction, h.registry, h.depths, h.config.maxDepthFormatter]

theorem isActive_congr {active other : List String} (h : ∀ name, name ∈ active ↔ name ∈ other)
    (directives : List Directive) : isActive active directives = isActive other directives := by
  have hcontains : active.contains = other.contains := by
    funext name
    rw [Bool.eq_iff_iff, List.contains_iff_mem, List.contains_iff_mem]
    exact h name
  rw [isActive, isActive, hcontains]

/-- A stage makes the same of the properties of requests that are alike. -/
theorem apply_congr (stage : Stage) (h : p.Alike q)
    (hgen : stage = .generics → p.context.generics = q.context.generics) :
    stage.apply p = stage.apply q := by
  funext properties
  cases stage with
  | base =>
    simp only [apply, h.registry, h.className]
    congr 1
    funext names
    exact declared_congr h names
  | rename => simp only [apply, h.registry, h.className]
  | formatter => simp only [apply, h.registry, h.className, attach_congr h]
  | dateTime => simp only [apply, h.config.dateTimeFormat, asText_congr h]
  | generics => simp only [apply, hgen rfl]
  | maxDepth => simp only [apply, h.config.policy, h.registry, h.className, limit_congr h]
  | groups =>
    have hempty : p.config.groups.isEmpty = q.config.groups.isEmpty := by
      rw [Bool.eq_iff_iff, List.isEmpty_iff, List.isEmpty_iff, List.eq_nil_iff_forall_not_mem,
        List.eq_nil_iff_forall_not_mem]
      exact forall_congr' fun name ↦ not_congr (h.config.groups name)
    simp only [apply, hempty, h.registry, h.className, isActive_congr h.config.groups]

end Stage

/-- Requests that are alike are answered alike, with the same template parameters if a stage
replaces them. -/
theorem Pipeline.load_congr {p q : MetadataRequest} (pipeline : Pipeline) (h : p.Alike q)
    (hgen : .generics ∈ pipeline → p.context.generics = q.context.generics) :
    pipeline.load p = pipeline.load q := by
  have key : ∀ properties,
      pipeline.foldlM (fun properties stage ↦ Stage.apply stage p properties) properties =
        pipeline.foldlM (fun properties stage ↦ Stage.apply stage q properties) properties := by
    induction pipeline with
    | nil => exact fun _ ↦ rfl
    | cons stage pipeline ih =>
      intro properties
      have hstage := stage.apply_congr h fun hs ↦ hgen (by rw [hs]; exact List.mem_cons_self)
      rw [List.foldlM_cons, List.foldlM_cons, hstage]
      congr 1
      funext others
      exact ih (fun hmem ↦ hgen (List.mem_cons_of_mem _ hmem)) others
  exact key []

/-! ## The types that are left -/

/-- The registry reads the type in the type's own text. -/
def Registry.Denotes (r : Registry) (t : DataType) : Prop := r.resolve t.text [] = .ok t

theorem Registry.denotes_iff {r : Registry} {t : DataType} :
    r.Denotes t ↔ DataType.Settled ⟨r.lookup, []⟩ t :=
  DataType.settled_iff.symm

/-- A type string denotes a type that its own text denotes. -/
theorem Registry.denotes_of_resolve {r : Registry} {text : String} {t : DataType}
    (h : r.resolve text [] = .ok t) : r.Denotes t :=
  denotes_iff.mpr (DataType.settled_of_resolve h)

namespace Registry.Denotes

variable {r : Registry} {nullable : Bool}

theorem item {item : DataType} (h : r.Denotes (DataType.mk (.list item) nullable)) :
    r.Denotes item := by
  cases denotes_iff.mp h with
  | list _ hitem => exact denotes_iff.mpr hitem

theorem value {key value : DataType} (h : r.Denotes (DataType.mk (.dict key value) nullable)) :
    r.Denotes value := by
  cases denotes_iff.mp h with
  | dict _ _ hvalue => exact denotes_iff.mpr hvalue

theorem members {members : List DataType} (h : r.Denotes (DataType.mk (.union members) nullable)) :
    ∀ m ∈ members, r.Denotes m := by
  cases denotes_iff.mp h with
  | union _ hset => exact fun m hm ↦ denotes_iff.mpr (hset m hm)

theorem generics {className : String} {generics : List DataType}
    (h : r.Denotes (DataType.mk (.object className generics) nullable)) :
    ∀ t ∈ generics, r.Denotes t := by
  cases denotes_iff.mp h with
  | dateTime => exact fun t ht ↦ absurd ht List.not_mem_nil
  | object _ _ _ _ _ hgen => exact fun t ht ↦ denotes_iff.mpr (hgen t ht)

theorem nonNull {t : DataType} (h : r.Denotes t) : r.Denotes t.nonNull :=
  denotes_iff.mpr (denotes_iff.mp h).nonNull

theorem eq_of_text {t u : DataType} (ht : r.Denotes t) (hu : r.Denotes u) (h : t.text = u.text) :
    t = u :=
  (denotes_iff.mp ht).eq_of_text (denotes_iff.mp hu) h

end Registry.Denotes

/-- The formatters that can be used for properties have types of the registry. -/
def Registry.HasSettledFormatters (r : Registry) : Prop :=
  ∀ name input output, r.formatters.types name = .ok (input, output) →
    r.Denotes input ∧ r.Denotes output

theorem Registry.hasSettledFormatters_of_forall {r : Registry}
    (h : ∀ entry ∈ r.formatters, ∀ input output, entry.2.types = .ok (input, output) →
      r.Denotes input ∧ r.Denotes output) : r.HasSettledFormatters := by
  intro name input output htypes
  obtain ⟨f, hf, htypes⟩ := Outcome.bind_eq_ok.mp htypes
  unfold Formatters.find at hf
  split at hf
  · next found hfind =>
    obtain rfl := Except.ok.inj hf
    exact h _ (Entries.mem_of_find? hfind) _ _ htypes
  · cases hf

/-- All types of the properties are of a kind. -/
def PropertyMap.HasTypes (P : DataType → Prop) (properties : PropertyMap) : Prop :=
  ∀ entry ∈ properties, P entry.2.type

/-- If template parameters are replaced at all, they are replaced after the last stage that declares
properties. -/
def Pipeline.Closes (pipeline : Pipeline) : Prop :=
  .generics ∈ pipeline →
    ∃ before after, pipeline = before ++ .generics :: after ∧ .base ∉ after

theorem Stage.closes_standard : Pipeline.Closes Stage.standard :=
  fun _ ↦ ⟨[.base, .rename, .formatter, .dateTime], [.maxDepth, .groups], rfl, by decide⟩

open DataType

namespace Stage

variable {P : DataType → Prop} {request : MetadataRequest} {properties changed : PropertyMap}

theorem hasTypes_forEach {Q : DataType → Prop}
    {change : String → Property → Except ConfigError (Option Property)}
    (hchange : ∀ key p p', P p.type → change key p = .ok (some p') → Q p'.type)
    (hP : properties.HasTypes P) (h : forEach change properties = .ok changed) :
    changed.HasTypes Q := by
  induction properties generalizing changed with
  | nil =>
    cases h
    exact fun _ h ↦ absurd h List.not_mem_nil
  | cons first rest ih =>
    obtain ⟨key, p⟩ := first
    obtain ⟨p', hp', h⟩ := Outcome.bind_eq_ok.mp h
    obtain ⟨others, hothers, h⟩ := Outcome.bind_eq_ok.mp h
    have hrest := ih (fun e he ↦ hP e (List.mem_cons_of_mem _ he)) hothers
    cases p' with
    | none =>
      cases h
      exact hrest
    | some p' =>
      cases h
      intro entry hentry
      rcases List.mem_cons.mp hentry with rfl | hentry
      · exact hchange key p p' (hP _ List.mem_cons_self) hp'
      · exact hrest entry hentry

theorem type_attach (hform : request.registry.HasSettledFormatters)
    (hden : ∀ t, request.registry.Denotes t → P t) {directives : List Directive}
    {p p' : Property} (hp : P p.type) (h : attach request directives p = .ok p') : P p'.type := by
  unfold attach at h
  split at h
  · cases h
    exact hp
  · obtain ⟨⟨input, output⟩, htypes, h⟩ := Outcome.bind_eq_ok.mp h
    cases h
    obtain ⟨hinput, houtput⟩ := hform _ _ _ htypes
    dsimp only
    split
    · exact hden _ houtput
    · exact hden _ hinput

theorem type_asText (hden : ∀ t, request.registry.Denotes t → P t) {p : Property} (hp : P p.type) :
    P (asText request p).type := by
  unfold asText
  split
  · exact hden _ (Registry.denotes_iff.mpr ((Settled.scalar .string false).nullableIf _))
  · exact hp

theorem type_limit (hform : request.registry.HasSettledFormatters)
    (hden : ∀ t, request.registry.Denotes t → P t) {defaultLimit : Nat}
    {directives : List Directive} {p p' : Property} (hp : P p.type)
    (h : limit request defaultLimit directives p = .ok (some p')) : P p'.type := by
  unfold limit at h
  dsimp only at h
  split at h
  · split at h
    · cases h
    · obtain ⟨⟨input, output⟩, htypes, h⟩ := Outcome.bind_eq_ok.mp h
      cases h
      have houtput := Registry.denotes_iff.mp (hform _ _ _ htypes).2
      exact hden _ (Registry.denotes_iff.mpr (houtput.nullableIf _))
  · cases h
    exact hp

theorem apply_dateTime (h : Stage.apply .dateTime request properties = .ok changed) :
    changed = properties.map fun (key, p) ↦ (key, asText request p) := by
  unfold apply at h
  dsimp only at h
  split at h
  · obtain ⟨-, -, h⟩ := Outcome.bind_eq_ok.mp h
    exact (Except.ok.inj h).symm
  · exact (Except.ok.inj h).symm

/-- Names and groups have nothing to do with types. -/
theorem hasTypes_apply_of_plain {stage : Stage} (hplain : stage = .rename ∨ stage = .groups)
    (hP : properties.HasTypes P) (h : stage.apply request properties = .ok changed) :
    changed.HasTypes P := by
  rcases hplain with rfl | rfl
  · cases h
    intro entry hentry
    obtain ⟨⟨key, p⟩, hmem, rfl⟩ := List.mem_map.mp hentry
    exact hP (key, p) hmem
  · unfold apply at h
    dsimp only at h
    split at h
    · cases h
      exact hP
    · cases h
      exact fun entry hentry ↦ hP entry (List.mem_filter.mp hentry).1

/-- A stage that neither declares properties nor replaces template parameters keeps types within any
kind that holds the registry's own. -/
theorem hasTypes_apply {stage : Stage} (hbase : stage ≠ .base) (hgen : stage ≠ .generics)
    (hform : request.registry.HasSettledFormatters)
    (hden : ∀ t, request.registry.Denotes t → P t) (hP : properties.HasTypes P)
    (h : stage.apply request properties = .ok changed) : changed.HasTypes P := by
  cases stage with
  | base => exact (hbase rfl).elim
  | generics => exact (hgen rfl).elim
  | rename => exact hasTypes_apply_of_plain (.inl rfl) hP h
  | groups => exact hasTypes_apply_of_plain (.inr rfl) hP h
  | formatter =>
    refine hasTypes_forEach (fun key p p' hp hchange ↦ ?_) hP h
    obtain ⟨q, hq, hsome⟩ := Outcome.map_eq_ok.mp hchange
    rw [← Option.some.inj hsome]
    exact type_attach hform hden hp hq
  | dateTime =>
    rw [apply_dateTime h]
    intro entry hentry
    obtain ⟨⟨key, p⟩, hmem, rfl⟩ := List.mem_map.mp hentry
    exact type_asText hden (hP (key, p) hmem)
  | maxDepth =>
    obtain ⟨policy, -, h⟩ := Outcome.bind_eq_ok.mp h
    cases policy with
    | reject =>
      cases h
      exact hP
    | maxDepth defaultLimit =>
      exact hasTypes_forEach (fun key p p' hp hchange ↦ type_limit hform hden hp hchange) hP h

/-- Declared properties have types in the scope of the class's template parameters. -/
theorem hasTypes_declared {templates : List String}
    (htemplates : request.registry.templates request.className = .ok templates)
    {names : List String} (h : declared request names = .ok changed) :
    changed.HasTypes (Settled ⟨request.registry.lookup, templates⟩) := by
  induction names generalizing changed with
  | nil =>
    cases h
    exact fun _ h ↦ absurd h List.not_mem_nil
  | cons name names ih =>
    obtain ⟨t, ht, h⟩ := Outcome.bind_eq_ok.mp h
    obtain ⟨others, hothers, h⟩ := Outcome.bind_eq_ok.mp h
    cases h
    intro entry hentry
    rcases List.mem_cons.mp hentry with rfl | hentry
    · obtain ⟨c, hc, ht⟩ := Outcome.bind_eq_ok.mp ht
      obtain ⟨c', hc', hsame⟩ := Outcome.bind_eq_ok.mp htemplates
      rw [hc] at hc'
      obtain rfl := Except.ok.inj hc'
      obtain rfl := Except.ok.inj hsame
      split at ht
      · cases ht
      · split at ht
        · next hres =>
          obtain rfl := Except.ok.inj ht
          exact settled_of_resolve hres
        · cases ht
    · exact ih hothers entry hentry

theorem hasTypes_generics {templates : List String}
    (hbinds : Binds ⟨request.registry.lookup, templates⟩ request.context.generics)
    (hP : properties.HasTypes fun t ↦
      Settled ⟨request.registry.lookup, templates⟩ t ∨ request.registry.Denotes t)
    (h : Stage.apply .generics request properties = .ok changed) :
    changed.HasTypes request.registry.Denotes := by
  cases h
  intro entry hentry
  obtain ⟨⟨key, p⟩, hmem, rfl⟩ := List.mem_map.mp hentry
  refine Registry.denotes_iff.mpr ?_
  rcases hP _ hmem with ht | ht
  · exact hbinds.substitute ht
  · have hclosed : Binds ⟨request.registry.lookup, []⟩ request.context.generics :=
      ⟨fun _ h ↦ absurd h List.not_mem_nil, hbinds.settled⟩
    exact hclosed.substitute (Registry.denotes_iff.mp ht)

end Stage

section Load

variable {request : MetadataRequest} {templates : List String}

/-- Before template parameters are replaced, types are in the scope of the class or of the registry
alone. -/
theorem Pipeline.hasTypes_open {stages : Pipeline} {properties changed : PropertyMap}
    (hform : request.registry.HasSettledFormatters)
    (htemplates : request.registry.templates request.className = .ok templates)
    (hbinds : Binds ⟨request.registry.lookup, templates⟩ request.context.generics)
    (hP : properties.HasTypes fun t ↦
      Settled ⟨request.registry.lookup, templates⟩ t ∨ request.registry.Denotes t)
    (h : stages.foldlM (fun properties stage ↦ Stage.apply stage request properties) properties =
      .ok changed) :
    changed.HasTypes fun t ↦
      Settled ⟨request.registry.lookup, templates⟩ t ∨ request.registry.Denotes t := by
  induction stages generalizing properties with
  | nil =>
    cases h
    exact hP
  | cons stage stages ih =>
    obtain ⟨next, hnext, h⟩ := Outcome.bind_eq_ok.mp h
    refine ih ?_ h
    by_cases hbase : stage = .base
    · subst hbase
      obtain ⟨names, -, hnext⟩ := Outcome.bind_eq_ok.mp hnext
      exact fun entry hentry ↦ .inl (Stage.hasTypes_declared htemplates hnext entry hentry)
    by_cases hgen : stage = .generics
    · subst hgen
      exact fun entry hentry ↦ .inr (Stage.hasTypes_generics hbinds hP hnext entry hentry)
    exact Stage.hasTypes_apply hbase hgen hform (fun _ ↦ .inr) hP hnext

/-- Afterwards they stay in the scope of the registry. -/
theorem Pipeline.hasTypes_closed {stages : Pipeline} {properties changed : PropertyMap}
    (hbase : .base ∉ stages) (hform : request.registry.HasSettledFormatters)
    (hbinds : Binds ⟨request.registry.lookup, templates⟩ request.context.generics)
    (hP : properties.HasTypes request.registry.Denotes)
    (h : stages.foldlM (fun properties stage ↦ Stage.apply stage request properties) properties =
      .ok changed) :
    changed.HasTypes request.registry.Denotes := by
  induction stages generalizing properties with
  | nil =>
    cases h
    exact hP
  | cons stage stages ih =>
    obtain ⟨next, hnext, h⟩ := Outcome.bind_eq_ok.mp h
    refine ih (fun hmem ↦ hbase (List.mem_cons_of_mem _ hmem)) ?_ h
    by_cases hgen : stage = .generics
    · subst hgen
      exact Stage.hasTypes_generics hbinds (fun entry hentry ↦ .inr (hP entry hentry)) hnext
    have hne : stage ≠ .base := fun heq ↦ hbase (by rw [heq]; exact List.mem_cons_self)
    exact Stage.hasTypes_apply hne hgen hform (fun _ ht ↦ ht) hP hnext

/-- Properties that are loaded by a pipeline that replaces template parameters have types of the
registry. -/
theorem Pipeline.hasTypes_load {pipeline : Pipeline} (hcloses : pipeline.Closes)
    (hgen : .generics ∈ pipeline) (hform : request.registry.HasSettledFormatters)
    (htemplates : request.registry.templates request.className = .ok templates)
    (hbinds : Binds ⟨request.registry.lookup, templates⟩ request.context.generics)
    {properties : PropertyMap} (h : pipeline.load request = .ok properties) :
    properties.HasTypes request.registry.Denotes := by
  obtain ⟨before, after, rfl, hbase⟩ := hcloses hgen
  unfold Pipeline.load at h
  rw [List.foldlM_append] at h
  obtain ⟨opened, hopened, h⟩ := Outcome.bind_eq_ok.mp h
  obtain ⟨closed, hclosed, h⟩ := Outcome.bind_eq_ok.mp h
  have hstart : PropertyMap.HasTypes (fun t ↦
      Settled ⟨request.registry.lookup, templates⟩ t ∨ request.registry.Denotes t) [] :=
    fun _ h ↦ absurd h List.not_mem_nil
  have hopen := hasTypes_open hform htemplates hbinds hstart hopened
  exact hasTypes_closed hbase hform hbinds (Stage.hasTypes_generics hbinds hopen hclosed) h

end Load

end TypedJson
