import TypedJson.Proofs.Model.Build
import TypedJson.Proofs.Roundtrip.Models

/-!
# Builds make the nodes that stand for types

Whatever a build answers for a type stands for it. A build remembers classes by the texts of their
types, and loaded properties by bytes. Both tell types of the registry apart, so what is remembered
stands for what it is asked for; this is the invariant of a build. Types of the registry are all
that a build meets.
-/

namespace TypedJson

open DataType

/-! ## Loaded properties -/

/-- No property has a formatter. -/
def Registry.HasNoFormatters (r : Registry) : Prop :=
  ∀ className property, ∀ directive ∈ r.propertyDirectives className property, ∀ name,
    directive ≠ .encodeFormatter name ∧ directive ≠ .decodeFormatter name

theorem Registry.hasNoFormatters_of_forall {r : Registry}
    (h : ∀ c ∈ r.classes, ∀ p ∈ c.2.properties, ∀ directive ∈ p.2.directives, ∀ name,
      directive ≠ .encodeFormatter name ∧ directive ≠ .decodeFormatter name) :
    r.HasNoFormatters := by
  intro className property directive hdirective
  unfold propertyDirectives at hdirective
  split at hdirective
  · next c hc =>
    split at hdirective
    · next p hp => exact h _ (Entries.mem_of_find? hc) _ (Entries.mem_of_find? hp) _ hdirective
    · cases hdirective
  · cases hdirective

/-- Builds treat classes that contain themselves as errors, and leave properties as they are. -/
structure Config.IsBare (config : Config) : Prop where
  policy : config.circularPolicy = .ok .reject
  groups : config.groups = []
  hooks : config.hooks.isEmpty = true

namespace Stage

variable {request : MetadataRequest}

theorem declared_eq_map (names : List String) :
    declared request names = (names.mapM (request.registry.field request.className)).map
      (·.map fun field ↦ (field.1, Property.plain field.1 field.2)) := by
  induction names with
  | nil => rfl
  | cons name names ih =>
    rw [declared, ih, List.mapM_cons, Registry.field]
    cases request.registry.propertyType request.className name with
    | error error => rfl
    | ok t =>
      cases names.mapM (request.registry.field request.className) with
      | error error => rfl
      | ok fields => rfl

theorem forEach_eq_ok (change : String → Property → Except ConfigError (Option Property))
    {properties : PropertyMap}
    (h : ∀ entry ∈ properties, change entry.1 entry.2 = .ok (some entry.2)) :
    forEach change properties = .ok properties := by
  induction properties with
  | nil => rfl
  | cons entry properties ih =>
    rw [forEach, h entry List.mem_cons_self, ih fun e he ↦ h e (List.mem_cons_of_mem _ he)]
    rfl

theorem wanted?_eq_none (hr : request.registry.HasNoFormatters) (direction : Direction)
    (property : String) :
    wanted? direction (request.registry.propertyDirectives request.className property) = none := by
  refine List.findSome?_eq_none_iff.mpr fun directive hdirective ↦ ?_
  have hnone := hr _ _ directive hdirective
  cases directive with
  | encodeFormatter name => exact absurd rfl (hnone name).1
  | decodeFormatter name => exact absurd rfl (hnone name).2
  | _ => rfl

theorem apply_formatter (hr : request.registry.HasNoFormatters) (properties : PropertyMap) :
    apply .formatter request properties = .ok properties := by
  refine forEach_eq_ok _ fun entry _ ↦ ?_
  rw [attach, wanted?_eq_none hr]
  rfl

end Stage

/-- The standard stages show the declared fields. -/
theorem Pipeline.load_standard {request : MetadataRequest}
    (hr : request.registry.HasNoFormatters) (hconfig : request.config.IsBare)
    {properties : PropertyMap} (h : Pipeline.load Stage.standard request = .ok properties) :
    ∃ fields, request.registry.fields request.className = .ok fields ∧
      properties = fields.map fun field ↦
        (field.1, Property.shown request.registry request.config request.direction
          request.className request.context.generics field) := by
  simp only [Pipeline.load, Stage.standard, List.foldlM_cons, List.foldlM_nil] at h
  obtain ⟨declared, hdeclared, h⟩ := Outcome.bind_eq_ok.mp h
  obtain ⟨renamed, hrenamed, h⟩ := Outcome.bind_eq_ok.mp h
  obtain ⟨formatted, hformatted, h⟩ := Outcome.bind_eq_ok.mp h
  obtain ⟨dated, hdated, h⟩ := Outcome.bind_eq_ok.mp h
  obtain ⟨bound, hbound, h⟩ := Outcome.bind_eq_ok.mp h
  obtain ⟨limited, hlimited, h⟩ := Outcome.bind_eq_ok.mp h
  obtain ⟨grouped, hgrouped, h⟩ := Outcome.bind_eq_ok.mp h
  obtain rfl : grouped = properties := Except.ok.inj h
  obtain ⟨names, hnames, hdeclared⟩ := Outcome.bind_eq_ok.mp hdeclared
  rw [Stage.declared_eq_map] at hdeclared
  obtain ⟨fields, hfields, rfl⟩ := Outcome.map_eq_ok.mp hdeclared
  have hlimit : limited = bound := by
    rw [Stage.apply, hconfig.policy] at hlimited
    exact (Except.ok.inj hlimited).symm
  have hgroup : grouped = limited := by
    rw [Stage.apply, hconfig.groups] at hgrouped
    exact (Except.ok.inj hgrouped).symm
  have hdate : dated = formatted.map fun entry ↦ (entry.1, Stage.asText request entry.2) :=
    Stage.apply_dateTime hdated
  rw [Stage.apply_formatter hr] at hformatted
  obtain rfl := Except.ok.inj hformatted
  obtain rfl := Except.ok.inj hrenamed
  obtain rfl := Except.ok.inj hbound
  refine ⟨fields, Outcome.bind_eq_ok.mpr ⟨names, hnames, hfields⟩, ?_⟩
  rw [hgroup, hlimit, hdate, List.map_map, List.map_map, List.map_map]
  rfl

/-! ## Types that are met -/

section

variable {r : Registry} {className : String} {templates : List String}
  {fields : List (String × DataType)}

theorem Registry.settled_of_fields (hfields : r.fields className = .ok fields)
    (htemplates : r.templates className = .ok templates) :
    ∀ field ∈ fields, Settled ⟨r.lookup, templates⟩ field.2 := by
  intro field hfield
  obtain ⟨names, -, hnames⟩ := Outcome.bind_eq_ok.mp hfields
  have hdeclared : Stage.declared ⟨className, .encode, r, {}, {}⟩ names =
      .ok (fields.map fun field ↦ (field.1, Property.plain field.1 field.2)) := by
    rw [Stage.declared_eq_map, hnames]
    rfl
  exact Stage.hasTypes_declared htemplates hdeclared _ (List.mem_map_of_mem hfield)

/-- The types of shown properties are types of the registry. -/
theorem Property.denotes_shown (hfields : r.fields className = .ok fields)
    (htemplates : r.templates className = .ok templates) {bindings : Entries String DataType}
    (hbinds : Binds ⟨r.lookup, templates⟩ bindings) (config : Config) (direction : Direction) :
    ∀ field ∈ fields,
      r.Denotes (Property.shown r config direction className bindings field).type := by
  intro field hfield
  have hsettled := Registry.settled_of_fields hfields htemplates field hfield
  refine Registry.denotes_iff.mpr (hbinds.substitute ?_)
  unfold Stage.asText
  split
  · exact (Settled.scalar .string false).nullableIf _
  · exact hsettled

end

/-! ## What builds yield -/

namespace Build

/-- If a build succeeds, it yields something of a kind. In any case it keeps an invariant. -/
abbrev Yields {α : Type} (M : BuildMemory → Prop) (S : List String) (P : α → Prop) (x : Build α) :
    Prop :=
  InStep (.alone M fun _ ↦ True) S S P x x

variable {M : BuildMemory → Prop} {S : List String} {r : Registry} {config : Config}
  {direction : Direction}

/-! ### From types to nodes -/

theorem unionNode_yields {context : BuildContext} (t : DataType)
    (members : List (DataType × Node)) :
    Yields M S (StandsForUnion direction · members)
      (unionNode context t (members.map (memberCandidate direction))) := by
  match members with
  | [member] => exact .pure rfl
  | [] | _ :: _ :: _ =>
    unfold unionNode
    split
    · next hone => cases hone
    · dsimp only
      split
      · exact .throw ⟨rfl, trivial⟩
      · next hshapes =>
        refine .pure ⟨_, rfl, fun hnone ↦ ?_⟩
        rw [hnone] at hshapes
        simpa [memberCandidate, Function.comp_def] using hshapes

theorem keyKind_yields (t key : DataType) :
    Yields M S (fun kind ↦ key = .scalar kind) (keyKind t key) := by
  unfold keyKind
  split
  · exact .pure rfl
  · exact .pure rfl
  · exact .throw ⟨rfl, trivial⟩

end Build

theorem Registry.backing_of_lookup {r : Registry} {name : String} {backing : ScalarKind}
    {e : EnumDescriptor} (hlookup : r.lookup name = some (.enum backing))
    (he : r.findEnum name = .ok e) : e.backing = backing := by
  unfold Registry.lookup at hlookup
  unfold Registry.findEnum at he
  cases hclass : Entries.find? r.classes name with
  | some c => simp [hclass] at hlookup
  | none =>
    cases henum : Entries.find? r.enums name with
    | none => simp [henum] at he
    | some e' =>
      simp only [hclass, henum, Option.map_some, Option.some.injEq, NameKind.enum.injEq] at hlookup
      simp only [henum, Except.ok.injEq] at he
      rw [← he, hlookup]

namespace Build

variable {M : BuildMemory → Prop} {S : List String} {r : Registry} {config : Config}
  {direction : Direction}

mutual

/-- Given classes that are entered as they should be, a build answers nodes that stand for types. -/
theorem toNode_yields {enter : DataType → String → List DataType → Build Node}
    (henter : ∀ className generics nullable, className ∉ dateTimeClasses →
      r.Denotes (mk (.object className generics) nullable) →
        Yields M S (Models r config direction (mk (.object className generics) false))
          (enter (mk (.object className generics) nullable) className generics))
    (t : DataType) (ht : r.Denotes t) :
    Yields M S (Models r config direction t)
      (t.toNode ⟨r, config, direction, Stage.standard, .reject⟩ enter) := by
  match t with
  | .mk (.union types) nullable =>
    refine .bind (toCandidates_yields henter types ht.members) fun candidates hcandidates ↦ ?_
    obtain ⟨members, hmembers, hmodels, rfl⟩ := hcandidates
    refine .bind (unionNode_yields _ members) fun node hnode ↦ .pure ?_
    cases Registry.denotes_iff.mp ht with
    | union _ _ hleaf _ => exact .union hleaf hmembers hmodels hnode
  | .mk .null nullable => exact .pure (.null nullable)
  | .mk .mixed nullable => exact .pure (.mixed nullable)
  | .mk (.scalar kind) nullable => exact .pure (.scalar kind nullable)
  | .mk (.list item) nullable =>
    exact .bind (toNode_yields henter item ht.item) fun _ h ↦ .pure (.list nullable h)
  | .mk (.dict key value) nullable =>
    refine .bind (keyKind_yields _ key) fun kind hkind ↦ ?_
    refine .bind (toNode_yields henter value ht.value) fun _ h ↦ .pure ?_
    rw [hkind]
    exact .dict nullable h
  | .mk (.object className generics) nullable =>
    unfold DataType.toNode
    dsimp only
    split
    · next hclass => exact .pure (.dateTime generics nullable (List.contains_iff_mem.mp hclass))
    · next hclass =>
      have hnot : className ∉ dateTimeClasses := fun h ↦ hclass (List.contains_iff_mem.mpr h)
      refine .bind (henter className generics nullable hnot ht) fun node h ↦ .pure ?_
      exact h.nullable nullable
  | .mk (.enum className backing) nullable =>
    refine .bind (.lift (P := fun e ↦ r.findEnum className = .ok e) (fun _ h ↦ h)
      fun _ _ ↦ ⟨rfl, trivial⟩) fun e he ↦ .pure ?_
    cases Registry.denotes_iff.mp ht with
    | enum _ _ _ _ hlookup =>
      obtain rfl := Registry.backing_of_lookup hlookup he
      exact .enum nullable he
  | .mk (.template name) _ => exact .throw ⟨rfl, trivial⟩
termination_by structural t

theorem toCandidates_yields {enter : DataType → String → List DataType → Build Node}
    (henter : ∀ className generics nullable, className ∉ dateTimeClasses →
      r.Denotes (mk (.object className generics) nullable) →
        Yields M S (Models r config direction (mk (.object className generics) false))
          (enter (mk (.object className generics) nullable) className generics))
    (types : List DataType) (htypes : ∀ t ∈ types, r.Denotes t) :
    Yields M S (fun candidates ↦ ∃ members : List (DataType × Node),
        members.map (·.1) = types.filter (fun t ↦ !t.isNull) ∧
          (∀ m ∈ members, Models r config direction m.1 m.2) ∧
            candidates = members.map (memberCandidate direction))
      (toCandidates ⟨r, config, direction, Stage.standard, .reject⟩ enter types) := by
  match types with
  | [] => exact .pure ⟨[], rfl, fun _ h ↦ absurd h List.not_mem_nil, rfl⟩
  | t :: types =>
    have hrest := toCandidates_yields henter types fun u hu ↦
      htypes u (List.mem_cons_of_mem _ hu)
    unfold DataType.toCandidates
    split
    · next hnull =>
      rw [List.filter_cons_of_neg (by simp [hnull])]
      exact hrest
    · next hnull =>
      refine .bind (toNode_yields henter t (htypes t List.mem_cons_self)) fun node h ↦ ?_
      refine .bind hrest fun candidates hcandidates ↦ .pure ?_
      obtain ⟨members, hmembers, hmodels, rfl⟩ := hcandidates
      refine ⟨(t, node) :: members, ?_, List.forall_mem_cons.mpr ⟨h, hmodels⟩, rfl⟩
      rw [List.filter_cons_of_pos (by simpa using hnull), List.map_cons, hmembers]
termination_by structural types

end

/-! ### Entering classes -/

/-- What is shown of a class. -/
def shownProperties (r : Registry) (config : Config) (direction : Direction) (className : String)
    (bindings : Entries String DataType) (fields : List (String × DataType)) : PropertyMap :=
  fields.map fun field ↦ (field.1, Property.shown r config direction className bindings field)

theorem propertyNodes_yields (hconfig : config.IsBare) {pipeline : Pipeline}
    {policy : CircularPolicy} {node : DataType → Build Node} (className : String)
    (bindings : Entries String DataType) (fields : List (String × DataType))
    (hnode : ∀ field ∈ fields,
      Yields M S (Models r config direction
          (Property.shown r config direction className bindings field).type)
        (node (Property.shown r config direction className bindings field).type)) :
    Yields M S (fun nodes ↦ ∃ shown : List ((String × DataType) × Node), shown.map (·.1) = fields ∧
        (∀ field ∈ shown, Models r config direction
          (Property.shown r config direction className bindings field.1).type field.2) ∧
          nodes = shown.map fun field ↦
            (Property.shown r config direction className bindings field.1).toNode field.2)
      (propertyNodes ⟨r, config, direction, pipeline, policy⟩ node className
        (shownProperties r config direction className bindings fields)) := by
  induction fields with
  | nil => exact .pure ⟨[], rfl, fun _ h ↦ absurd h List.not_mem_nil, rfl⟩
  | cons field fields ih =>
    have hrest := ih fun other hother ↦ hnode other (List.mem_cons_of_mem _ hother)
    rw [shownProperties, List.map_cons, propertyNodes, hooked,
      Hooks.propertyHook?_of_isEmpty hconfig.hooks]
    refine .bind (P := (· = some (Property.shown r config direction className bindings field)))
      (.pure rfl) ?_
    rintro _ rfl
    refine .bind (hnode field List.mem_cons_self) fun n hn ↦ ?_
    refine .bind hrest fun nodes hnodes ↦ .pure ?_
    obtain ⟨shown, rfl, hmodels, rfl⟩ := hnodes
    exact ⟨(field, n) :: shown, rfl, List.forall_mem_cons.mpr ⟨hn, hmodels⟩, rfl⟩

/-- What a build remembers stands for what it is asked for. -/
structure IsFaithful (r : Registry) (config : Config) (direction : Direction) (m : BuildMemory) :
    Prop where
  memo : ∀ key node, Entries.find? m.memo key = some node → ∃ className generics,
    r.Denotes (mk (.object className generics) false) ∧
      key.1 = (mk (.object className generics) false).text ∧
        Models r config direction (mk (.object className generics) false) node
  metadata : MetadataCache.IsSound r (· = config) Stage.standard m.metadata

theorem IsFaithful.put {m : BuildMemory} (h : IsFaithful r config direction m) {className : String}
    {generics : List DataType}
    (hdenotes : r.Denotes (DataType.mk (.object className generics) false)) (depths : Depths)
    {node : Node}
    (hnode : Models r config direction (DataType.mk (.object className generics) false) node) :
    let key := ((DataType.mk (.object className generics) false).text, depths)
    IsFaithful r config direction { m with memo := Entries.put m.memo key node } :=
  ⟨Entries.forall_find?_put h.memo ⟨className, generics, hdenotes, rfl, hnode⟩, h.metadata⟩

theorem properties_yields (hr : r.HasNoFormatters) (hconfig : config.IsBare)
    {policy : CircularPolicy} (t : DataType) {className : String} {metadata : MetadataContext}
    (hreg : MetadataRequest.IsRegular r (· = config) (Pipeline.Admits Stage.standard r)
      ⟨className, direction, r, config, metadata⟩) :
    Yields (IsFaithful r config direction) S
      (fun map ↦ ∃ fields, r.fields className = .ok fields ∧
        map = shownProperties r config direction className metadata.generics fields)
      (properties ⟨r, config, direction, Stage.standard, policy⟩ t className metadata) := by
  refine properties_alone_of_isEmpty hconfig.hooks (fun m hooks hm ↦ ⟨hm.memo, hm.metadata⟩) ?_
  refine loadMetadata_alone fun m hm ↦ ?_
  obtain ⟨hload, hsound⟩ := hm.metadata.load hreg fun q hq hfeed ↦
    hreg.load_eq_of_config hq hq.config.symm hfeed
  exact ⟨⟨hm.memo, hsound⟩, fun properties h ↦
    Pipeline.load_standard hr hconfig (hload.symm.trans h), fun _ _ ↦ trivial⟩

/-- A class is entered to a node that stands for it. -/
theorem enter_yields (hr : r.HasNoFormatters) (hconfig : config.IsBare) (fuel : Nat)
    (hstack : IsWithin .reject S) {className : String} {generics : List DataType} {nullable : Bool}
    (hclass : className ∉ dateTimeClasses)
    (ht : r.Denotes (mk (.object className generics) nullable)) :
    Yields (IsFaithful r config direction) S
      (Models r config direction (mk (.object className generics) false))
      (enter ⟨r, config, direction, Stage.standard, .reject⟩ fuel
        (mk (.object className generics) nullable) className generics) := by
  induction fuel generalizing S className generics nullable with
  | zero => exact enter_zero_inStep ⟨rfl, trivial⟩
  | succ fuel ih =>
    have hplain : r.Denotes (mk (.object className generics) false) := ht.nonNull
    unfold enter
    refine enterStep_alone (fun _ ↦ trivial) (fun m node hm hfind ↦ ?_)
      (fun m node hm hnode ↦ hm.put hplain _ hnode) (fun _ h ↦ h) fun hopen ↦ ?_
    · obtain ⟨className', generics', hdenotes, htext, hmodels⟩ := hm.memo _ _ hfind
      have hsame := hplain.eq_of_text hdenotes htext
      rw [hsame]
      exact hmodels
    have hopened : IsWithin .reject (S ++ [className]) := hstack.open hopen
    have hgenerics := ht.generics
    refine classNode_inStep (.refl _) (Q := fun map ↦ ∃ templates fields,
      r.templates className = .ok templates ∧ templates.length = generics.length ∧
        r.fields className = .ok fields ∧ map = shownProperties r config direction className
          (Entries.ofList (templates.zip generics)) fields) ?_ ?_ ?_ ?_
    · exact fun _ _ ↦ ⟨rfl, trivial⟩
    · exact fun _ _ _ ↦ ⟨rfl, trivial⟩
    · intro templates htemplates hlen
      refine .mono ?_ (properties_yields hr hconfig _ (isRegular_of_isWithin Nat.one_le_two_pow
        hopened htemplates hlen (fun g hg _ ↦ hgenerics g hg) _ rfl))
      rintro map ⟨fields, hfields, hmap⟩
      exact ⟨templates, fields, htemplates, hlen, hfields, hmap⟩
    rintro map ⟨templates, fields, htemplates, hlen, hfields, rfl⟩
    have hbinds := Registry.binds_ofList hlen hgenerics
    have hbindings : r.bindings className generics =
        .ok (Entries.ofList (templates.zip generics)) := by
      rw [Registry.bindings, htemplates]
      rfl
    refine .mono ?_ (propertyNodes_yields hconfig className _ fields fun field hfield ↦ ?_)
    · rintro nodes ⟨shown, rfl, hmodels, rfl⟩
      exact Models.object false hclass hbindings hfields hmodels
    refine toNode_yields (fun c g n hc hdenotes ↦ ih hopened hc hdenotes) _ ?_
    exact Property.denotes_shown hfields htemplates hbinds config direction field hfield

end Build

/-- Whatever a build answers for a type of the registry stands for the type. -/
theorem models_of_buildNode {r : Registry} (hr : r.HasNoFormatters) {config : Config}
    (hconfig : config.IsBare) {direction : Direction} {t : DataType} (ht : r.Denotes t)
    {node : Node} (h : (buildNode r config direction Stage.standard [] .reject t).1 = .ok node) :
    Models r config direction t node := by
  let context : BuildContext := ⟨r, config, direction, Stage.standard, .reject⟩
  have hyields : Build.Yields (Build.IsFaithful r config direction) [] (Models r config direction t)
      (Build.node context t) :=
    Build.toNode_yields (fun _ _ _ hclass hdenotes ↦
      Build.enter_yields hr hconfig (Build.fuelFor context) (Build.isWithin_nil _) hclass hdenotes)
      t ht
  have hstart : Build.IsFaithful r config direction { metadata := [], hooks := { direction } } :=
    ⟨fun key node hfind ↦ (by cases hfind), MetadataCache.isSound_nil⟩
  have hrun := hyields.run (s := { metadata := [], hooks := { direction } }) rfl hstart
  unfold buildNode at h
  dsimp only at h
  split at h
  · next built state hbuilt =>
    obtain rfl := Except.ok.inj h
    rw [hbuilt] at hrun
    exact hrun.1
  · cases h

/-- Under options without hooks, builds over any sound cache are in step. -/
theorem Config.IsBare.paired {r : Registry} (hr : r.HasNoFormatters) {config : Config}
    (hconfig : config.IsBare) : Config.Paired r Stage.standard (· = config) config config where
  loads p q hp hq := hp.load_eq_of_config hq (hp.config.trans hq.config.symm)
  types p properties hp hload := by
    obtain ⟨templates, types, htemplates, hlen, hgenerics, htypes⟩ := hp.templates
    obtain ⟨className, direction, registry, config', context⟩ := p
    obtain rfl : registry = r := hp.registry
    obtain rfl : config' = config := hp.config
    obtain ⟨fields, hfields, rfl⟩ := Pipeline.load_standard hr hconfig hload
    intro entry hentry _
    obtain ⟨field, hfield, rfl⟩ := List.mem_map.mp hentry
    refine Property.denotes_shown hfields htemplates ?_ config' direction field hfield
    rw [show context.generics = _ from hgenerics]
    exact Registry.binds_ofList hlen fun t ht ↦ htypes t ht (by decide)
  formatters h := absurd (List.isEmpty_iff.mp (Bool.and_eq_true_iff.mp hconfig.hooks).2) h
  hooks hook hmem := by
    rw [List.isEmpty_iff.mp (Bool.and_eq_true_iff.mp hconfig.hooks).1] at hmem
    exact absurd hmem List.not_mem_nil
  left := rfl
  right := rfl
  agrees := .refl config

end TypedJson
