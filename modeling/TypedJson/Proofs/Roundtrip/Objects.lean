import TypedJson.Proofs.Roundtrip.Nodes

/-!
# Objects that write and read

An object round-trips if each of its properties does. A property that is written as it is declared
does if its node does. A point in time is a string in the text and has formatters on both sides,
which `null` does not go through.
-/

namespace TypedJson

open DataType

namespace DataType

/-! ## Points in time -/

/-- The class, maybe nullable. -/
inductive IsMaybe (className : String) : DataType → Prop
  | single (nullable : Bool) : IsMaybe className (mk (.object className []) nullable)
  | orNull {members : List DataType}
    (h : ∀ m ∈ members, m = null ∨ m = mk (.object className []) false) :
    IsMaybe className (mk (.union members) true)

section

variable {scope : TypeText.Scope} {members : List DataType} {m : DataType}

theorem Settled.eq_null {t : DataType} (ht : Settled scope t) (h : t.isNull = true) :
    t = DataType.null := by
  cases ht with
  | null => rfl
  | _ => cases h

/-- A union with a single member beside `null`. -/
theorem eq_null_or_of_filter (hset : ∀ u ∈ members, Settled scope u)
    (h : members.filter (fun u ↦ !u.isNull) = [m]) : ∀ u ∈ members, u = null ∨ u = m := by
  intro u hu
  by_cases hnull : u.isNull = true
  · exact .inl ((hset u hu).eq_null hnull)
  · have hkept : u ∈ members.filter fun u ↦ !u.isNull :=
      List.mem_filter.mpr ⟨hu, by simpa using hnull⟩
    rw [h] at hkept
    exact .inr (List.mem_singleton.mp hkept)

theorem any_isNull_of_filter (hlen : 2 ≤ members.length)
    (h : members.filter (fun u ↦ !u.isNull) = [m]) : members.any isNull = true := by
  by_contra hnone
  have hall : members.filter (fun u ↦ !u.isNull) = members :=
    List.filter_eq_self.mpr fun u hu ↦ by
      simpa using fun hnull ↦ hnone (List.any_eq_true.mpr ⟨u, hu, hnull⟩)
  rw [hall] at h
  simp [h] at hlen

end

/-- What is a point in time without `null` is one, maybe nullable. -/
theorem Settled.isMaybe {scope : TypeText.Scope} {t : DataType} (ht : Settled scope t)
    (h : t.nonNull.isDateTime = true) :
    ∃ className ∈ dateTimeClasses, className ∉ scope.templates ∧ t.IsMaybe className := by
  cases ht with
  | dateTime nullable hmem hclass => exact ⟨_, hclass, hmem, .single nullable⟩
  | object nullable _ _ hclass _ _ => exact absurd (List.contains_iff_mem.mp h) hclass
  | @union members hlen hset hleaf hdist =>
    have hkept : DataType.flatten (members.filter fun m ↦ !m.isNull) =
        members.filter fun m ↦ !m.isNull :=
      flatten_of_isLeaf (fun m hm ↦ hleaf m (List.mem_filter.mp hm).1)
        (hdist.sublist List.filter_sublist)
    rw [DataType.nonNull, DataType.unionOrMember, hkept] at h
    rcases hfilter : members.filter fun m ↦ !m.isNull with _ | ⟨m, _ | ⟨n, others⟩⟩
    · rw [hfilter] at h
      cases h
    · rw [hfilter] at h
      have hm : m ∈ members := (List.mem_filter.mp (hfilter ▸ List.mem_singleton_self m)).1
      rw [any_isNull_of_filter hlen hfilter]
      have hmembers := eq_null_or_of_filter hset hfilter
      cases hset m hm with
      | dateTime nullable hmem hclass =>
        obtain rfl : nullable = false := hleaf _ hm
        exact ⟨_, hclass, hmem, .orNull hmembers⟩
      | object _ _ _ hclass _ _ => exact absurd (List.contains_iff_mem.mp h) hclass
      | _ => cases h
    · rw [hfilter] at h
      cases h
  | _ => cases h

/-- A class that nothing is bound to is left alone when template parameters are replaced. -/
theorem IsMaybe.substitute {className : String} {t : DataType} (h : t.IsMaybe className)
    {scope : TypeText.Scope} (ht : Settled scope t) {bindings : Entries String DataType}
    (hnone : Entries.find? bindings className = none) : t.substitute bindings = t := by
  unfold DataType.substitute
  split
  · rfl
  cases h with
  | single nullable => rw [substituteIn, bound, hnone]
  | @orNull members h =>
    have hkept : members.map (substituteIn bindings) = members := by
      refine (List.map_congr_left fun m hm ↦ ?_).trans (List.map_id' members)
      rcases h m hm with rfl | rfl
      · rfl
      · rw [substituteIn, bound, hnone]
    generalize hnullable : true = nullable at ht ⊢
    cases ht with
    | union hlen hset hleaf hdist =>
      rw [substituteIn, substituteInAll_eq_map, hkept,
        unionOrMember_of_isLeaf hlen hleaf hdist, unionOf]

end DataType

/-- A value of a type that is a point in time, maybe nullable. -/
theorem Value.IsOf.of_isMaybe {r : Registry} {config : Config} {className : String}
    (hclass : className ∈ dateTimeClasses) {t : DataType} (ht : t.IsMaybe className) {v : Value}
    (h : v.IsOf r config t) :
    v = .null ∧ t.isNullable = true ∨
      ∃ time : DateTime, v = .dateTime time ∧ time.IsRestored config.dateTimeFormat := by
  have hsingle : ∀ {nullable : Bool} {v : Value},
      v.IsOf r config (mk (.object className []) nullable) →
      v = .null ∧ nullable = true ∨
        ∃ time : DateTime, v = .dateTime time ∧ time.IsRestored config.dateTimeFormat := by
    intro nullable v h
    cases h with
    | null => exact .inl ⟨rfl, rfl⟩
    | dateTime _ htime => exact .inr ⟨_, rfl, htime⟩
    | object hnot _ _ _ _ _ => exact absurd hclass hnot
  cases ht with
  | single nullable => exact hsingle h
  | orNull hmembers =>
    cases h with
    | null => exact .inl ⟨rfl, rfl⟩
    | member hmem h _ =>
      rcases hmembers _ hmem with rfl | rfl
      · cases h with
        | null => exact .inl ⟨rfl, rfl⟩
      · exact (hsingle h).imp_left fun hnull ↦ ⟨hnull.1, rfl⟩

/-! ## Properties -/

/-- What the first property writes of an object is read by the second one as the value. -/
structure PropertyRoundTrips (writing : RunContext) (reading : DecodeContext) (o : Object Value)
    (v : Value) (p q : PropertyNode Node) : Prop where
  name : p.encodedName = q.encodedName
  field : ∀ source : Source, source.outcome = .ok (.object o) →
    (Run.propertyWriter writing source p).WritesValue fun tree ↦ ∀ w place, tree.In w →
      (Decode.field reading (q.plan reading) w place).Gives (·.SameAs v)

theorem Source.outcome_field {source : Source} {o : Object Value}
    (hsource : source.outcome = .ok (.object o)) {name : String} {v : Value}
    (hv : (o.get name).result = .ok (some v)) : (source.field name).outcome = .ok v := by
  rw [Source.field, hsource]
  show (o.get name).result.map _ = _
  rw [hv]
  rfl

namespace PropertyRoundTrips

variable {wr r : Registry} {config : Config} {o : Object Value} {v : Value} {e d : Node}
  {sourceName encodedName : String}

/-- A property without formatters. -/
theorem of_plain (hv : (o.get sourceName).result = .ok (some v))
    (h : RoundTrips ⟨wr, config⟩ ⟨r, config⟩ e d v) :
    PropertyRoundTrips ⟨wr, config⟩ ⟨r, config⟩ o v
      ⟨sourceName, encodedName, .field sourceName, [], e⟩
      ⟨sourceName, encodedName, .field sourceName, [], d⟩ where
  name := rfl
  field source hsource := by
    refine (h _ (Source.outcome_field hsource hv)).mono fun tree htree w place hw ↦ ?_
    refine (htree.reads.value hw place).bind fun a ha ↦ ?_
    split
    · exact .pure ha
    · exact .locate (.pure ha)

/-- A property that is `null`, which formatters do not see. -/
theorem of_null (hv : (o.get sourceName).result = .ok (some .null)) (he : e.acceptsNull = true)
    (hd : d.acceptsNull = true) (ref ref' : FormatterRef) :
    PropertyRoundTrips ⟨wr, config⟩ ⟨r, config⟩ o .null
      ⟨sourceName, encodedName, .field sourceName, [ref], e⟩
      ⟨sourceName, encodedName, .field sourceName, [ref'], d⟩ where
  name := rfl
  field source hsource := by
    refine .look_bind (Source.outcome_field hsource hv) ?_
    rw [he]
    refine Run.writes_null.mono fun tree htree w place hw ↦ ?_
    have htext : tree.IsTextOf ⟨r, config⟩ d .null := htree.isTextOf_null hd
    refine (htext.reads.value hw place).bind fun a ha ↦ ?_
    obtain rfl := ha.eq_null
    exact .pure .null

/-- A point in time, which is a string in the text. -/
theorem of_time {time : DateTime} (hv : (o.get sourceName).result = .ok (some (.dateTime time)))
    (htime : time.IsRestored config.dateTimeFormat)
    (h : ∀ text, RoundTrips ⟨wr, config⟩ ⟨r, config⟩ e d (.string text)) :
    PropertyRoundTrips ⟨wr, config⟩ ⟨r, config⟩ o (.dateTime time)
      ⟨sourceName, encodedName, .field sourceName, [.dateTimeFormat config.dateTimeFormat], e⟩
      ⟨sourceName, encodedName, .field sourceName, [.dateTimeParse config.dateTimeFormat], d⟩ where
  name := rfl
  field source hsource := by
    obtain ⟨text, time', hwrite, hread, hsame⟩ := htime
    refine .look_bind (Source.outcome_field hsource hv) ?_
    rw [show Value.isNull (.dateTime time) = false from rfl, Bool.and_false,
      if_neg Bool.false_ne_true]
    simp only [List.foldlM_cons, List.foldlM_nil, bind_pure]
    refine .formatted_bind hwrite ?_
    refine (h text (.ofValue (.string text)) rfl).mono fun tree htree w place hw ↦ ?_
    refine (htree.reads.value hw place).bind fun a ha ↦ ?_
    obtain rfl := ha.eq_string
    refine .locate ?_
    show ([FormatterRef.dateTimeParse config.dateTimeFormat].foldlM (Decode.format ⟨r, config⟩)
      (.string text)).Gives _
    simp only [List.foldlM_cons, List.foldlM_nil, bind_pure]
    exact (Decode.gives_format hread).mono fun _ h ↦ h ▸ .dateTime hsame

end PropertyRoundTrips

/-! ## Declared fields -/

theorem Registry.exists_templates {r : Registry} {className : String} {generics : List DataType}
    {bindings : Entries String DataType} (h : r.bindings className generics = .ok bindings) :
    ∃ templates, r.templates className = .ok templates ∧
      ∀ name ∉ templates, Entries.find? bindings name = none := by
  obtain ⟨templates, htemplates, hbindings⟩ := Outcome.bind_eq_ok.mp h
  refine ⟨templates, htemplates, fun name hname ↦ Entries.find?_eq_none.mpr ?_⟩
  rw [← Except.ok.inj hbindings]
  rintro entry hentry rfl
  exact hname (List.of_mem_zip (Entries.mem_ofList hentry)).1

section

variable {wr r : Registry} {config : Config} {className : String} {templates : List String}
  {bindings : Entries String DataType} {field : String × DataType}

theorem Property.shown_of_not_dateTime (direction : Direction)
    (h : field.2.nonNull.isDateTime = false) :
    Property.shown r config direction className bindings field =
      ⟨field.1, Stage.renamed (r.propertyDirectives className field.1) field.1,
        field.2.substitute bindings, [], .field field.1⟩ := by
  unfold Property.shown Stage.asText
  rw [show ({ Property.plain field.1 field.2 with
    encodedName := Stage.renamed (r.propertyDirectives className field.1) field.1 } : Property).type
      = field.2 from rfl, h]
  rfl

theorem Property.shown_of_dateTime (direction : Direction)
    (h : field.2.nonNull.isDateTime = true) :
    Property.shown r config direction className bindings field =
      ⟨field.1, Stage.renamed (r.propertyDirectives className field.1) field.1,
        DataType.mk (.scalar .string) field.2.isNullable,
        [match direction with
          | .encode => .dateTimeFormat config.dateTimeFormat
          | .decode => .dateTimeParse config.dateTimeFormat], .field field.1⟩ := by
  unfold Property.shown Stage.asText
  rw [show ({ Property.plain field.1 field.2 with
    encodedName := Stage.renamed (r.propertyDirectives className field.1) field.1 } : Property).type
      = field.2 from rfl, if_pos h]
  dsimp only
  rw [DataType.substitute_scalar]
  cases field.2.isNullable <;> rfl

/-- The two properties that stand for a declared field round-trip its values. -/
theorem PropertyRoundTrips.of_shown {o : Object Value} {v : Value} {e d : Node}
    (hset : Settled ⟨r.lookup, templates⟩ field.2)
    (hnone : ∀ name ∉ templates, Entries.find? bindings name = none)
    (hv : (o.get field.1).result = .ok (some v))
    (hof : v.IsOf r config (field.2.substitute bindings))
    (he : Models r config .encode (Property.shown r config .encode className bindings field).type e)
    (hd : Models r config .decode (Property.shown r config .decode className bindings field).type d)
    (h : Models r config .encode (field.2.substitute bindings) e →
      Models r config .decode (field.2.substitute bindings) d →
        RoundTrips ⟨wr, config⟩ ⟨r, config⟩ e d v) :
    PropertyRoundTrips ⟨wr, config⟩ ⟨r, config⟩ o v
      ((Property.shown r config .encode className bindings field).toNode e)
      ((Property.shown r config .decode className bindings field).toNode d) := by
  cases htime : field.2.nonNull.isDateTime with
  | false =>
    rw [Property.shown_of_not_dateTime _ htime] at he hd ⊢
    rw [Property.shown_of_not_dateTime _ htime]
    exact .of_plain hv (h he hd)
  | true =>
    rw [Property.shown_of_dateTime _ htime] at he hd ⊢
    rw [Property.shown_of_dateTime _ htime]
    obtain ⟨name, hclass, hfree, hmaybe⟩ := hset.isMaybe htime
    rw [hmaybe.substitute hset (hnone name hfree)] at hof
    cases he with
    | scalar _ nullable =>
    cases hd with
    | scalar _ nullable =>
    rcases hof.of_isMaybe hclass hmaybe with ⟨rfl, hnullable⟩ | ⟨time, rfl, hrestored⟩
    · exact .of_null hv (by rw [hnullable]; rfl) (by rw [hnullable]; rfl) _ _
    · exact .of_time hv hrestored fun text ↦ (RoundTrips.string text).nullable rfl _

end

/-! ## Objects -/

/-- An object round-trips if its properties do, under distinct names. -/
theorem RoundTrips.object {wr r : Registry} {config : Config} (heager : config.lazy = false)
    {α : Type} {fields : List α} (p q : α → PropertyNode Node) {o : Object Value}
    (value : String → Value) (hsource : (fields.map fun a ↦ (q a).sourceName).Nodup)
    (hencoded : (fields.map fun a ↦ (q a).encodedName).Nodup)
    (hnames : o.HasFields (fields.map fun a ↦ (q a).sourceName))
    (hvalue : ∀ a ∈ fields, (o.get (q a).sourceName).result = .ok (some (value (q a).sourceName)))
    (h : ∀ a ∈ fields, PropertyRoundTrips ⟨wr, config⟩ ⟨r, config⟩ o (value (q a).sourceName)
      (p a) (q a)) :
    RoundTrips ⟨wr, config⟩ ⟨r, config⟩ (.object o.className (fields.map p))
      (.object o.className (fields.map q)) (.object o) := by
  intro source hsrc
  refine Run.writesValue_dict config.jsonFlags (fun a ↦ (p a).encodedName)
    (fun text hadds ↦ ?_) (fun a ha ↦ (h a ha).field source hsrc) ?_
  · rw [Run.writeProperties_eq, List.map_map]
    exact hadds
  intro offset trees htrees
  refine ⟨rfl, fun w place hw ↦ ?_⟩
  obtain ⟨plans, hplans⟩ : ∃ plans, plans = (fields.map q).map (PropertyNode.plan ⟨r, config⟩) :=
    ⟨_, rfl⟩
  have hread : List.Forall₂ (Decode.ReadsField ⟨r, config⟩ value) plans trees := by
    rw [hplans, List.map_map, List.forall₂_map_left_iff]
    have hboth := (List.forall₂_and_left fields trees).mpr ⟨h, htrees⟩
    exact hboth.imp fun a tree ha ↦ ⟨ha.2.1.trans ha.1.name, ha.2.2⟩
  have hsource' : plans.map (·.sourceName) = fields.map fun a ↦ (q a).sourceName := by
    rw [hplans, List.map_map, List.map_map]
    rfl
  have hencoded' : plans.map (·.encodedName) = fields.map fun a ↦ (q a).encodedName := by
    rw [hplans, List.map_map, List.map_map]
    rfl
  unfold Node.plan
  dsimp only
  rw [Decode.read_object, ← hplans,
    show (DecodeContext.mk r config).config.lazy = false from heager]
  refine (Decode.gives_makeObject rfl (hsource' ▸ hsource) (hencoded' ▸ hencoded) hread hw
    _ _ _ _).bind ?_
  rintro _ ⟨slots, rfl, hslots, hsame⟩
  rw [hsource'] at hslots
  have hgot : ∀ slot ∈ slots, (o.get slot.1).result = .ok (some (value slot.1)) := by
    intro slot hslot
    have hname : slot.1 ∈ fields.map fun a ↦ (q a).sourceName := hslots ▸ List.mem_map_of_mem hslot
    obtain ⟨a, ha, hname⟩ := List.mem_map.mp hname
    rw [← hname]
    exact hvalue a ha
  exact .pure (.object (hslots ▸ hsource) (hslots ▸ hnames) hgot hsame)

end TypedJson
