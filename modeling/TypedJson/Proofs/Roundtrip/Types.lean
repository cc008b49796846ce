import TypedJson.Proofs.Roundtrip.Building
import TypedJson.Proofs.Roundtrip.Objects
import TypedJson.Proofs.Roundtrip.Unions

/-!
# Values of types are written and read

The nodes that stand for a type in the two directions round-trip every value of the type. The proof
is by induction on what it means to be a value of the type. The two nodes need not look alike: the
names of classes tell members of a union apart when writing, but not when reading.
-/

namespace TypedJson

open DataType

/-- Members of unions are told by their shapes, and properties of objects by their names. -/
inductive Node.IsSelfDescribing : Node → Prop
  | scalar (kind : ScalarKind) : IsSelfDescribing (.scalar kind)
  | null : IsSelfDescribing .null
  | mixed : IsSelfDescribing .mixed
  | nullable {inner : Node} (h : IsSelfDescribing inner) : IsSelfDescribing (.nullable inner)
  | list {item : Node} (h : IsSelfDescribing item) : IsSelfDescribing (.list item)
  | dict {item : Node} (kind : ScalarKind) (h : IsSelfDescribing item) :
    IsSelfDescribing (.dict kind item)
  | object {properties : List (PropertyNode Node)} (className : String)
    (hdistinct : (properties.map (·.encodedName)).Nodup)
    (h : ∀ p ∈ properties, IsSelfDescribing p.node) :
    IsSelfDescribing (.object className properties)
  | union {candidates : List (Candidate Node)} (h : ∀ c ∈ candidates, IsSelfDescribing c.node) :
    IsSelfDescribing (.union candidates none)
  | enum (className : String) (backing : ScalarKind) : IsSelfDescribing (.enum className backing)
  | dateTime (pattern : Option String) : IsSelfDescribing (.dateTime pattern)

mutual

/-- Checks that the node is self-describing. -/
def Node.isSelfDescribing : Node → Bool
  | .nullable inner => inner.isSelfDescribing
  | .list item => item.isSelfDescribing
  | .dict _ item => item.isSelfDescribing
  | .object _ properties =>
    decide (properties.map (·.encodedName)).Nodup && propertiesSelfDescribing properties
  | .union candidates discriminator => discriminator.isNone && candidatesSelfDescribing candidates
  | _ => true
termination_by structural node => node

/-- Checks that the nodes of properties are self-describing. -/
def propertiesSelfDescribing : List (PropertyNode Node) → Bool
  | [] => true
  | ⟨_, _, _, _, node⟩ :: properties =>
    node.isSelfDescribing && propertiesSelfDescribing properties
termination_by structural properties => properties

/-- Checks that the nodes of candidates are self-describing. -/
def candidatesSelfDescribing : List (Candidate Node) → Bool
  | [] => true
  | ⟨_, _, node⟩ :: candidates => node.isSelfDescribing && candidatesSelfDescribing candidates
termination_by structural candidates => candidates

end

theorem propertiesSelfDescribing_eq_all (properties : List (PropertyNode Node)) :
    propertiesSelfDescribing properties = properties.all (·.node.isSelfDescribing) := by
  induction properties with
  | nil => rfl
  | cons p properties ih =>
    obtain ⟨_, _, _, _, _⟩ := p
    rw [propertiesSelfDescribing, ih, List.all_cons]

theorem candidatesSelfDescribing_eq_all (candidates : List (Candidate Node)) :
    candidatesSelfDescribing candidates = candidates.all (·.node.isSelfDescribing) := by
  induction candidates with
  | nil => rfl
  | cons c candidates ih =>
    obtain ⟨_, _, _⟩ := c
    rw [candidatesSelfDescribing, ih, List.all_cons]

theorem Node.isSelfDescribing_iff {node : Node} :
    node.isSelfDescribing = true ↔ node.IsSelfDescribing := by
  constructor
  · intro h
    induction node using Node.induction with
    | scalar kind => exact .scalar kind
    | null => exact .null
    | mixed => exact .mixed
    | nullable inner ih => exact .nullable (ih h)
    | list item ih => exact .list (ih h)
    | dict kind item ih => exact .dict kind (ih h)
    | object className properties ih =>
      rw [isSelfDescribing, Bool.and_eq_true, decide_eq_true_iff,
        propertiesSelfDescribing_eq_all, List.all_eq_true] at h
      exact .object className h.1 fun p hp ↦ ih p hp (h.2 p hp)
    | union candidates discriminator ih =>
      rw [isSelfDescribing, Bool.and_eq_true, Option.isNone_iff_eq_none,
        candidatesSelfDescribing_eq_all, List.all_eq_true] at h
      rw [h.1]
      exact .union fun c hc ↦ ih c hc (h.2 c hc)
    | enum className backing => exact .enum className backing
    | dateTime pattern => exact .dateTime pattern
  · intro h
    induction h with
    | scalar | null | mixed | enum | dateTime => rfl
    | nullable _ ih | list _ ih | dict _ _ ih => exact ih
    | object _ hdistinct _ ih =>
      rw [isSelfDescribing, Bool.and_eq_true, decide_eq_true_iff,
        propertiesSelfDescribing_eq_all, List.all_eq_true]
      exact ⟨hdistinct, ih⟩
    | union _ ih =>
      rw [isSelfDescribing, Bool.and_eq_true, candidatesSelfDescribing_eq_all, List.all_eq_true]
      exact ⟨rfl, ih⟩

instance : DecidablePred Node.IsSelfDescribing := fun _ ↦
  decidable_of_iff _ Node.isSelfDescribing_iff

theorem Node.IsSelfDescribing.of_nullableNode {nullable : Bool} {node : Node}
    (h : (nullableNode nullable node).IsSelfDescribing) : node.IsSelfDescribing := by
  cases nullable with
  | false => exact h
  | true =>
    cases h with
    | nullable h => exact h

variable {r : Registry} {config : Config} {direction : Direction} {t : DataType} {node : Node}
  {v : Value}

/-! ## Nodes of types -/

theorem Models.acceptsNull (h : Models r config direction t node) (hnull : t.isNullable = true) :
    node.acceptsNull = true := by
  cases h with
  | null | mixed => rfl
  | scalar | list | dict | dateTime | object | enum =>
    rw [isNullable] at hnull
    rw [hnull]
    rfl
  | union _ _ _ _ =>
    rw [isNullable] at hnull
    rw [hnull, Bool.true_and]
    split
    · rfl
    · next h => simpa using h

theorem Node.shape?_nullableNode (direction : Direction) (nullable : Bool) (node : Node) :
    (nullableNode nullable node).shape? direction = node.shape? direction := by
  cases nullable <;> rfl

theorem Models.eq_mixed (h : Models r config direction t node) (hkind : t.kind = .mixed) :
    node = .mixed := by
  cases h with
  | mixed => rfl
  | _ => cases hkind

theorem Models.eq_enum {className : String} {backing : ScalarKind} {nullable : Bool}
    (h : Models r config direction (mk (.enum className backing) nullable) node)
    {e : EnumDescriptor} (hfind : r.findEnum className = .ok e) :
    node = nullableNode nullable (.enum className e.backing) := by
  cases h with
  | enum _ hfind' =>
    obtain rfl := Except.ok.inj (hfind.symm.trans hfind')
    rfl

/-- The shape that values of a member of a union have. -/
theorem Models.shape?_encode (h : Models r config .encode t node) (hv : v.IsOf r config t)
    (hleaf : IsLeaf t) (hkind : t.kind ≠ .mixed) (hnull : v.isNull = false) :
    node.shape? .encode = some (Run.shapeOf v) := by
  cases hv with
  | null => cases hnull
  | mixed => exact absurd rfl hkind
  | member => exact hleaf.elim
  | int | float | bool | string =>
    cases h with
    | scalar => rw [Node.shape?_nullableNode]; rfl
  | list _ =>
    cases h with
    | list => rw [Node.shape?_nullableNode]; rfl
  | dict _ _ _ =>
    cases h with
    | dict => rw [Node.shape?_nullableNode]; rfl
  | dateTime hclass _ =>
    cases h with
    | dateTime => rw [Node.shape?_nullableNode]; rfl
    | object _ hnot => exact absurd hclass hnot
  | object hnot _ _ _ _ _ =>
    cases h with
    | dateTime _ _ hclass => exact absurd hclass hnot
    | object => rw [Node.shape?_nullableNode]; rfl
  | enum _ _ =>
    cases h with
    | enum => rw [Node.shape?_nullableNode]; rfl

theorem EnumDescriptor.HasCase.name_backing {e : EnumDescriptor} {backed : Value}
    (h : e.HasCase backed) : e.backing.name = backed.caseShape := by
  cases backed with
  | int _ | string _ =>
    rw [h.1]
    rfl
  | _ => exact h.elim

/-- The shape that texts of values of a member of a union have. A double that has lost its
fraction is the exception. -/
theorem Models.shape?_decode (h : Models r config .decode t node) (hv : v.IsOf r config t)
    (hleaf : IsLeaf t) (hkind : t.kind ≠ .mixed) (hnull : v.isNull = false) {shape : String}
    (hshape : v.HasShape config.jsonFlags shape) :
    node.shape? .decode = some shape ∨ shape = "int" ∧ node.shape? .decode = some "float" ∧
      ∃ f, v = .float f ∧ ¬StaysFloat config.jsonFlags f := by
  cases hv with
  | null => cases hnull
  | mixed => exact absurd rfl hkind
  | member => exact hleaf.elim
  | int | bool | string =>
    obtain rfl : shape = _ := hshape
    cases h with
    | scalar => rw [Node.shape?_nullableNode]; exact .inl rfl
  | float _ =>
    cases h with
    | scalar =>
      rw [Node.shape?_nullableNode]
      rcases hshape with rfl | ⟨rfl, hstays⟩
      · exact .inl rfl
      · exact .inr ⟨rfl, rfl, _, rfl, hstays⟩
  | list _ =>
    obtain rfl : shape = _ := hshape
    cases h with
    | list => rw [Node.shape?_nullableNode]; exact .inl rfl
  | dict _ _ _ =>
    obtain rfl : shape = _ := hshape
    cases h with
    | dict => rw [Node.shape?_nullableNode]; exact .inl rfl
  | dateTime hclass _ =>
    obtain rfl : shape = _ := hshape
    cases h with
    | dateTime => rw [Node.shape?_nullableNode]; exact .inl rfl
    | object _ hnot => exact absurd hclass hnot
  | object hnot _ _ _ _ _ =>
    obtain rfl : shape = _ := hshape
    cases h with
    | dateTime _ _ hclass => exact absurd hclass hnot
    | object => rw [Node.shape?_nullableNode]; exact .inl rfl
  | enum hfind hcase =>
    obtain rfl : shape = _ := hshape
    cases h with
    | enum _ hfind' =>
      obtain rfl := Except.ok.inj (hfind.symm.trans hfind')
      rw [Node.shape?_nullableNode, ← hcase.name_backing]
      exact .inl rfl

theorem ScalarKind.eq_int_of_name {kind : ScalarKind} (h : kind.name = "int") : kind = .int := by
  cases kind <;> simp_all [ScalarKind.name]

/-- Where texts look like those of integers, integers are read. -/
theorem Models.isReadAsInt (h : Models r config .decode t node) (hleaf : IsLeaf t)
    (hshape : node.shape? .decode = some "int") : t.IsReadAsInt := by
  cases h with
  | union => exact hleaf.elim
  | scalar kind =>
    rw [Node.shape?_nullableNode] at hshape
    rw [ScalarKind.eq_int_of_name (Option.some.inj hshape)]
    trivial
  | enum _ _ =>
    rw [Node.shape?_nullableNode] at hshape
    rw [ScalarKind.eq_int_of_name (Option.some.inj hshape)]
    trivial
  | null | mixed => simp [Node.shape?] at hshape
  | list | dict | dateTime | object =>
    rw [Node.shape?_nullableNode] at hshape
    simp [Node.shape?] at hshape

/-! ## Members of unions -/

/-- Only `null` and values of any type are `null` among the members of a union. -/
theorem Value.IsOf.isNull_eq_false (h : v.IsOf r config t) (hleaf : IsLeaf t)
    (hnull : t.isNull = false) (hkind : t.kind ≠ .mixed) : v.isNull = false := by
  cases h with
  | @null kind =>
    cases kind with
    | null => cases hnull
    | mixed => exact absurd rfl hkind
    | union => exact hleaf.elim
    | _ => cases hleaf
  | mixed => exact absurd rfl hkind
  | member => exact hleaf.elim
  | _ => rfl

theorem Value.IsOf.eq_null (h : v.IsOf r config t) (hnull : t.isNull = true) : v = .null := by
  cases h with
  | null => rfl
  | _ => cases hnull

/-- Shapes that are distinct are known. -/
theorem shape_ne_none_of_shapesDistinct {shapes : List (Option String)}
    (h : shapesDistinct shapes = true) : none ∉ shapes := by
  induction shapes with
  | nil => exact List.not_mem_nil
  | cons shape shapes ih =>
    cases shape with
    | none => cases h
    | some shape =>
      rw [shapesDistinct, Bool.and_eq_true] at h
      simpa using ih h.2

theorem RoundTrips.wrap {wr : Registry} {e d : Node}
    (h : RoundTrips ⟨wr, config⟩ ⟨r, config⟩ e d v) (hv : v.isNull = false) (nullable : Bool) :
    RoundTrips ⟨wr, config⟩ ⟨r, config⟩ (if nullable && !e.acceptsNull then .nullable e else e)
      (if nullable && !d.acceptsNull then .nullable d else d) v := by
  split
  · split
    · exact (h.nullable_left hv).nullable_right hv
    · exact h.nullable_left hv
  · split
    · exact h.nullable_right hv
    · exact h

theorem Node.IsSelfDescribing.of_wrap {nullable : Bool}
    (h : (if nullable && !node.acceptsNull then .nullable node else node).IsSelfDescribing) :
    node.IsSelfDescribing := by
  split at h
  · cases h with
    | nullable h => exact h
  · exact h

/-- A union round-trips the values of a member if the nodes of the member do. -/
theorem Models.roundTrips_union {wr : Registry} {types : List DataType} {nullable : Bool}
    {e d : Node} (he : Models r config .encode (mk (.union types) nullable) e)
    (hd : Models r config .decode (mk (.union types) nullable) d) (he' : e.IsSelfDescribing)
    (hd' : d.IsSelfDescribing) (hmem : t ∈ types) (hv : v.IsOf r config t)
    (hfloat : ∀ f, v = .float f → (∃ m ∈ types, m.IsReadAsInt) → StaysFloat config.jsonFlags f)
    (h : ∀ e d, Models r config .encode t e → Models r config .decode t d → e.IsSelfDescribing →
      d.IsSelfDescribing → RoundTrips ⟨wr, config⟩ ⟨r, config⟩ e d v) :
    RoundTrips ⟨wr, config⟩ ⟨r, config⟩ e d v := by
  by_cases hnull : t.isNull = true
  · obtain rfl := hv.eq_null hnull
    have hnullable : nullable = types.any isNull := by
      cases he
      rfl
    have hany : types.any isNull = true := List.any_eq_true.mpr ⟨t, hmem, hnull⟩
    exact .null (he.acceptsNull (hnullable.trans hany)) (hd.acceptsNull (hnullable.trans hany))
  cases he with
  | @union _ membersE nodeE hleaf hmembersE hE hnodeE =>
  cases hd with
  | @union _ membersD nodeD _ hmembersD hD hnodeD =>
  obtain ⟨pairs, rfl, rfl, hpairs⟩ := exists_pairs_of_map_eq (hmembersE.trans hmembersD.symm)
  have hkept : t ∈ types.filter fun t ↦ !t.isNull :=
    List.mem_filter.mpr ⟨hmem, by simpa using hnull⟩
  rw [← hmembersE, List.map_map] at hkept
  obtain ⟨pair, hpair, rfl⟩ := List.mem_map.mp hkept
  have hpairE := hE pair.1 (List.mem_map_of_mem hpair)
  have hpairD := hpairs pair hpair ▸ hD pair.2 (List.mem_map_of_mem hpair)
  have hpairleaf := hleaf _ hmem
  have hvalue := hv.isNull_eq_false hpairleaf (Bool.eq_false_iff.mpr hnull)
  by_cases hone : pairs.length = 1
  · obtain ⟨only, rfl⟩ := List.length_eq_one_iff.mp hone
    obtain rfl := List.mem_singleton.mp hpair
    obtain rfl : nodeE = pair.1.2 := hnodeE
    obtain rfl : nodeD = pair.2.2 := hnodeD
    have hboth := h _ _ hpairE hpairD he'.of_wrap hd'.of_wrap
    by_cases hkind : pair.1.1.kind = .mixed
    · rw [hpairE.eq_mixed hkind, hpairD.eq_mixed hkind] at hboth ⊢
      simpa [Node.acceptsNull] using hboth
    · exact hboth.wrap (hvalue hkind) _
  · obtain ⟨_, rfl, hdistinctE⟩ := hnodeE.of_length_ne_one (by rwa [List.length_map])
    obtain ⟨_, rfl, hdistinctD⟩ := hnodeD.of_length_ne_one (by rwa [List.length_map])
    cases he'.of_wrap with
    | union hdescribedE =>
    cases hd'.of_wrap with
    | union hdescribedD =>
    have hshapesE := hdistinctE rfl
    have hshapesD := hdistinctD rfl
    rw [List.map_map] at hshapesE hshapesD
    have hboth := h _ _ hpairE hpairD
      (hdescribedE _ (List.mem_map_of_mem (List.mem_map_of_mem hpair)))
      (hdescribedD _ (List.mem_map_of_mem (List.mem_map_of_mem hpair)))
    have hkind : pair.1.1.kind ≠ .mixed := by
      intro hmixed
      refine shape_ne_none_of_shapesDistinct hshapesE (List.mem_map.mpr ⟨pair, hpair, ?_⟩)
      show pair.1.2.shape? .encode = none
      rw [hpairE.eq_mixed hmixed]
      rfl
    refine .wrap (.union hpair hshapesE hshapesD
      (hpairE.shape?_encode hv hpairleaf hkind (hvalue hkind)) (fun shape hshape ↦ ?_) hboth)
      (hvalue hkind) _
    refine (hpairD.shape?_decode hv hpairleaf hkind (hvalue hkind) hshape).imp_right ?_
    rintro ⟨hint, hfloats, f, rfl, hstays⟩
    refine ⟨hint, hfloats, fun p hp hshape ↦ hstays (hfloat f rfl ?_)⟩
    have hp' : p.2.1 ∈ types.filter fun t ↦ !t.isNull := by
      rw [← hmembersD]
      exact List.mem_map_of_mem (List.mem_map_of_mem hp)
    have hmem' := (List.mem_filter.mp hp').1
    exact ⟨p.2.1, hmem', (hD p.2 (List.mem_map_of_mem hp)).isReadAsInt (hleaf _ hmem') hshape⟩

/-! ## Objects -/

theorem Property.names_shown (className : String) (bindings : Entries String DataType)
    (field : String × DataType) :
    (Property.shown r config direction className bindings field).sourceName = field.1 ∧
      (Property.shown r config direction className bindings field).encodedName =
        Stage.renamed (r.propertyDirectives className field.1) field.1 := by
  cases htime : field.2.nonNull.isDateTime with
  | false =>
    rw [Property.shown_of_not_dateTime _ htime]
    exact ⟨rfl, rfl⟩
  | true =>
    rw [Property.shown_of_dateTime _ htime]
    exact ⟨rfl, rfl⟩

/-- Fields with distinct names in the text are distinct. -/
theorem Property.nodup_of_encoded {className : String} {bindings : Entries String DataType}
    {fields : List ((String × DataType) × Node)}
    (h : ((fields.map fun field ↦ (Property.shown r config direction className bindings
      field.1).toNode field.2).map (·.encodedName)).Nodup) : (fields.map (·.1.1)).Nodup := by
  refine List.Nodup.of_map (fun name ↦ Stage.renamed (r.propertyDirectives className name) name) ?_
  rw [List.map_map] at h ⊢
  rwa [← List.map_congr_left fun field _ ↦ (Property.names_shown className bindings field.1).2]

/-- The nodes of a class round-trip an object if its fields are round-tripped. -/
theorem Models.roundTrips_object {wr : Registry} (heager : config.lazy = false)
    {generics : List DataType} {nullable : Bool} {o : Object Value}
    {fields : List (String × DataType)} {bindings : Entries String DataType}
    {value : String → Value} (hclass : o.className ∉ dateTimeClasses)
    (hfields : r.fields o.className = .ok fields)
    (hbindings : r.bindings o.className generics = .ok bindings)
    (hnames : o.HasFields (fields.map (·.1)))
    (hvalue : ∀ field ∈ fields, (o.get field.1).result = .ok (some (value field.1)))
    (hof : ∀ field ∈ fields, (value field.1).IsOf r config (field.2.substitute bindings))
    {e d : Node} (he : Models r config .encode (mk (.object o.className generics) nullable) e)
    (hd : Models r config .decode (mk (.object o.className generics) nullable) d)
    (he' : e.IsSelfDescribing) (hd' : d.IsSelfDescribing)
    (h : ∀ field ∈ fields, ∀ e d, Models r config .encode (field.2.substitute bindings) e →
      Models r config .decode (field.2.substitute bindings) d → e.IsSelfDescribing →
        d.IsSelfDescribing → RoundTrips ⟨wr, config⟩ ⟨r, config⟩ e d (value field.1)) :
    RoundTrips ⟨wr, config⟩ ⟨r, config⟩ e d (.object o) := by
  cases he with
  | dateTime _ _ hdate => exact absurd hdate hclass
  | @object _ _ _ fieldsE _ _ hbindingsE hfieldsE hE =>
  cases hd with
  | dateTime _ _ hdate => exact absurd hdate hclass
  | @object _ _ _ fieldsD _ _ hbindingsD hfieldsD hD =>
  obtain rfl := Except.ok.inj (hbindings.symm.trans hbindingsE)
  obtain rfl := Except.ok.inj (hbindings.symm.trans hbindingsD)
  have heq := Except.ok.inj (hfieldsE.symm.trans hfieldsD)
  obtain rfl := Except.ok.inj (hfields.symm.trans hfieldsE)
  obtain ⟨pairs, rfl, rfl, hpairs⟩ := exists_pairs_of_map_eq heq
  cases he'.of_nullableNode with
  | object _ _ hdescribedE =>
  cases hd'.of_nullableNode with
  | object _ hdistinct hdescribedD =>
  let p (pair : ((String × DataType) × Node) × ((String × DataType) × Node)) :=
    (Property.shown r config .encode o.className bindings pair.1.1).toNode pair.1.2
  let q (pair : ((String × DataType) × Node) × ((String × DataType) × Node)) :=
    (Property.shown r config .decode o.className bindings pair.2.1).toNode pair.2.2
  have hsource : ∀ pair ∈ pairs, (q pair).sourceName = pair.1.1.1 := by
    intro pair hpair
    rw [hpairs pair hpair]
    exact (Property.names_shown o.className bindings pair.2.1).1
  have hsources : (pairs.map fun pair ↦ (q pair).sourceName) =
      ((pairs.map (·.1)).map (·.1)).map (·.1) := by
    rw [List.map_map, List.map_map]
    exact List.map_congr_left hsource
  have hnodup : (((pairs.map (·.1)).map (·.1)).map (·.1)).Nodup := by
    rw [heq, List.map_map]
    exact Property.nodup_of_encoded hdistinct
  have hencoded : (pairs.map fun pair ↦ (q pair).encodedName).Nodup := by
    rw [List.map_map, List.map_map] at hdistinct
    exact hdistinct
  obtain ⟨templates, htemplates, hnone⟩ := Registry.exists_templates hbindings
  have hset := Registry.settled_of_fields hfields htemplates
  have hmem : ∀ pair ∈ pairs, pair.1.1 ∈ (pairs.map (·.1)).map (·.1) := fun pair hpair ↦
    List.mem_map_of_mem (List.mem_map_of_mem hpair)
  refine RoundTrips.nullable ?_ rfl nullable
  rw [List.map_map, List.map_map]
  refine .object heager p q value (hsources ▸ hnodup) hencoded (hsources ▸ hnames)
    (fun pair hpair ↦ ?_) fun pair hpair ↦ ?_
  · rw [hsource pair hpair]
    exact hvalue _ (hmem pair hpair)
  · have hfield := hmem pair hpair
    have hpairD := hD pair.2 (List.mem_map_of_mem hpair)
    rw [hsource pair hpair]
    dsimp only [p, q]
    rw [← hpairs pair hpair] at hpairD ⊢
    refine .of_shown (hset _ hfield) hnone (hvalue _ hfield) (hof _ hfield)
      (hE pair.1 (List.mem_map_of_mem hpair)) hpairD fun he hd ↦ h _ hfield _ _ he hd ?_ ?_
    · exact hdescribedE _ (List.mem_map_of_mem (List.mem_map_of_mem hpair))
    · exact hdescribedD _ (List.mem_map_of_mem (List.mem_map_of_mem hpair))

/-! ## Values of types -/

/-- The nodes that stand for a type in the two directions round-trip the values of the type. -/
theorem Value.IsOf.roundTrips (wr : Registry) (heager : config.lazy = false)
    (hv : v.IsOf r config t) {e d : Node} (he : Models r config .encode t e)
    (hd : Models r config .decode t d) (he' : e.IsSelfDescribing) (hd' : d.IsSelfDescribing) :
    RoundTrips ⟨wr, config⟩ ⟨r, config⟩ e d v := by
  induction hv generalizing e d with
  | null => exact .null (he.acceptsNull rfl) (hd.acceptsNull rfl)
  | mixed h =>
    rw [he.eq_mixed rfl, hd.eq_mixed rfl]
    exact .mixed h
  | int i =>
    cases he
    cases hd
    exact (RoundTrips.int i).nullable rfl _
  | float h =>
    cases he
    cases hd
    exact (RoundTrips.float h).nullable rfl _
  | bool b =>
    cases he
    cases hd
    exact (RoundTrips.bool b).nullable rfl _
  | string s =>
    cases he
    cases hd
    exact (RoundTrips.string s).nullable rfl _
  | list _ ih =>
    cases he with
    | list _ he =>
    cases hd with
    | list _ hd =>
    cases he'.of_nullableNode with
    | list he' =>
    cases hd'.of_nullableNode with
    | list hd' =>
    exact (RoundTrips.list fun item hitem ↦ ih item hitem he hd he' hd').nullable rfl _
  | dict hkeys hdistinct _ ih =>
    cases he with
    | dict _ he =>
    cases hd with
    | dict _ hd =>
    cases he'.of_nullableNode with
    | dict _ he' =>
    cases hd'.of_nullableNode with
    | dict _ hd' =>
    have hdict := RoundTrips.dict hkeys hdistinct fun entry hentry ↦ ih entry hentry he hd he' hd'
    exact hdict.nullable rfl _
  | dateTime hclass h =>
    cases he with
    | object _ hnot => exact absurd hclass hnot
    | dateTime =>
    cases hd with
    | object _ hnot => exact absurd hclass hnot
    | dateTime => exact (RoundTrips.dateTime h).nullable rfl _
  | object hclass hfields hbindings hnames hvalue hof ih =>
    exact he.roundTrips_object heager hclass hfields hbindings hnames hvalue hof hd he' hd'
      fun field hfield e d he hd he' hd' ↦ ih field hfield he hd he' hd'
  | enum hfind hcase =>
    rw [he.eq_enum hfind, hd.eq_enum hfind]
    exact (RoundTrips.enum hfind hcase).nullable rfl _
  | member hmem hv hfloat ih =>
    exact he.roundTrips_union hd he' hd' hmem hv hfloat
      fun e d he hd he' hd' ↦ ih he hd he' hd'

end TypedJson
