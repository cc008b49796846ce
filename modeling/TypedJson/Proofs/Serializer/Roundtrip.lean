import TypedJson.Proofs.Codec.Unaided
import TypedJson.Proofs.Roundtrip.Types
import TypedJson.Proofs.Serializer.Calls

/-!
# Serializers read what they write

A new serializer writes every value of a type, and reads from the text a value that compares as
equal, without errors on the way. The encoder is compiled, so what it writes is first carried over
from direct writing. What the serializer remembers from building the encoder, it uses for building
the decoder.
-/

namespace TypedJson

open DataType

variable {r : Registry} {config : Config} {t : DataType}

/-! ## Encoders of types -/

theorem Property.formatters_shown (direction : Direction) (className : String)
    (bindings : Entries String DataType) (field : String × DataType) (name : String) :
    .named name ∉ (Property.shown r config direction className bindings field).formatters := by
  cases htime : field.2.nonNull.isDateTime with
  | false =>
    rw [Property.shown_of_not_dateTime _ htime]
    exact List.not_mem_nil
  | true =>
    rw [Property.shown_of_dateTime _ htime]
    cases direction <;> simp

theorem Node.IsUnaided.nullableNode {node : Node} (h : node.IsUnaided) (nullable : Bool) :
    (nullableNode nullable node).IsUnaided := by
  cases nullable with
  | false => exact h
  | true => exact .nullable h

/-- Nodes of types name no formatters, and those without discriminators name nothing. -/
theorem Models.isUnaided {direction : Direction} {node : Node}
    (h : Models r config direction t node) (h' : node.IsSelfDescribing) : node.IsUnaided := by
  induction h with
  | null => exact .null
  | mixed => exact .mixed
  | scalar kind nullable => exact (Node.IsUnaided.scalar kind).nullableNode nullable
  | list nullable _ ih =>
    cases h'.of_nullableNode with
    | list h' => exact (Node.IsUnaided.list (ih h')).nullableNode nullable
  | dict nullable _ ih =>
    cases h'.of_nullableNode with
    | dict _ h' => exact (Node.IsUnaided.dict _ (ih h')).nullableNode nullable
  | dateTime _ nullable _ => exact (Node.IsUnaided.dateTime _).nullableNode nullable
  | @object className _ bindings _ nullable _ _ _ _ ih =>
    cases h'.of_nullableNode with
    | object _ _ hdescribed =>
    refine Node.IsUnaided.nullableNode (.object _ ?_ ?_) nullable
    · rintro _ hp name
      obtain ⟨field, hfield, rfl⟩ := List.mem_map.mp hp
      exact Property.formatters_shown direction className bindings field.1 name
    · rintro _ hp
      obtain ⟨field, hfield, rfl⟩ := List.mem_map.mp hp
      exact ih field hfield (hdescribed _ hp)
  | enum nullable _ => exact (Node.IsUnaided.enum _ _).nullableNode nullable
  | @union types members node hleaf hmembers _ hnode ih =>
    have hwrap : ∀ {node : Node}, node.IsUnaided →
        (if types.any isNull && !node.acceptsNull then .nullable node else node).IsUnaided := by
      intro node h
      split
      · exact .nullable h
      · exact h
    refine hwrap ?_
    have hdescribed := h'.of_wrap
    by_cases hone : members.length = 1
    · obtain ⟨member, rfl⟩ := List.length_eq_one_iff.mp hone
      obtain rfl : node = member.2 := hnode
      exact ih member List.mem_cons_self hdescribed
    · obtain ⟨_, rfl, -⟩ := hnode.of_length_ne_one hone
      cases hdescribed with
      | union hdescribed =>
      refine .union fun c hc ↦ ?_
      obtain ⟨member, hmember, rfl⟩ := List.mem_map.mp hc
      exact ih member hmember (hdescribed _ hc)

/-- What a node writes on its own is what its compiled encoder writes. -/
theorem Node.IsUnaided.encode_of_adds {e : Node} (he : e.IsUnaided) {v : Value} {text : String}
    (h : (e.writeDirect ⟨{}, config⟩ (.ofValue v)).Adds text) (r : Registry) :
    (TypedJson.compile e config.jsonFlags).encode r config v = .ok text := by
  obtain ⟨log, hrun⟩ := h ⟨"", [], []⟩
  rw [he.encode_eq r hrun]
  exact congrArg Except.ok String.empty_append

/-- A compiled encoder and a decoder read what they write, if the two nodes do. -/
theorem RoundTrips.decode_encode {e d : Node} {v : Value}
    (h : RoundTrips ⟨{}, config⟩ ⟨r, config⟩ e d v) (he : e.IsUnaided) :
    ∃ text, (compile e config.jsonFlags).encode r config v = .ok text ∧
      ∀ shapes, ∃ decoded, (d.decode r config shapes (Utf8.encode text)).1 = .ok decoded ∧
        decoded.errors = [] ∧ decoded.value.SameAs v := by
  obtain ⟨text, hadds, hfills⟩ := h (.ofValue v) rfl
  obtain ⟨tree, hwhole, htree⟩ := hfills 0
  refine ⟨text, he.encode_of_adds hadds r, fun shapes ↦ ?_⟩
  obtain ⟨a, cost, hdecode, hsame⟩ := htree.reads.value (w := Window.whole (Utf8.encode text))
    hwhole [] { collector := { isEnabled := config.collectErrors }, shapes }
  exact ⟨_, Node.decode_of_ok hdecode, rfl, hsame⟩

/-! ## Serializers -/

namespace Serializer

/-- The data model of a type in a direction can be built, and is self-describing. -/
def HasModel (r : Registry) (config : Config) (t : DataType) (direction : Direction) : Prop :=
  ∃ node ∈ (buildNode r config direction Stage.standard [] .reject t).1.toOption,
    node.IsSelfDescribing

instance (r : Registry) (config : Config) (t : DataType) (direction : Direction) :
    Decidable (HasModel r config t direction) :=
  inferInstanceAs (Decidable (∃ node ∈
    (buildNode r config direction Stage.standard [] .reject t).1.toOption, node.IsSelfDescribing))

theorem HasModel.exists_node {direction : Direction} (h : HasModel r config t direction) :
    ∃ node, (buildNode r config direction Stage.standard [] .reject t).1 = .ok node ∧
      node.IsSelfDescribing := by
  obtain ⟨node, hnode, hself⟩ := h
  cases hbuild : (buildNode r config direction Stage.standard [] .reject t).1 with
  | error failure =>
    rw [hbuild] at hnode
    cases hnode
  | ok built =>
    rw [hbuild] at hnode
    obtain rfl := Option.some.inj hnode
    exact ⟨built, rfl, hself⟩

theorem build_of_isBare (s : Serializer) (hconfig : config.IsBare) (direction : Direction)
    (metadata : MetadataCache) :
    s.build t direction config metadata =
      ((buildNode s.registry config direction s.pipeline metadata .reject t).1.map
          (artifactOf direction config),
        (buildNode s.registry config direction s.pipeline metadata .reject t).2) := by
  unfold build
  rw [hconfig.policy]

/-- An artifact that is neither in memory nor in a directory is that of the built node. -/
theorem artifact_of_ok {s : Serializer} (hconfig : config.IsBare) (direction : Direction)
    (hfind : Entries.find? s.codecs.memory (s.key t direction config) = none)
    (hdirectory : s.codecs.directory = none) {node : Node}
    (hnode : (buildNode s.registry config direction s.pipeline s.metadata .reject t).1 = .ok node) :
    s.artifact t direction config = (.ok (artifactOf direction config node),
      { s with
        codecs := s.codecs.keep (s.key t direction config) (artifactOf direction config node)
        metadata :=
          (buildNode s.registry config direction s.pipeline s.metadata .reject t).2 }) := by
  rw [artifact_eq hdirectory, hfind, build_of_isBare s hconfig, hnode]
  rfl

/-- A decoder is built over what building an encoder leaves. -/
theorem buildNode_after (hr : r.HasNoFormatters) (hconfig : config.IsBare) (ht : r.Denotes t) :
    (buildNode r config .decode Stage.standard
        (buildNode r config .encode Stage.standard [] .reject t).2 .reject t).1 =
      (buildNode r config .decode Stage.standard [] .reject t).1 := by
  have hpaired := hconfig.paired hr
  have hbound : Build.maxOpen .reject ≤ 2 ^ 64 := by decide
  have hadmits : Pipeline.Admits Stage.standard r t := fun _ ↦ ht
  have hsound := (buildNode_eq hpaired hbound hadmits .encode MetadataCache.isSound_nil
    MetadataCache.isSound_nil).2
  exact (buildNode_eq hpaired hbound hadmits .decode hsound MetadataCache.isSound_nil).1

/-- What is written for a value of a type is read as a value that compares as equal. -/
theorem decode_encode_sameAs (hr : r.HasNoFormatters) (hconfig : config.IsBare)
    (heager : config.lazy = false) {text : String} (ht : r.resolve text [] = .ok t)
    (hmodels : ∀ direction, HasModel r config t direction) {v : Value} (hv : v.IsOf r config t) :
    ∃ written decoded,
      ((fresh r Stage.standard).encode t config v).1 = .ok written ∧
        (((fresh r Stage.standard).encode t config v).2.decode t config (Utf8.encode written)).1 =
          .ok decoded ∧ decoded.errors = [] ∧ decoded.value.SameAs v := by
  have hdenotes := Registry.denotes_of_resolve ht
  obtain ⟨e, he, hwrites⟩ := (hmodels .encode).exists_node
  obtain ⟨d, hd, hreads⟩ := (hmodels .decode).exists_node
  have hwriter := models_of_buildNode hr hconfig hdenotes he
  have hreader := models_of_buildNode hr hconfig hdenotes hd
  have hround : RoundTrips ⟨{}, config⟩ ⟨r, config⟩ e d v :=
    hv.roundTrips {} heager hwriter hreader hwrites hreads
  obtain ⟨written, hwritten, hread⟩ := hround.decode_encode (hwriter.isUnaided hwrites)
  obtain ⟨decoded, hdecoded, hempty, hsame⟩ := hread []
  refine ⟨written, decoded, ?_, ?_, hempty, hsame⟩
  · unfold encode write encoder
    rw [artifact_of_ok hconfig .encode rfl rfl he]
    exact hwritten
  · unfold encode write encoder
    rw [artifact_of_ok hconfig .encode rfl rfl he]
    dsimp only [artifactOf]
    unfold decode decoder
    rw [artifact_of_ok hconfig .decode ?_ rfl ((buildNode_after hr hconfig hdenotes).trans hd)]
    · exact hdecoded
    · refine (Entries.find?_put_of_ne [] _ fun hkey ↦ ?_).trans rfl
      cases congrArg CodecKey.direction hkey

/-- A string or a list of strings. -/
def bodyType : DataType := unionOf [.scalar .string, .list (.scalar .string)]

/-- A class with a template parameter, another name for a property, and a point in time. -/
def noteRegistry : Registry where
  classes := [("Note", ⟨"Note", ["T"],
    [("id", ⟨"int", [.rename "_id"]⟩), ("body", ⟨"T", []⟩), ("seen", ⟨"?DateTime", []⟩)], []⟩)]

/-- A note whose body is a list. -/
def note : Object Value :=
  ⟨.made 0, "Note", .ready [("id", .initialized (.int 7)),
    ("body", .initialized (.list [.string "a", .string "b"])), ("seen", .initialized .null)]⟩

theorem note_isOf :
    (Value.object note).IsOf noteRegistry {} (DataType.object "Note" [bodyType]) := by
  let value (name : String) : Value :=
    if name = "id" then .int 7
    else if name = "body" then .list [.string "a", .string "b"]
    else .null
  let fields : List (String × DataType) :=
    [("id", .scalar .int), ("body", .template "T"),
      ("seen", DataType.mk (.object "DateTime" []) true)]
  have hfields : noteRegistry.fields "Note" = .ok fields := by with_unfolding_all rfl
  have hbody : Value.IsOf noteRegistry {} bodyType (.list [.string "a", .string "b"]) := by
    refine .member (List.mem_cons_of_mem _ List.mem_cons_self) (.list fun item hitem ↦ ?_)
      fun f hf ↦ nomatch hf
    rcases List.mem_cons.mp hitem with rfl | hitem
    · exact .string "a"
    · rw [List.mem_singleton.mp hitem]
      exact .string "b"
  refine @Value.IsOf.object noteRegistry {} false [bodyType] note fields [("T", bodyType)] value
    (by decide) hfields rfl (.refl _) ?_ ?_
  · simp only [fields, List.forall_mem_cons]
    exact ⟨rfl, rfl, rfl, List.forall_mem_nil _⟩
  · simp only [fields, List.forall_mem_cons]
    exact ⟨.int 7, hbody, .null, List.forall_mem_nil _⟩

/-- A note is written and read. -/
theorem decode_encode_sameAs_note : ∃ written decoded,
    ((fresh noteRegistry Stage.standard).encode (DataType.object "Note" [bodyType]) {}
      (.object note)).1 = .ok written ∧
    (((fresh noteRegistry Stage.standard).encode (DataType.object "Note" [bodyType]) {}
      (.object note)).2.decode (DataType.object "Note" [bodyType]) {} (Utf8.encode written)).1 =
        .ok decoded ∧ decoded.errors = [] ∧ decoded.value.SameAs (.object note) := by
  have hfree : TypeText.IsFree "Note" := by constructor <;> decide
  have hsettled : Settled ⟨noteRegistry.lookup, []⟩ (DataType.object "Note" [bodyType]) := by
    refine .object false hfree List.not_mem_nil (by decide) rfl fun t ht ↦ ?_
    rw [List.mem_singleton.mp ht]
    refine .unionOf (by decide) ?_ (by unfold AreDistinct; decide)
    simp only [List.forall_mem_cons]
    exact ⟨⟨.scalar .string false, rfl⟩, ⟨.list false (.scalar .string false), rfl⟩,
      List.forall_mem_nil _⟩
  refine decode_encode_sameAs ?_ ⟨rfl, rfl, rfl⟩ rfl hsettled.resolve_text ?_ note_isOf
  · refine Registry.hasNoFormatters_of_forall ?_
    simp only [noteRegistry, List.forall_mem_cons]
    simp
  · intro direction
    cases direction <;> decide +kernel

end Serializer

end TypedJson
