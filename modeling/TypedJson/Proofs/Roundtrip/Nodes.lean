import TypedJson.Proofs.Decode.Plans
import TypedJson.Proofs.Roundtrip.Mixed
import TypedJson.Proofs.Roundtrip.Models

/-!
# Nodes that write and read

A node of an encoder and a node of a decoder round-trip a value if the first one writes it and the
second one reads the same value from what was written, wherever that stands.
-/

namespace TypedJson

/-! ## Shapes -/

theorem Parsed.isNull_iff {tree : Parsed} : tree.isNull = true ↔ tree.shape = "null" := by
  match tree with
  | .scalar _ literal (.number n) =>
    rw [Parsed.shape]
    split <;> simp [Parsed.isNull]
  | .scalar _ _ .null => simp [Parsed.isNull, Parsed.shape, Json.kindName]
  | .scalar _ _ (.bool _) | .scalar _ _ (.string _) | .scalar _ _ (.list _)
  | .scalar _ _ (.dict _) | .list _ _ | .dict _ _ =>
    simp [Parsed.isNull, Parsed.shape, Json.kindName]

theorem Value.HasShape.isNull {flags : JsonFlags} {v : Value} {tree : Parsed}
    (h : v.HasShape flags tree.shape) : tree.isNull = v.isNull := by
  rw [Bool.eq_iff_iff, Parsed.isNull_iff]
  match v with
  | .null | .bool _ | .int _ | .string _ | .dateTime _ | .list _ | .dict _ | .object _ =>
    rw [show tree.shape = _ from h]
    simp [Value.isNull]
  | .float f =>
    obtain hshape | ⟨hshape, -⟩ :
        tree.shape = "float" ∨ tree.shape = "int" ∧ ¬StaysFloat flags f := h
    · simp [hshape, Value.isNull]
    · simp [hshape, Value.isNull]
  | .enum _ case =>
    rw [show tree.shape = _ from h]
    cases case <;> simp [Value.caseShape, Value.isNull]

/-- The tree has the shape of the value, and the plan of the node reads the value from it. -/
structure Parsed.IsTextOf (context : DecodeContext) (node : Node) (v : Value) (tree : Parsed) :
    Prop where
  shape : v.HasShape context.config.jsonFlags tree.shape
  reads : Decode.Reads (node.plan context) tree v

/-- What the first node writes for the value is read by the second node as the value. -/
def RoundTrips (writing : RunContext) (reading : DecodeContext) (e d : Node) (v : Value) : Prop :=
  ∀ source : Source, source.outcome = .ok v →
    (e.writeDirect writing source).WritesValue (Parsed.IsTextOf reading d v)

namespace RoundTrips

variable {writing : RunContext} {reading : DecodeContext} {e d : Node} {v : Value}

/-! ## Nullable nodes -/

theorem nullable_left (h : RoundTrips writing reading e d v) (hv : v.isNull = false) :
    RoundTrips writing reading (.nullable e) d v := by
  intro source hsource
  rw [Node.writeDirect]
  refine .look_bind hsource ?_
  rw [if_neg (Bool.eq_false_iff.mp hv)]
  exact h (.ofValue v) rfl

theorem nullable_right (h : RoundTrips writing reading e d v) (hv : v.isNull = false) :
    RoundTrips writing reading e (.nullable d) v := by
  intro source hsource
  refine (h source hsource).mono fun tree htree ↦ ⟨htree.shape, fun w place hw ↦ ?_⟩
  show (do Decode.look w; if w.looksNull then return .null else
    Decode.value (d.plan reading) w place : Decode Value).Gives _
  refine .look_bind ?_
  rw [hw.looksNull, htree.shape.isNull, hv]
  exact htree.reads.value hw place

theorem nullable (h : RoundTrips writing reading e d v) (hv : v.isNull = false) (nullable : Bool) :
    RoundTrips writing reading (nullableNode nullable e) (nullableNode nullable d) v := by
  cases nullable
  · exact h
  · exact (h.nullable_left hv).nullable_right hv

end RoundTrips

/-- A node that accepts `null` reads it. -/
theorem Parsed.IsLeafOf.isTextOf_null {reading : DecodeContext} {d : Node} {tree : Parsed}
    (htree : tree.IsLeafOf .null "null") (hd : d.acceptsNull = true) :
    tree.IsTextOf reading d .null := by
  refine ⟨htree.shape, fun w place hw ↦ ?_⟩
  cases d with
  | null =>
    refine (Decode.gives_json htree hw).bind ?_
    rintro _ rfl
    exact .pure .null
  | mixed =>
    refine (Decode.gives_json htree hw).bind ?_
    rintro _ rfl
    exact .pure .null
  | nullable inner =>
    show (do Decode.look w; if w.looksNull then return .null else
      Decode.value (inner.plan reading) w place : Decode Value).Gives _
    refine .look_bind ?_
    rw [hw.looksNull, Parsed.isNull_iff.mpr htree.shape]
    exact .pure .null
  | _ => cases hd

/-- Nodes that accept `null` round-trip it. -/
theorem RoundTrips.null {writing : RunContext} {reading : DecodeContext} {e d : Node}
    (he : e.acceptsNull = true) (hd : d.acceptsNull = true) :
    RoundTrips writing reading e d .null := by
  intro source hsource
  have hwrites : (e.writeDirect writing source).WritesValue (Parsed.IsLeafOf .null "null") := by
    cases e with
    | null => exact Run.writes_null
    | mixed => exact .look_bind hsource Run.writes_null
    | nullable inner => exact .look_bind hsource Run.writes_null
    | _ => cases he
  exact hwrites.mono fun _ htree ↦ htree.isTextOf_null hd

/-! ## Leaves -/

theorem Decode.gives_json_of_fits {tree : Parsed} {w : Window} (h : tree.Fits w) :
    (Decode.json w).Gives (· = tree.json) :=
  .look_bind (.found h.json rfl)

namespace RoundTrips

variable {wr r : Registry} {config : Config} {e d : Node}

theorem of_leaf {kind : ScalarKind} {v v' : Value} {value : Json} {shape : String}
    (hwrites : (Run.writeScalar config.jsonFlags kind v).WritesValue (Parsed.IsLeafOf value shape))
    (hshape : v.HasShape config.jsonFlags shape) (hread : kind.ofJson value = .ok v')
    (hsame : v'.SameAs v) :
    RoundTrips ⟨wr, config⟩ ⟨r, config⟩ (.scalar kind) (.scalar kind) v := by
  intro source hsource
  refine .look_bind hsource
    (hwrites.mono fun tree htree ↦ ⟨htree.shape ▸ hshape, fun w place hw ↦ ?_⟩)
  exact (Decode.gives_scalar htree hread hw).mono fun _ h ↦ h ▸ hsame

theorem int (i : Int64) :
    RoundTrips ⟨wr, config⟩ ⟨r, config⟩ (.scalar .int) (.scalar .int) (.int i) :=
  of_leaf (Run.writes_int i) rfl (ScalarKind.ofJson_int i) (.int i)

theorem float {f : Float} (h : ReadsBack config.jsonFlags f) :
    RoundTrips ⟨wr, config⟩ ⟨r, config⟩ (.scalar .float) (.scalar .float) (.float f) := by
  obtain ⟨n, shape, hsame, -, hshape, hwrites⟩ := Run.writes_float h
  exact of_leaf hwrites hshape rfl (.float hsame)

theorem bool (b : Bool) :
    RoundTrips ⟨wr, config⟩ ⟨r, config⟩ (.scalar .bool) (.scalar .bool) (.bool b) :=
  of_leaf (Run.writes_bool b) rfl rfl (.bool b)

theorem string (s : String) :
    RoundTrips ⟨wr, config⟩ ⟨r, config⟩ (.scalar .string) (.scalar .string) (.string s) :=
  of_leaf (Run.writes_string config.jsonFlags s) rfl rfl (.string s)

theorem mixed {v : Value} (h : v.IsPlain config.jsonFlags Json.nesting) :
    RoundTrips ⟨wr, config⟩ ⟨r, config⟩ .mixed .mixed v := by
  intro source hsource
  refine .look_bind hsource (h.writes.mono fun tree htree ↦ ⟨htree.shape, fun w place hw ↦ ?_⟩)
  refine (Decode.gives_json_of_fits ⟨hw, htree.height⟩).bind ?_
  rintro _ rfl
  exact .pure htree.same

end RoundTrips

theorem Registry.find?_enums {r : Registry} {className : String} {e : EnumDescriptor}
    (h : r.findEnum className = .ok e) : Entries.find? r.enums className = some e := by
  unfold Registry.findEnum at h
  cases hfind : Entries.find? r.enums className with
  | none => simp [hfind] at h
  | some e' =>
    simp only [hfind, Except.ok.injEq] at h
    rw [h]

/-- A point in time is formatted to a text that it is restored from. -/
theorem Run.WritesValue.formatted_bind {context : RunContext} {t : DateTime}
    {pattern : Option String} {text : String} (h : t.write pattern = .ok text)
    {f : Value → Run Unit} {P : Parsed → Prop} (hf : (f (.string text)).WritesValue P) :
    Run.WritesValue (Run.formatted context (.dateTime t) (.dateTimeFormat pattern) >>= f) P := by
  unfold Run.formatted
  rw [bind_assoc]
  have hfound : Run.WritesValue (Run.found (.ok (.string text)) >>= f) P := hf
  refine .traced_bind (fun log ↦ ?_) hfound
  rw [FormatterRef.apply, h]
  rfl

theorem Decode.gives_format {context : DecodeContext} {text : String} {pattern : Option String}
    {t : DateTime} (h : DateTime.read text pattern = .ok t) :
    (Decode.format context (.string text) (.dateTimeParse pattern)).Gives (· = .dateTime t) := by
  have happly : FormatterRef.apply (.dateTimeParse pattern) context.registry.formatters
      context.config (.string text) [] = (.ok (.dateTime t), []) := by
    rw [FormatterRef.apply, h]
    rfl
  rw [Decode.format, happly]
  exact .pay_bind (.pure rfl)

namespace RoundTrips

variable {wr r : Registry} {config : Config} {e d : Node}

theorem enum {className : String} {e : EnumDescriptor} {backed : Value}
    (hfind : r.findEnum className = .ok e) (hcase : e.HasCase backed) :
    RoundTrips ⟨wr, config⟩ ⟨r, config⟩ (.enum className e.backing) (.enum className e.backing)
      (.enum className backed) := by
  intro source hsource
  refine .look_bind hsource ?_
  cases backed with
  | int i =>
    obtain ⟨hbacking, haccepts⟩ := hcase
    rw [hbacking]
    refine (Run.writes_int i).mono fun tree htree ↦ ⟨htree.shape, fun w place hw ↦ ?_⟩
    show (Decode.enumCase r className .int w).Gives _
    unfold Decode.enumCase
    rw [Registry.find?_enums hfind]
    refine (Decode.gives_scalar htree (ScalarKind.ofJson_int i) hw).bind ?_
    rintro _ rfl
    dsimp only
    rw [pure_bind, if_pos haccepts]
    exact .pure (.enum (.int i))
  | string s =>
    obtain ⟨hbacking, haccepts⟩ := hcase
    rw [hbacking]
    refine (Run.writes_string config.jsonFlags s).mono fun tree htree ↦
      ⟨htree.shape, fun w place hw ↦ ?_⟩
    show (Decode.enumCase r className .string w).Gives _
    unfold Decode.enumCase
    rw [Registry.find?_enums hfind]
    refine (Decode.gives_scalar htree (ScalarKind.ofJson_string s) hw).bind ?_
    rintro _ rfl
    dsimp only
    rw [pure_bind, if_pos haccepts]
    exact .pure (.enum (.string s))
  | _ => exact hcase.elim

theorem dateTime {t : DateTime} (h : t.IsRestored config.dateTimeFormat) :
    RoundTrips ⟨wr, config⟩ ⟨r, config⟩ (.dateTime config.dateTimeFormat)
      (.dateTime config.dateTimeFormat) (.dateTime t) := by
  obtain ⟨text, t', hwrite, hread, hsame⟩ := h
  intro source hsource
  refine .look_bind hsource (.formatted_bind hwrite ?_)
  refine (Run.writes_string config.jsonFlags text).mono fun tree htree ↦
    ⟨htree.shape, fun w place hw ↦ ?_⟩
  refine (Decode.gives_scalar htree (ScalarKind.ofJson_string text) hw).bind ?_
  rintro _ rfl
  exact (Decode.gives_format hread).mono fun _ h ↦ h ▸ .dateTime hsame

end RoundTrips

/-! ## Containers -/

/-- The text of a key of a kind is read as the key. -/
theorem DictKey.ofText_text {kind : ScalarKind} {key : DictKey} (h : key.IsOf kind) :
    DictKey.ofText kind key.text = .ok key := by
  cases key with
  | int i =>
    cases kind with
    | int => rw [DictKey.ofText, DictKey.text, Decimal.int64?_toString]
    | _ => exact h.elim
  | string s =>
    cases kind with
    | string => rfl
    | _ => exact h.elim

namespace RoundTrips

variable {wr r : Registry} {config : Config} {e d : Node}

theorem list {items : List Value}
    (h : ∀ item ∈ items, RoundTrips ⟨wr, config⟩ ⟨r, config⟩ e d item) :
    RoundTrips ⟨wr, config⟩ ⟨r, config⟩ (.list e) (.list d) (.list items) := by
  intro source hsource
  refine Run.writesValue_list (fun text hadds ↦ Run.Adds.look_bind hsource hadds)
    (fun item hitem ↦ h item hitem (.ofValue item) rfl) ?_
  intro offset trees htrees
  refine ⟨rfl, fun w place hw ↦ ?_⟩
  refine (Decode.gives_members_list hw rfl).bind fun ms hms ↦ ?_
  refine (Decode.gives_items (htrees.flip.imp fun _ _ htree ↦ htree.reads) hms place 0).bind ?_
  exact fun read hread ↦ .pure (.list hread)

theorem dict {kind : ScalarKind} {entries : List (DictKey × Value)}
    (hkeys : ∀ entry ∈ entries, entry.1.IsOf kind) (hdistinct : (entries.map (·.1)).Nodup)
    (h : ∀ entry ∈ entries, RoundTrips ⟨wr, config⟩ ⟨r, config⟩ e d entry.2) :
    RoundTrips ⟨wr, config⟩ ⟨r, config⟩ (.dict kind e) (.dict kind d) (.dict entries) := by
  intro source hsource
  refine Run.writesValue_dict config.jsonFlags (·.1.text) (fun text hadds ↦ ?_)
    (fun entry hentry ↦ h entry hentry (.ofValue entry.2) rfl) ?_
  · rw [← Run.forEntries_eq _ fun value ↦ e.writeDirect ⟨wr, config⟩ (.ofValue value)] at hadds
    exact Run.Adds.look_bind hsource hadds
  · intro offset trees htrees
    refine ⟨rfl, fun w place hw ↦ ?_⟩
    refine (Decode.gives_members_dict hw rfl).bind fun ms hms ↦ ?_
    have hboth := (List.forall₂_and_left entries trees).mpr ⟨hkeys, htrees⟩
    have hread := hboth.flip.imp fun tree entry htree ↦
      (⟨DictKey.ofText_text htree.1 ▸ htree.2.1 ▸ rfl, htree.2.2.reads⟩ :
        DictKey.ofText kind tree.1 = .ok entry.1 ∧ Decode.Reads (d.plan ⟨r, config⟩) tree.2 entry.2)
    refine (Decode.gives_entries hdistinct hread hms place ?_).bind ?_
    · exact fun _ h ↦ absurd h List.not_mem_nil
    · rintro _ ⟨read, rfl, hsame⟩
      exact .pure (.dict hdistinct hsame)

end RoundTrips

end TypedJson
