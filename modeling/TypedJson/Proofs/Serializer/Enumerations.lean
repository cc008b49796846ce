import TypedJson.Proofs.Decode.Deferring
import TypedJson.Proofs.Serializer.Roundtrip

/-!
# Enumerations that write and read

A case of an enumeration is written as the value that backs it, of whatever kind that is. It is read
back if integers or strings back the cases, wherever it stands. Where floats or booleans do, a
decoder refuses every text.
-/

namespace TypedJson

open Decode (Returns)

variable {r : Registry} {config : Config} {className : String} {e : EnumDescriptor}

/-! ## Types -/

/-- The node of an enumeration has the kind that backs it in the registry, in any build. -/
theorem Build.node_enum (context : BuildContext)
    (hfind : context.registry.findEnum className = .ok e) (backing : ScalarKind) (nullable : Bool) :
    Build.node context (DataType.mk (.enum className backing) nullable) =
      pure (nullableNode nullable (.enum className e.backing)) := by
  show (do
    let e ← Build.lift (context.registry.findEnum className)
    return nullableNode nullable (.enum className e.backing) : Build Node) = _
  rw [hfind]
  rfl

theorem Build.node_list (context : BuildContext) {t : DataType} {item : Node}
    (h : Build.node context t = pure item) :
    Build.node context (DataType.list t) = pure (.list item) := by
  show (do return nullableNode false (.list (← Build.node context t)) : Build Node) = _
  rw [h]
  rfl

/-! ## Cases that are read back -/

/-- The value is made up of cases of enumerations, in lists and in fields of objects, as the node
has them. Integers or strings back the cases. That the items of a list name no formatters is said
for lists that are empty. -/
inductive Node.HoldsCases (r : Registry) : Node → Value → Prop
  | case {className : String} {e : EnumDescriptor} {backed : Value}
    (hfind : r.findEnum className = .ok e) (hcase : e.HasCase backed) :
    HoldsCases r (.enum className e.backing) (.enum className backed)
  | nullable {node : Node} {v : Value} (h : HoldsCases r node v) : HoldsCases r (.nullable node) v
  | list {item : Node} {items : List Value} (hitem : item.IsUnaided)
    (h : ∀ v ∈ items, HoldsCases r item v) : HoldsCases r (.list item) (.list items)
  | object {properties : List (PropertyNode Node)} {o : Object Value} (value : String → Value)
    (hsource : (properties.map (·.sourceName)).Nodup)
    (hencoded : (properties.map (·.encodedName)).Nodup)
    (hplain : ∀ p ∈ properties, p.accessor = .field p.sourceName ∧ p.formatters = [])
    (hnames : o.HasFields (properties.map (·.sourceName)))
    (hvalue : ∀ p ∈ properties, (o.get p.sourceName).result = .ok (some (value p.sourceName)))
    (h : ∀ p ∈ properties, HoldsCases r p.node (value p.sourceName)) :
    HoldsCases r (.object o.className properties) (.object o)

namespace Node.HoldsCases

variable {node : Node} {v : Value}

theorem isNull_eq_false (h : node.HoldsCases r v) : v.isNull = false := by
  induction h with
  | nullable _ ih => exact ih
  | case | list | object => rfl

theorem isUnaided (h : node.HoldsCases r v) : node.IsUnaided := by
  induction h with
  | case => exact .enum _ _
  | nullable _ ih => exact .nullable ih
  | list hitem => exact .list hitem
  | object value _ _ hplain _ _ _ ih =>
    refine .object _ (fun p hp name ↦ ?_) ih
    rw [(hplain p hp).2]
    exact List.not_mem_nil

theorem roundTrips (heager : config.lazy = false) (wr : Registry) (h : node.HoldsCases r v) :
    RoundTrips ⟨wr, config⟩ ⟨r, config⟩ node node v := by
  induction h with
  | case hfind hcase => exact .enum hfind hcase
  | nullable h ih => exact ih.nullable h.isNull_eq_false true
  | list _ _ ih => exact .list ih
  | @object properties o value hsource hencoded hplain hnames hvalue _ ih =>
    have hproperty : ∀ p ∈ properties,
        PropertyRoundTrips ⟨wr, config⟩ ⟨r, config⟩ o (value p.sourceName) p p := by
      rintro ⟨sourceName, encodedName, accessor, formatters, node⟩ hp
      obtain ⟨haccessor, hformatters⟩ := hplain _ hp
      dsimp only at haccessor hformatters
      rw [haccessor, hformatters]
      exact .of_plain (hvalue _ hp) (ih ⟨sourceName, encodedName, accessor, formatters, node⟩ hp)
    have hround := RoundTrips.object heager id id value hsource hencoded hnames hvalue hproperty
    rwa [List.map_id] at hround

end Node.HoldsCases

/-! ## Cases that are refused -/

/-- The value is of the kind that backs the cases, and has a text. -/
def EnumDescriptor.Backs (flags : JsonFlags) (e : EnumDescriptor) : Value → Prop
  | .int _ => e.backing = .int
  | .float f => e.backing = .float ∧ ∃ text, Json.floatText? flags f = some text
  | .bool _ => e.backing = .bool
  | .string _ => e.backing = .string
  | _ => False

/-- Whatever backs the cases, they are written. -/
theorem EnumDescriptor.Backs.exists_adds {v : Value} (h : e.Backs config.jsonFlags v)
    (className : String) : ∃ text,
      ((Node.enum className e.backing).writeDirect ⟨{}, config⟩
        (.ofValue (.enum className v))).Adds text := by
  have hwrites : ∃ text, (Run.writeScalar config.jsonFlags e.backing v).Adds text := by
    cases v with
    | int i =>
      rw [show e.backing = .int from h]
      exact ⟨_, .write _⟩
    | float f =>
      obtain ⟨hbacking, text, htext⟩ := h
      rw [hbacking, Run.writeScalar, Run.writeFloat, htext]
      exact ⟨_, .write _⟩
    | bool b =>
      rw [show e.backing = .bool from h]
      exact ⟨_, .write _⟩
    | string s =>
      rw [show e.backing = .string from h]
      exact ⟨_, .write _⟩
    | null | list | dict | object | enum | dateTime => exact h.elim
  obtain ⟨text, hadds⟩ := hwrites
  exact ⟨text, .look_bind rfl hadds⟩

/-- A scalar that is read is of its kind. -/
theorem Decode.returns_scalar_kind (kind : ScalarKind) (w : Window) :
    Returns (fun v ↦ v.kindName = kind.name) (Decode.scalar kind w) := by
  refine .bind fun json ↦ ?_
  intro state v state' hrun
  have hv := Decode.returns_found _ state v state' hrun
  unfold ScalarKind.ofJson at hv
  grind [ScalarKind.name, Value.kindName]

/-- No text is read as a case that a float or a boolean backs. -/
theorem Decode.not_returns_enumCase (hfind : r.findEnum className = .ok e)
    (hbacking : e.backing = .float ∨ e.backing = .bool) (w : Window) :
    Returns (fun _ ↦ False) (Decode.enumCase r className e.backing w) := by
  unfold Decode.enumCase
  rw [Registry.find?_enums hfind]
  refine (returns_scalar_kind e.backing w).bind_of_returns fun case hkind ↦ ?_
  have hother : case.kindName = "float" ∨ case.kindName = "bool" := by
    rw [hkind]
    exact hbacking.imp (congrArg ScalarKind.name) (congrArg ScalarKind.name)
  cases case with
  | int | string => simp [Value.kindName] at hother
  | null | bool | float | list | dict | object | enum | dateTime =>
    intro state v state' hrun
    cases hrun

/-! ## Decoders and encoders -/

/-- **What backs the cases of an enumeration decides whether they are read back.** In any build, the
nodes of its type and of lists of it are those that are expected. If integers or strings back the
cases, what is made up of them is written, and read as the same, without errors. If floats or
booleans do, cases are written, but no text at all is read as one. -/
theorem decode_encode_enum (heager : config.lazy = false) :
    (∀ (direction : Direction) (pipeline : Pipeline) (policy : CircularPolicy) (className : String)
        (e : EnumDescriptor) (backing : ScalarKind) (nullable : Bool),
      r.findEnum className = .ok e →
        Build.node ⟨r, config, direction, pipeline, policy⟩
            (DataType.mk (.enum className backing) nullable) =
          pure (nullableNode nullable (.enum className e.backing)) ∧
        Build.node ⟨r, config, direction, pipeline, policy⟩
            (DataType.list (DataType.mk (.enum className backing) nullable)) =
          pure (.list (nullableNode nullable (.enum className e.backing)))) ∧
    (∀ node v, Node.HoldsCases r node v →
      ∃ text, (compile node config.jsonFlags).encode r config v = .ok text ∧
        ∀ shapes, ∃ decoded, (node.decode r config shapes (Utf8.encode text)).1 = .ok decoded ∧
          decoded.errors = [] ∧ decoded.value.SameAs v) ∧
    ∀ className e, r.findEnum className = .ok e → e.backing = .float ∨ e.backing = .bool →
      (∀ v, e.Backs config.jsonFlags v →
        ∃ text, (compile (.enum className e.backing) config.jsonFlags).encode r config
          (.enum className v) = .ok text) ∧
      ∀ shapes bytes decoded,
        ((Node.enum className e.backing).decode r config shapes bytes).1 ≠ .ok decoded := by
  refine ⟨?_, ?_, ?_⟩
  · intro direction pipeline policy className e backing nullable hfind
    have hnode := Build.node_enum ⟨r, config, direction, pipeline, policy⟩ hfind backing nullable
    exact ⟨hnode, Build.node_list _ hnode⟩
  · intro node v h
    exact (h.roundTrips heager {}).decode_encode h.isUnaided
  · intro className e hfind hbacking
    refine ⟨fun v hv ↦ ?_, fun shapes bytes decoded hdecode ↦ ?_⟩
    · obtain ⟨text, hadds⟩ := hv.exists_adds className
      exact ⟨text, (Node.IsUnaided.enum className e.backing).encode_of_adds hadds r⟩
    · have hnone := (Decode.not_returns_enumCase hfind hbacking (Window.whole bytes)).locate []
      cases hrun : Decode.value ((Node.enum className e.backing).plan ⟨r, config⟩)
          (Window.whole bytes) []
          { collector := { isEnabled := config.collectErrors }, shapes } with
      | ok v state => exact hnone _ _ _ hrun
      | error failure state =>
        rw [Node.decode_of_error hrun] at hdecode
        cases hdecode

/-- Enumerations that strings, integers and booleans back. -/
def cardRegistry : Registry where
  enums := [("Suit", ⟨"Suit", .string, [("Hearts", .string "H"), ("Spades", .string "S")]⟩),
    ("Rank", ⟨"Rank", .int, [("Two", .number (.natural 2)), ("Three", .number (.natural 3))]⟩),
    ("Open", ⟨"Open", .bool, [("Yes", .bool true)]⟩)]

/-- The node of a card, which has ranks and maybe a suit. -/
def cardNode : Node :=
  .object "Card" [⟨"suit", "s", .field "suit", [], .nullable (.enum "Suit" .string)⟩,
    ⟨"ranks", "r", .field "ranks", [], .list (.enum "Rank" .int)⟩]

/-- A card with two ranks. -/
def card : Object Value :=
  ⟨.made 0, "Card", .ready [("suit", .initialized (.enum "Suit" (.string "S"))),
    ("ranks", .initialized (.list [.enum "Rank" (.int 3), .enum "Rank" (.int 2)]))]⟩

theorem card_holdsCases : cardNode.HoldsCases cardRegistry (.object card) := by
  have hsuit : (Node.enum "Suit" .string).HoldsCases cardRegistry (.enum "Suit" (.string "S")) :=
    @Node.HoldsCases.case cardRegistry "Suit" _ (.string "S") rfl ⟨rfl, by decide⟩
  have hrank : ∀ i : Int64, i = 2 ∨ i = 3 →
      (Node.enum "Rank" .int).HoldsCases cardRegistry (.enum "Rank" (.int i)) := by
    rintro i (rfl | rfl)
    · exact @Node.HoldsCases.case cardRegistry "Rank" _ (.int 2) rfl ⟨rfl, by decide⟩
    · exact @Node.HoldsCases.case cardRegistry "Rank" _ (.int 3) rfl ⟨rfl, by decide⟩
  let value (name : String) : Value :=
    if name = "suit" then .enum "Suit" (.string "S")
    else .list [.enum "Rank" (.int 3), .enum "Rank" (.int 2)]
  refine @Node.HoldsCases.object cardRegistry _ card value (by decide) (by decide) ?_ (.refl _)
    ?_ ?_
  · simp
  · simp only [List.forall_mem_cons]
    exact ⟨rfl, rfl, List.forall_mem_nil _⟩
  · simp only [List.forall_mem_cons]
    refine ⟨.nullable hsuit, .list (.enum _ _) ?_, List.forall_mem_nil _⟩
    simp only [List.forall_mem_cons]
    exact ⟨hrank 3 (.inr rfl), hrank 2 (.inl rfl), List.forall_mem_nil _⟩

/-- A card is written and read; that something is open is written and not read. -/
theorem decode_encode_enum_card :
    ({} : Config).lazy = false ∧ cardNode.HoldsCases cardRegistry (.object card) ∧
    (∃ text, (compile cardNode ({} : Config).jsonFlags).encode cardRegistry {} (.object card) =
        .ok text ∧
      ∀ shapes, ∃ decoded,
        (cardNode.decode cardRegistry {} shapes (Utf8.encode text)).1 = .ok decoded ∧
          decoded.errors = [] ∧ decoded.value.SameAs (.object card)) ∧
    (∃ text, (compile (.enum "Open" .bool) ({} : Config).jsonFlags).encode cardRegistry {}
      (.enum "Open" (.bool true)) = .ok text) ∧
    ∀ shapes bytes decoded,
      ((Node.enum "Open" .bool).decode cardRegistry {} shapes bytes).1 ≠ .ok decoded := by
  obtain ⟨-, hread, hrefused⟩ := @decode_encode_enum cardRegistry {} rfl
  obtain ⟨hwritten, hnone⟩ := hrefused "Open" _ rfl (.inr rfl)
  exact ⟨rfl, card_holdsCases, hread cardNode _ card_holdsCases, hwritten (.bool true) rfl, hnone⟩

end TypedJson
