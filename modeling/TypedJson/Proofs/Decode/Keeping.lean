import TypedJson.Proofs.Decode.Leaves
import TypedJson.Proofs.Decode.Plans
import TypedJson.Proofs.Entries
import TypedJson.Proofs.Fingerprint

/-!
# What decoding keeps

A step changes what decoding keeps track of in three ways: it adds a cost, it collects an error, or
it remembers a shape. Properties that survive these survive the reading of any node, whether it
succeeds or fails, and whether it makes objects at once or later.

Two properties matter: a strict decoder stays strict, and every remembered shape is the one that its
class would have been given anew.
-/

namespace TypedJson

/-! ## Remembered shapes -/

/-- Every shape is the one that is built for what it is remembered by. -/
def GhostShapes.IsSound (shapes : GhostShapes) : Prop :=
  ∀ key shape, Entries.find? shapes key = some shape →
    ∃ className layout, key = GhostShape.feed className layout ∧
      GhostShape.of className layout = .ok shape

theorem GhostShape.className_of {className : String} {layout : List (String × String)}
    {shape : GhostShape} (h : GhostShape.of className layout = .ok shape) :
    shape.className = className := by
  unfold GhostShape.of at h
  dsimp only at h
  split at h
  · cases h
  · cases h
    rfl

theorem firstRepeated_eq_none {seen names : List String} (hnodup : names.Nodup)
    (hnew : ∀ name ∈ names, name ∉ seen) : firstRepeated seen names = none := by
  induction names generalizing seen with
  | nil => rfl
  | cons name names ih =>
    obtain ⟨hname, hnames⟩ := List.nodup_cons.mp hnodup
    have hunseen : ¬ seen.contains name = true := by
      rw [List.contains_iff_mem]
      exact hnew name List.mem_cons_self
    rw [firstRepeated, if_neg hunseen]
    refine ih hnames fun other hother hmem ↦ ?_
    rcases List.mem_cons.mp hmem with rfl | hseen
    · exact hname hother
    · exact hnew other (List.mem_cons_of_mem _ hother) hseen

namespace GhostShapes

variable {shapes : GhostShapes} {className : String} {layout : List (String × String)}

theorem isSound_nil : IsSound [] := fun _ _ h ↦ nomatch h

theorem IsSound.load (h : shapes.IsSound) (className : String) (layout : List (String × String)) :
    (shapes.load className layout).2.IsSound := by
  unfold GhostShapes.load
  dsimp only
  split
  · exact h
  · split
    · next shape hshape =>
      exact Entries.forall_find?_put h ⟨className, layout, rfl, hshape⟩
    · exact h

/-- A class whose properties have distinct names in the text has a shape, and no other class's. -/
theorem IsSound.exists_load (h : shapes.IsSound) (hnodup : (layout.map (·.2)).Nodup) :
    ∃ shape, (shapes.load className layout).1 = .ok shape ∧ shape.className = className := by
  unfold GhostShapes.load
  dsimp only
  cases hfind : Entries.find? shapes (GhostShape.feed className layout) with
  | some shape =>
    obtain ⟨className', layout', hfeed, hshape⟩ := h _ _ hfind
    obtain ⟨rfl, -⟩ := Fingerprint.text_append_inj hfeed
    exact ⟨shape, rfl, GhostShape.className_of hshape⟩
  | none =>
    have hshape : GhostShape.of className layout =
        .ok ⟨className, layout.map (·.1), layout.map (·.2)⟩ := by
      unfold GhostShape.of
      dsimp only
      rw [firstRepeated_eq_none hnodup fun _ _ ↦ List.not_mem_nil]
    rw [hshape]
    exact ⟨_, rfl, rfl⟩

end GhostShapes

/-! ## Properties of states that steps keep -/

/-- The property survives everything that changes a state. -/
structure DecodeState.IsInvariant (P : DecodeState → Prop) : Prop where
  pay : ∀ {state} cost, P state → P { state with cost }
  record : ∀ {state failure collector}, P state →
    state.collector.record? failure = some collector → P { state with collector }
  remember : ∀ {state} className layout, P state →
    P { state with shapes := (state.shapes.load className layout).2 }

/-- The decoder fails with the first error, and the shapes that it remembers are sound. -/
structure DecodeState.IsStrict (state : DecodeState) : Prop where
  collector : state.collector = .strict
  shapes : state.shapes.IsSound

theorem DecodeState.isInvariant_isSound :
    DecodeState.IsInvariant fun state ↦ state.shapes.IsSound where
  pay _ h := h
  record h _ := h
  remember className layout h := h.load className layout

theorem DecodeState.isInvariant_isStrict : DecodeState.IsInvariant DecodeState.IsStrict where
  pay _ h := ⟨h.collector, h.shapes⟩
  record h hrecord := by
    rw [h.collector] at hrecord
    cases hrecord
  remember className layout h := ⟨h.collector, h.shapes.load className layout⟩

namespace Decode

variable {α β : Type}

/-- The state in which a step ends. -/
def after (x : Decode α) (state : DecodeState) : DecodeState :=
  match x state with
  | .ok _ state' | .error _ state' => state'

theorem after_of_ok {x : Decode α} {state state' : DecodeState} {a : α}
    (h : x state = .ok a state') : after x state = state' := by rw [after, h]

theorem after_of_error {x : Decode α} {state state' : DecodeState} {failure : Failure}
    (h : x state = .error failure state') : after x state = state' := by rw [after, h]

/-- The step ends in a state with the property if it begins in one. -/
def Keeps (P : DecodeState → Prop) (x : Decode α) : Prop := ∀ state, P state → P (after x state)

theorem later_of_ok {x : Decode α} {state state' : DecodeState} {a : α}
    (h : x { state with cost := 0, collector := .strict } = .ok a state') :
    later x state = .ok (state'.cost, .ok a) state := by
  show (match x { state with cost := 0, collector := .strict } with
    | .ok a after => (Pure.pure (after.cost, .ok a) : Decode (Cost × Except Failure α))
    | .error failure after => Pure.pure (after.cost, .error failure)) state = _
  rw [h]
  rfl

theorem later_of_error {x : Decode α} {state state' : DecodeState} {failure : Failure}
    (h : x { state with cost := 0, collector := .strict } = .error failure state') :
    later x state = .ok (state'.cost, .error failure) state := by
  show (match x { state with cost := 0, collector := .strict } with
    | .ok a after => (Pure.pure (after.cost, .ok a) : Decode (Cost × Except Failure α))
    | .error failure after => Pure.pure (after.cost, .error failure)) state = _
  rw [h]
  rfl

/-- Putting a step off changes nothing and never fails. -/
theorem exists_later (x : Decode α) (state : DecodeState) :
    ∃ found, later x state = .ok found state := by
  cases hrun : x { state with cost := 0, collector := .strict } with
  | ok a state' => exact ⟨_, later_of_ok hrun⟩
  | error failure state' => exact ⟨_, later_of_error hrun⟩

/-- A class whose properties have distinct names in the text always has a shape. -/
theorem exists_shape {state : DecodeState} (h : state.shapes.IsSound) (className : String)
    {layout : List (String × String)} (hnodup : (layout.map (·.2)).Nodup) :
    ∃ known : GhostShape, known.className = className ∧ shape className layout state =
      .ok known { state with shapes := (state.shapes.load className layout).2 } := by
  obtain ⟨known, hload, hclass⟩ := h.exists_load hnodup
  refine ⟨known, hclass, ?_⟩
  rw [shape, ← Prod.eta (state.shapes.load className layout), hload]

namespace Keeps

variable {P : DecodeState → Prop} {x : Decode α} {f : α → Decode β} {state state' : DecodeState}

theorem of_ok (hx : Keeps P x) (h : P state) {a : α} (hrun : x state = .ok a state') : P state' :=
  after_of_ok hrun ▸ hx state h

theorem of_error (hx : Keeps P x) (h : P state) {failure : Failure}
    (hrun : x state = .error failure state') : P state' :=
  after_of_error hrun ▸ hx state h

theorem pure (a : α) : Keeps P (pure a) := fun _ h ↦ h

theorem throw (failure : Failure) : Keeps P (throw failure : Decode α) := fun _ h ↦ h

theorem bind_of_returns {Q : α → Prop} (hx : Keeps P x) (hQ : Returns Q x)
    (hf : ∀ a, Q a → Keeps P (f a)) : Keeps P (x >>= f) := by
  intro state h
  cases hrun : x state with
  | ok a state' =>
    rw [after, bind_of_ok hrun]
    exact hf a (hQ _ _ _ hrun) state' (hx.of_ok h hrun)
  | error failure state' =>
    rw [after_of_error (bind_of_error hrun)]
    exact hx.of_error h hrun

theorem bind (hx : Keeps P x) (hf : ∀ a, Keeps P (f a)) : Keeps P (x >>= f) :=
  hx.bind_of_returns (Q := fun _ ↦ True) (fun _ _ _ _ ↦ trivial) fun a _ ↦ hf a

theorem locate (hx : Keeps P x) (place : Place) : Keeps P (locate place x) := by
  intro state h
  cases hrun : x state with
  | ok a state' =>
    rw [after_of_ok (locate_of_ok hrun)]
    exact hx.of_ok h hrun
  | error failure state' =>
    rw [after_of_error (locate_of_error hrun)]
    exact hx.of_error h hrun

theorem orRecord (hP : DecodeState.IsInvariant P) (hx : Keeps P x) : Keeps P (orRecord x) := by
  intro state h
  cases hrun : x state with
  | ok a state' =>
    rw [after_of_ok (orRecord_of_ok hrun)]
    exact hx.of_ok h hrun
  | error failure state' =>
    have h' := hx.of_error h hrun
    cases hrecord : state'.collector.record? failure with
    | some collector =>
      rw [after_of_ok (orRecord_of_recorded hrun hrecord)]
      exact hP.record h' hrecord
    | none =>
      rw [after_of_error (orRecord_of_error hrun hrecord)]
      exact h'

theorem record (hP : DecodeState.IsInvariant P) (failure : Failure) : Keeps P (record failure) := by
  intro state h
  cases hrecord : state.collector.record? failure with
  | some collector =>
    rw [after, Decode.record, hrecord]
    exact hP.record h hrecord
  | none =>
    rw [after, Decode.record, hrecord]
    exact h

theorem shape (hP : DecodeState.IsInvariant P) (className : String)
    (layout : List (String × String)) : Keeps P (shape className layout) := by
  intro state h
  have hremember := hP.remember className layout h
  rw [after, Decode.shape]
  generalize state.shapes.load className layout = loaded at hremember ⊢
  obtain ⟨_ | _, _⟩ := loaded
  · exact hremember
  · exact hremember

/-- What is put off leaves no trace. -/
theorem later (x : Decode α) : Keeps P (later x) := by
  intro state h
  obtain ⟨found, hrun⟩ := exists_later x state
  rw [after_of_ok hrun]
  exact h

/-- Steps without parts do nothing but pay. -/
theorem closed (hP : DecodeState.IsInvariant P) : IsClosed fun _ x ↦ Keeps P x where
  pure := pure
  throw := throw
  pay _ := fun _ h ↦ hP.pay _ h
  bind := bind

/-! ## Containers -/

variable {part : Plan}

theorem value (hpart : ∀ w place, Keeps P (part.read w place)) (w : Window) (place : Place) :
    Keeps P (value part w place) := (hpart w place).locate place

theorem items (hP : DecodeState.IsInvariant P) (hpart : ∀ w place, Keeps P (part.read w place))
    (place : Place) (i : Nat) (ms : List (Except Failure (Member Unit))) :
    Keeps P (items part place i ms) := by
  induction ms generalizing i with
  | nil => exact pure _
  | cons m ms ih =>
    have hitem : Keeps P (Decode.locate (.item i :: place) do
        Decode.value part (← found m).value (.item i :: place)) :=
      (((closed hP).found m).bind fun m ↦ value hpart m.value _).locate _
    exact (hitem.orRecord hP).bind fun _ ↦ (ih (i + 1)).bind fun _ ↦ pure _

theorem entries (hP : DecodeState.IsInvariant P) (hpart : ∀ w place, Keeps P (part.read w place))
    (kind : ScalarKind) (place : Place) (ms : List (Except Failure (Member String)))
    (done : Entries DictKey Value) : Keeps P (entries kind part place ms done) := by
  induction ms generalizing done with
  | nil => exact pure _
  | cons m ms ih =>
    cases m with
    | error failure => exact (record hP _).bind fun _ ↦ ih done
    | ok m =>
      have hentry : Keeps P (Decode.locate (.entry m.key :: place) do
          let key ← found (DictKey.ofText kind m.key)
          return (key, ← Decode.value part m.value (.entry m.key :: place))) :=
        (((closed hP).found _).bind fun _ ↦ (value hpart m.value _).bind fun _ ↦ pure _).locate _
      exact (hentry.orRecord hP).bind fun _ ↦ ih _

theorem windows (hP : DecodeState.IsInvariant P) (place : Place)
    (ms : List (Except Failure (Member String))) (done : List (String × Window)) :
    Keeps P (windows place ms done) := by
  induction ms generalizing done with
  | nil => exact pure _
  | cons m ms ih =>
    cases m with
    | error failure => exact (record hP _).bind fun _ ↦ ih done
    | ok m => exact ih _

/-! ## Objects -/

theorem field (hP : DecodeState.IsInvariant P) (context : DecodeContext) (p : PropertyNode Plan)
    (hp : ∀ w place, Keeps P (p.node.read w place)) (w : Window) (place : Place) :
    Keeps P (field context p w place) := by
  refine (value hp w place).bind fun v ↦ ?_
  split
  · exact pure v
  · exact ((closed hP).foldlM_format context _ v).locate place

/-- All steps keep the property. -/
def Fields (P : DecodeState → Prop) (steps : FieldSteps) : Prop :=
  ∀ step ∈ steps, Keeps P step.2

theorem readFields (hP : DecodeState.IsInvariant P) {steps : FieldSteps} (h : Fields P steps) :
    Keeps P (readFields steps) := by
  induction steps with
  | nil => exact pure _
  | cons step steps ih =>
    obtain ⟨hstep, hsteps⟩ := List.forall_mem_cons.mp h
    exact (hstep.orRecord hP).bind fun _ ↦ (ih hsteps).bind fun _ ↦ pure _

theorem deferFields (steps : FieldSteps) : Keeps P (deferFields steps) := by
  induction steps with
  | nil => exact pure _
  | cons step steps ih => exact (later _).bind fun _ ↦ ih.bind fun _ ↦ pure _

theorem fieldSteps (hP : DecodeState.IsInvariant P) (context : DecodeContext)
    {properties : List (PropertyNode Node)}
    (hproperties : ∀ p ∈ properties, ∀ w place, Keeps P (p.node.read context w place))
    (place : Place) (texts : List (String × Window)) {steps : FieldSteps} (h : Fields P steps) :
    Fields P
      (fieldSteps context place texts (properties.map (PropertyNode.plan context)) steps) := by
  induction properties generalizing steps with
  | nil => exact h
  | cons p properties ih =>
    obtain ⟨hp, hproperties⟩ := List.forall_mem_cons.mp hproperties
    have hput : ∀ {x : Decode Value}, Keeps P x → Fields P (Entries.put steps p.sourceName x) := by
      intro x hx step hstep
      rcases Entries.mem_put hstep with rfl | hstep
      · exact hx
      · exact h step hstep
    rw [fieldSteps_cons]
    refine ih hproperties ?_
    unfold fieldStep?
    cases Entries.find? texts p.encodedName with
    | some w => exact hput (field hP context (p.plan context) hp w _)
    | none =>
      cases p.node.acceptsNull with
      | true => exact hput (pure _)
      | false => exact h

theorem fields (hP : DecodeState.IsInvariant P) (context : DecodeContext)
    {properties : List (PropertyNode Node)}
    (hproperties : ∀ p ∈ properties, ∀ w place, Keeps P (p.node.read context w place))
    (w : Window) (place : Place) :
    Keeps P (do
      let steps ← loadFields context (properties.map (PropertyNode.plan context)) w place
      Decode.readFields steps) := by
  unfold loadFields
  simp only [bind_assoc, pure_bind]
  refine (((closed hP).members .dict w).locate place).bind fun ms ↦
    (windows hP place ms []).bind fun texts ↦ ?_
  exact readFields hP (fieldSteps hP context hproperties place texts (List.forall_mem_nil _))

theorem object (hP : DecodeState.IsInvariant P) (context : DecodeContext) (className : String)
    {properties : List (PropertyNode Node)}
    (hproperties : ∀ p ∈ properties, ∀ w place, Keeps P (p.node.read context w place))
    (w : Window) (place : Place) :
    Keeps P ((Node.object className properties).read context w place) := by
  cases hlazy : context.config.lazy with
  | true =>
    rw [read_object_of_lazy hlazy]
    exact (shape hP _ _).bind fun _ ↦ (later _).bind fun _ ↦ pure _
  | false =>
    rw [read_object_of_eager hlazy]
    exact (fields hP context hproperties w place).bind fun _ ↦ pure _

/-- **Reading a node keeps what every change of the state keeps.** -/
theorem node (hP : DecodeState.IsInvariant P) (context : DecodeContext) (node : Node) (w : Window)
    (place : Place) : Keeps P (node.read context w place) := by
  induction node using Node.induction generalizing w place with
  | scalar kind => exact (closed hP).scalar kind w
  | null =>
    refine ((closed hP).json w).bind fun value ↦ ?_
    cases value with
    | null => exact pure _
    | _ => exact throw _
  | mixed => exact ((closed hP).json w).bind fun _ ↦ pure _
  | nullable inner ih =>
    refine ((closed hP).look w).bind fun _ ↦ ?_
    split
    · exact pure _
    · exact (ih w place).locate place
  | list item ih =>
    have hitems : ∀ ms, Keeps P (Decode.items (item.plan context) place 0 ms) := items hP ih place 0
    exact ((closed hP).members .list w).bind fun ms ↦ (hitems ms).bind fun _ ↦ pure _
  | dict key item ih =>
    have hentries : ∀ ms, Keeps P (Decode.entries key (item.plan context) place ms []) :=
      fun ms ↦ entries hP ih key place ms []
    exact ((closed hP).members .dict w).bind fun ms ↦ (hentries ms).bind fun _ ↦ pure _
  | object className properties ih => exact object hP context className ih w place
  | union candidates discriminator ih =>
    rw [read_union]
    exact ((closed hP).choose _ candidates discriminator w).bind_of_returns
      (returns_choose _ _ _ _) fun c hc ↦ (ih c hc w place).locate place
  | enum className backing => exact (closed hP).enumCase _ className backing w
  | dateTime pattern =>
    exact ((closed hP).scalar .string w).bind fun v ↦ (closed hP).format context v _

end Keeps

end Decode

/-- The shapes that are known after decoding a text are sound if those known before are. -/
theorem Node.isSound_decode (root : Node) (registry : Registry) (config : Config)
    {shapes : GhostShapes} (h : shapes.IsSound) (bytes : List UInt8) :
    (root.decode registry config shapes bytes).2.IsSound := by
  have hkeeps : Decode.Keeps (fun state ↦ state.shapes.IsSound)
      (Decode.value (root.plan ⟨registry, config⟩) (Window.whole bytes) []) :=
    (Decode.Keeps.node DecodeState.isInvariant_isSound _ root _ _).locate _
  have hafter := hkeeps { collector := { isEnabled := config.collectErrors }, shapes } h
  unfold Node.decode
  dsimp only
  rw [Decode.after] at hafter
  split at hafter
  · next hrun =>
    rw [hrun]
    exact hafter
  · next hrun =>
    rw [hrun]
    exact hafter

end TypedJson
