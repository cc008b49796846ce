import Mathlib.Data.List.Forall2
import TypedJson.Proofs.Codec.Agreement
import TypedJson.Proofs.Decode.Leaves
import TypedJson.Proofs.Decode.Plans
import TypedJson.Proofs.Entries
import TypedJson.Proofs.Outcome

/-!
# Collecting errors

A decoder that collects errors goes on where a strict one fails. Up to the first error both do the
same, so that the strict decoder answers a value exactly if nothing is collected, and fails with the
first collected error otherwise. This needs two things of each step of the collecting decoder: what
it does is independent of the errors collected before, and what it collects is located, so that no
place further out gives the strict decoder's failure another path.

The relation `Agrees` between a strict step and a collecting one says so, and is closed under
everything that steps are made of, with one exception. A formatter is handed all options, and so it
may tell a strict decoder from one that collects, however pure it is. That no formatter of a
registry does (`Registry.IgnoresCollecting`) has to be assumed (`decode_collecting_watched`).
-/

namespace TypedJson

/-- The state of a decoder that fails with the first error. -/
def DecodeState.strict (cost : Cost) (shapes : GhostShapes) : DecodeState := { cost, shapes }

/-- The state of a decoder that has collected errors. -/
def DecodeState.collecting (cost : Cost) (shapes : GhostShapes) (errors : List Failure) :
    DecodeState := { cost, collector := ⟨true, false, errors⟩, shapes }

open DecodeState (strict collecting)

/-- What a strict and a collecting step come to in states that differ in the collector only: they
do the same, or the strict one fails with the first error that the other collects. -/
inductive AgreeFrom {α : Type} (x y : Decode α) (cost : Cost) (shapes : GhostShapes) : Prop
  | alike (outcome : Except Failure α) (cost' : Cost) (shapes' : GhostShapes)
      (hx : x (strict cost shapes) = Decode.ended outcome (strict cost' shapes'))
      (hy : ∀ errors, y (collecting cost shapes errors) =
        Decode.ended outcome (collecting cost' shapes' errors))
  | collected (first : Failure) (others : List Failure) (outcome : Except Failure α)
      (cost' : Cost) (shapes' : GhostShapes) (costs : Cost) (known : GhostShapes)
      (hlocated : ∀ failure ∈ first :: others, failure.IsLocated)
      (hx : x (strict cost shapes) = .error first (strict costs known))
      (hy : ∀ errors, y (collecting cost shapes errors) =
        Decode.ended outcome (collecting cost' shapes' (errors ++ first :: others)))

/-- The steps agree in all states. -/
def Agrees {α : Type} (x y : Decode α) : Prop := ∀ cost shapes, AgreeFrom x y cost shapes

namespace Agrees

variable {α β : Type} {x y : Decode α} {f g : α → Decode β}

theorem pure (a : α) : Agrees (pure a) (pure a) := fun cost shapes ↦
  .alike (.ok a) cost shapes rfl fun _ ↦ rfl

theorem throw (failure : Failure) :
    Agrees (throw failure : Decode α) (throw failure) := fun cost shapes ↦
  .alike (.error failure) cost shapes rfl fun _ ↦ rfl

theorem pay (cost : Cost) : Agrees (Decode.pay cost) (Decode.pay cost) := fun cost' shapes ↦
  .alike (.ok ()) (cost' + cost) shapes rfl fun _ ↦ rfl

/-- A collecting step appends to what is collected, whatever that is. -/
theorem appends (h : Agrees x y) (cost : Cost) (shapes : GhostShapes) :
    ∃ collected outcome cost' shapes', (∀ failure ∈ collected, failure.IsLocated) ∧
      ∀ errors, y (collecting cost shapes errors) =
        Decode.ended outcome (collecting cost' shapes' (errors ++ collected)) := by
  cases h cost shapes with
  | alike outcome cost' shapes' _ hy =>
    refine ⟨[], outcome, cost', shapes', List.forall_mem_nil _, fun errors ↦ ?_⟩
    rw [hy, List.append_nil]
  | collected first others outcome cost' shapes' _ _ hlocated _ hy =>
    exact ⟨first :: others, outcome, cost', shapes', hlocated, hy⟩

theorem bind_of_returns {P : α → Prop} (h : Agrees x y) (hP : Decode.Returns P y)
    (hf : ∀ a, P a → Agrees (f a) (g a)) : Agrees (x >>= f) (y >>= g) := by
  intro cost shapes
  cases h cost shapes with
  | alike outcome cost' shapes' hx hy =>
    cases outcome with
    | error failure =>
      exact .alike (.error failure) cost' shapes' (Decode.bind_of_error hx)
        fun errors ↦ Decode.bind_of_error (hy errors)
    | ok a =>
      cases hf a (hP _ _ _ (hy [])) cost' shapes' with
      | alike outcome cost'' shapes'' hx' hy' =>
        exact .alike outcome cost'' shapes'' ((Decode.bind_of_ok hx).trans hx')
          fun errors ↦ (Decode.bind_of_ok (hy errors)).trans (hy' errors)
      | collected first others outcome cost'' shapes'' costs known hlocated hx' hy' =>
        exact .collected first others outcome cost'' shapes'' costs known hlocated
          ((Decode.bind_of_ok hx).trans hx')
          fun errors ↦ (Decode.bind_of_ok (hy errors)).trans (hy' errors)
  | collected first others outcome cost' shapes' costs known hlocated hx hy =>
    cases outcome with
    | error failure =>
      exact .collected first others (.error failure) cost' shapes' costs known hlocated
        (Decode.bind_of_error hx) fun errors ↦ Decode.bind_of_error (hy errors)
    | ok a =>
      -- What the rest does no longer matters to the strict decoder, which has failed.
      obtain ⟨more, outcome, cost'', shapes'', hmore, hy'⟩ :=
        (hf a (hP _ _ _ (hy []))).appends cost' shapes'
      refine .collected first (others ++ more) outcome cost'' shapes'' costs known ?_
        (Decode.bind_of_error hx) fun errors ↦ ?_
      · rw [← List.cons_append]
        exact List.forall_mem_append.mpr ⟨hlocated, hmore⟩
      · rw [Decode.bind_of_ok (hy errors), hy', List.append_assoc, List.cons_append]

theorem bind (h : Agrees x y) (hf : ∀ a, Agrees (f a) (g a)) : Agrees (x >>= f) (y >>= g) :=
  h.bind_of_returns (P := fun _ ↦ True) (fun _ _ _ _ ↦ trivial) fun a _ ↦ hf a

theorem locate (h : Agrees x y) (place : Place) :
    Agrees (Decode.locate place x) (Decode.locate place y) := by
  intro cost shapes
  have hend : ∀ {step : Decode α} {state : DecodeState} {outcome state'},
      step state = Decode.ended outcome state' → Decode.locate place step state =
        Decode.ended (outcome.mapError (Failure.locate · place.text)) state' := by
    intro step state outcome state' hstep
    cases outcome with
    | ok a => exact Decode.locate_of_ok hstep
    | error failure => exact Decode.locate_of_error hstep
  cases h cost shapes with
  | alike outcome cost' shapes' hx hy =>
    exact .alike _ cost' shapes' (hend hx) fun errors ↦ hend (hy errors)
  | collected first others outcome cost' shapes' costs known hlocated hx hy =>
    refine .collected first others _ cost' shapes' costs known hlocated ?_
      fun errors ↦ hend (hy errors)
    rw [Decode.locate_of_error hx, hlocated first List.mem_cons_self]

/-- A failure is collected by the one, and ends the other. -/
theorem record {failure : Failure} (hlocated : failure.IsLocated) :
    Agrees (Decode.record failure) (Decode.record failure) := by
  intro cost shapes
  cases hrecoverable : failure.isRecoverable with
  | true =>
    refine .collected failure [] (.ok ()) cost shapes cost shapes ?_ rfl fun errors ↦ ?_
    · exact List.forall_mem_singleton.mpr hlocated
    · simp only [Decode.record, Collector.record?, collecting, hrecoverable]
      rfl
  | false =>
    refine .alike (.error failure) cost shapes rfl fun errors ↦ ?_
    simp only [Decode.record, Collector.record?, collecting, hrecoverable]
    rfl

theorem record?_collecting {failure : Failure} {cost : Cost} {shapes : GhostShapes}
    {errors : List Failure} :
    (collecting cost shapes errors).collector.record? failure =
      if failure.isRecoverable then some ⟨true, false, errors ++ [failure]⟩ else none := rfl

theorem orRecord (h : Agrees x y) (hlocated : Decode.FailsLocated y) :
    Agrees (Decode.orRecord x) (Decode.orRecord y) := by
  intro cost shapes
  -- How a collecting step ends behind a failure.
  have hrecorded : ∀ {state : DecodeState} {cost' shapes' errors failure},
      y state = .error failure (collecting cost' shapes' errors) → Decode.orRecord y state =
        if failure.isRecoverable then .ok none (collecting cost' shapes' (errors ++ [failure]))
        else .error failure (collecting cost' shapes' errors) := by
    intro state cost' shapes' errors failure hy
    split
    · next hrecoverable =>
      exact Decode.orRecord_of_recorded hy (record?_collecting.trans (if_pos hrecoverable))
    · next hrecoverable =>
      exact Decode.orRecord_of_error hy (record?_collecting.trans (if_neg hrecoverable))
  cases h cost shapes with
  | alike outcome cost' shapes' hx hy =>
    cases outcome with
    | ok a =>
      exact .alike (.ok (some a)) cost' shapes' (Decode.orRecord_of_ok hx)
        fun errors ↦ Decode.orRecord_of_ok (hy errors)
    | error failure =>
      have hx' : Decode.orRecord x (strict cost shapes) = .error failure (strict cost' shapes') :=
        Decode.orRecord_of_error hx rfl
      by_cases hrecoverable : failure.isRecoverable = true
      · refine .collected failure [] (.ok none) cost' shapes' cost' shapes' ?_ hx' fun errors ↦ ?_
        · exact List.forall_mem_singleton.mpr (hlocated _ _ _ (hy []))
        · exact (hrecorded (hy errors)).trans (if_pos hrecoverable)
      · exact .alike (.error failure) cost' shapes' hx'
          fun errors ↦ (hrecorded (hy errors)).trans (if_neg hrecoverable)
  | collected first others outcome cost' shapes' costs known hothers hx hy =>
    have hx' : Decode.orRecord x (strict cost shapes) = .error first (strict costs known) :=
      Decode.orRecord_of_error hx rfl
    cases outcome with
    | ok a =>
      exact .collected first others (.ok (some a)) cost' shapes' costs known hothers hx'
        fun errors ↦ Decode.orRecord_of_ok (hy errors)
    | error failure =>
      by_cases hrecoverable : failure.isRecoverable = true
      · refine .collected first (others ++ [failure]) (.ok none) cost' shapes' costs known ?_ hx'
          fun errors ↦ ?_
        · rw [← List.cons_append]
          exact List.forall_mem_append.mpr
            ⟨hothers, List.forall_mem_singleton.mpr (hlocated _ _ _ (hy []))⟩
        · rw [hrecorded (hy errors), if_pos hrecoverable, List.append_assoc, List.cons_append]
          rfl
      · exact .collected first others (.error failure) cost' shapes' costs known hothers hx'
          fun errors ↦ (hrecorded (hy errors)).trans (if_neg hrecoverable)

end Agrees

/-! ## Contexts and plans -/

/-- No formatter looks at whether errors are collected. -/
def Registry.IgnoresCollecting (registry : Registry) : Prop :=
  ∀ name f, registry.formatters.find name = .ok f → ∀ v config collects,
    f.body v { config with collectErrors := collects } = f.body v config

/-- The two contexts have one registry, format alike and make objects at once. -/
structure DecodeContext.Alike (context context' : DecodeContext) : Prop where
  registry : context.registry = context'.registry
  format : Decode.format context = Decode.format context'
  eager : context.config.lazy = false
  eager' : context'.config.lazy = false

/-- Only named formatters see the configuration. -/
theorem FormatterRef.apply_congr {formatters : Formatters} {config config' : Config}
    (h : ∀ name f, formatters.find name = .ok f → ∀ v, f.body v config = f.body v config')
    (ref : FormatterRef) (v : Value) :
    ref.apply formatters config v = ref.apply formatters config' v := by
  cases ref with
  | named name =>
    unfold FormatterRef.apply
    cases hfind : formatters.find name with
    | error error => simp only [hfind]
    | ok f => simp only [hfind, h name f hfind]
  | dateTimeFormat pattern | dateTimeParse pattern => cases v <;> rfl

theorem DecodeContext.alike {registry : Registry} {config : Config}
    (hformatters : registry.IgnoresCollecting) (hlazy : config.lazy = false)
    (collects collects' : Bool) :
    DecodeContext.Alike ⟨registry, { config with collectErrors := collects }⟩
      ⟨registry, { config with collectErrors := collects' }⟩ where
  registry := rfl
  eager := hlazy
  eager' := hlazy
  format := by
    funext v ref
    unfold Decode.format
    dsimp only
    rw [FormatterRef.apply_congr fun name f hfind v ↦
      (hformatters name f hfind v config collects).trans
        (hformatters name f hfind v config collects').symm]

/-- The plans agree in all windows. -/
def Plan.Agrees (part part' : Plan) : Prop :=
  ∀ w place, TypedJson.Agrees (part.read w place) (part'.read w place)

/-- The steps have the same names and agree, and their failures are located. -/
def FieldSteps.Agree (steps steps' : FieldSteps) : Prop :=
  List.Forall₂ (fun step step' ↦ step.1 = step'.1 ∧ Agrees step.2 step'.2 ∧
    Decode.FailsLocated step'.2) steps steps'

namespace Agrees

variable {context context' : DecodeContext} {part part' : Plan}

theorem value (h : part.Agrees part') (w : Window) (place : Place) :
    Agrees (Decode.value part w place) (Decode.value part' w place) := (h w place).locate place

/-- A step without parts agrees with itself. -/
theorem closed : Decode.IsClosed fun _ x ↦ Agrees x x where
  pure := pure
  throw := throw
  pay := pay
  bind hx hf := hx.bind hf

/-! ## Containers -/

theorem items (h : part.Agrees part') (place : Place) (i : Nat)
    (ms : List (Except Failure (Member Unit))) :
    Agrees (Decode.items part place i ms) (Decode.items part' place i ms) := by
  induction ms generalizing i with
  | nil => exact pure _
  | cons m ms ih =>
    have hitem : Agrees
        (Decode.locate (.item i :: place) do
          Decode.value part (← Decode.found m).value (.item i :: place))
        (Decode.locate (.item i :: place) do
          Decode.value part' (← Decode.found m).value (.item i :: place)) :=
      ((closed.found m).bind fun m ↦ value h m.value _).locate _
    exact (hitem.orRecord (Decode.failsLocated_locate _ _)).bind
      fun first ↦ (ih (i + 1)).bind fun others ↦ pure _

theorem entries (h : part.Agrees part') (kind : ScalarKind) (place : Place)
    (ms : List (Except Failure (Member String))) (done : Entries DictKey Value) :
    Agrees (Decode.entries kind part place ms done) (Decode.entries kind part' place ms done) := by
  induction ms generalizing done with
  | nil => exact pure _
  | cons m ms ih =>
    cases m with
    | error failure => exact (record (failure.isLocated_locate _)).bind fun _ ↦ ih done
    | ok m =>
      have hentry : Agrees
          (Decode.locate (.entry m.key :: place) do
            let key ← Decode.found (DictKey.ofText kind m.key)
            return (key, ← Decode.value part m.value (.entry m.key :: place)))
          (Decode.locate (.entry m.key :: place) do
            let key ← Decode.found (DictKey.ofText kind m.key)
            return (key, ← Decode.value part' m.value (.entry m.key :: place))) :=
        ((closed.found _).bind fun _ ↦ (value h m.value _).bind fun _ ↦ pure _).locate _
      exact (hentry.orRecord (Decode.failsLocated_locate _ _)).bind fun _ ↦ ih _

theorem windows (place : Place) (ms : List (Except Failure (Member String)))
    (done : List (String × Window)) :
    Agrees (Decode.windows place ms done) (Decode.windows place ms done) := by
  induction ms generalizing done with
  | nil => exact pure _
  | cons m ms ih =>
    cases m with
    | error failure => exact (record (failure.isLocated_locate _)).bind fun _ ↦ ih done
    | ok m => exact ih _

/-! ## Objects -/

theorem field (hcontext : context.Alike context') (p : PropertyNode Node)
    (h : (p.node.plan context).Agrees (p.node.plan context')) (w : Window) (place : Place) :
    Agrees (Decode.field context (p.plan context) w place)
      (Decode.field context' (p.plan context') w place) := by
  refine (value h w place).bind fun v ↦ ?_
  rw [hcontext.format]
  split
  · exact pure v
  · exact (closed.foldlM_format context' p.formatters.reverse v).locate place

theorem readFields {steps steps' : FieldSteps} (h : steps.Agree steps') :
    Agrees (Decode.readFields steps) (Decode.readFields steps') := by
  induction h with
  | nil => exact pure _
  | @cons step step' _ _ hstep _ ih =>
    obtain ⟨name, x⟩ := step
    obtain ⟨_, y⟩ := step'
    obtain ⟨rfl, hxy, hlocated⟩ := hstep
    exact (hxy.orRecord hlocated).bind fun _ ↦ ih.bind fun _ ↦ pure _

end Agrees

theorem FieldSteps.Agree.fieldSteps {context context' : DecodeContext}
    (hcontext : context.Alike context') {properties : List (PropertyNode Node)}
    (hproperties : ∀ p ∈ properties, (p.node.plan context).Agrees (p.node.plan context'))
    (place : Place) (texts : List (String × Window)) {steps steps' : FieldSteps}
    (h : steps.Agree steps') :
    FieldSteps.Agree
      (Decode.fieldSteps context place texts (properties.map (PropertyNode.plan context)) steps)
      (Decode.fieldSteps context' place texts (properties.map (PropertyNode.plan context'))
        steps') := by
  induction properties generalizing steps steps' with
  | nil => exact h
  | cons p properties ih =>
    have hp := hproperties p List.mem_cons_self
    have hput : ∀ {x y : Decode Value}, Agrees x y → Decode.FailsLocated y → FieldSteps.Agree
        (Entries.put steps p.sourceName x) (Entries.put steps' p.sourceName y) :=
      fun hxy hlocated ↦ Entries.forall₂_put (R := fun x y ↦ Agrees x y ∧ Decode.FailsLocated y) h _
        ⟨hxy, hlocated⟩
    rw [Decode.fieldSteps_cons, Decode.fieldSteps_cons]
    refine ih (fun p hp ↦ hproperties p (List.mem_cons_of_mem _ hp)) ?_
    unfold Decode.fieldStep?
    cases Entries.find? texts p.encodedName with
    | some w => exact hput (.field hcontext p hp w _) (Decode.failsLocated_field _ _ _ _)
    | none =>
      cases p.node.acceptsNull with
      | true => exact hput (.pure _) (Decode.failsLocated_pure _)
      | false => exact h

namespace Agrees

variable {context context' : DecodeContext}

theorem object (hcontext : context.Alike context') (className : String)
    {properties : List (PropertyNode Node)}
    (hproperties : ∀ p ∈ properties, (p.node.plan context).Agrees (p.node.plan context'))
    (w : Window) (place : Place) :
    Agrees ((Node.object className properties).read context w place)
      ((Node.object className properties).read context' w place) := by
  rw [Decode.read_object_of_eager hcontext.eager, Decode.read_object_of_eager hcontext.eager']
  unfold Decode.loadFields
  simp only [bind_assoc, pure_bind]
  refine ((closed.members .dict w).locate place).bind fun ms ↦
    (windows place ms []).bind fun texts ↦ ?_
  exact (readFields (.fieldSteps hcontext hproperties place texts .nil)).bind fun _ ↦ pure _

/-- Every node agrees with itself. -/
theorem node (hcontext : context.Alike context') (node : Node) :
    (node.plan context).Agrees (node.plan context') := by
  intro w place
  induction node using Node.induction generalizing w place with
  | scalar kind => exact closed.scalar kind w
  | null =>
    refine (closed.json w).bind fun value ↦ ?_
    cases value with
    | null => exact pure _
    | _ => exact throw _
  | mixed => exact (closed.json w).bind fun _ ↦ pure _
  | nullable inner ih =>
    refine (closed.look w).bind fun _ ↦ ?_
    split
    · exact pure _
    · exact value ih w place
  | list item ih =>
    exact (closed.members .list w).bind fun ms ↦ (items ih place 0 ms).bind fun _ ↦ pure _
  | dict key item ih =>
    exact (closed.members .dict w).bind fun ms ↦ (entries ih key place ms []).bind fun _ ↦ pure _
  | object className properties ih => exact object hcontext className ih w place
  | union candidates discriminator ih =>
    simp only [Node.plan, Decode.read_union, hcontext.registry]
    exact (closed.choose _ candidates discriminator w).bind_of_returns
      (Decode.returns_choose _ _ _ _) fun c hc ↦ value (ih c hc) w place
  | enum className backing =>
    simp only [Node.plan, Node.read, hcontext.registry]
    exact closed.enumCase _ className backing w
  | dateTime pattern =>
    refine (closed.scalar .string w).bind fun v ↦ ?_
    rw [hcontext.format]
    exact closed.format context' v _

end Agrees

/-! ## Texts -/

/-- **Collecting changes nothing up to the first error.** Decoding a text strictly answers exactly
what decoding it with errors collected answers without any error. Where errors are collected, the
strict decoder fails with the first of them. -/
theorem Node.decode_collecting (root : Node) {registry : Registry} {config : Config}
    (hformatters : registry.IgnoresCollecting) (hlazy : config.lazy = false) (shapes : GhostShapes)
    (bytes : List UInt8) :
    let strict := (root.decode registry { config with collectErrors := false } shapes bytes).1
    let collecting := (root.decode registry { config with collectErrors := true } shapes bytes).1
    (∀ decoded, strict = .ok decoded ↔ collecting = .ok decoded ∧ decoded.errors = []) ∧
    ∀ decoded first others, collecting = .ok decoded → decoded.errors = first :: others →
      strict = .error first := by
  intro strict collecting
  have hnode : (root.plan ⟨registry, { config with collectErrors := false }⟩).Agrees
      (root.plan ⟨registry, { config with collectErrors := true }⟩) :=
    .node (DecodeContext.alike hformatters hlazy false true) root
  cases Agrees.value hnode (Window.whole bytes) [] 0 shapes with
  | alike outcome cost shapes' hx hy =>
    have hstrict : strict = outcome.map fun v ↦ ⟨v, [], cost⟩ := Node.decode_eq_of_ended hx
    have hcollecting : collecting = outcome.map fun v ↦ ⟨v, [], cost⟩ :=
      Node.decode_eq_of_ended (hy [])
    have herrors : ∀ {decoded}, collecting = .ok decoded → decoded.errors = [] := by
      intro decoded h
      obtain ⟨v, -, rfl⟩ := Outcome.map_eq_ok.mp (hcollecting.symm.trans h)
      rfl
    refine ⟨fun decoded ↦ ?_, fun decoded first others h hfirst ↦ ?_⟩
    · rw [hstrict, ← hcollecting]
      exact ⟨fun h ↦ ⟨h, herrors h⟩, fun h ↦ h.1⟩
    · exact nomatch (herrors h).symm.trans hfirst
  | collected first others outcome cost shapes' costs known _ hx hy =>
    have hstrict : strict = .error first :=
      Node.decode_of_error hx
    have hcollecting : collecting = outcome.map fun v ↦ ⟨v, first :: others, cost⟩ :=
      Node.decode_eq_of_ended (hy [])
    have herrors : ∀ {decoded}, collecting = .ok decoded → decoded.errors = first :: others := by
      intro decoded h
      obtain ⟨v, -, rfl⟩ := Outcome.map_eq_ok.mp (hcollecting.symm.trans h)
      rfl
    refine ⟨fun decoded ↦ ⟨fun h ↦ ?_, fun h ↦ ?_⟩, fun decoded first' others' h hfirst ↦ ?_⟩
    · exact nomatch hstrict.symm.trans h
    · exact nomatch (herrors h.1).symm.trans h.2
    · obtain ⟨rfl, -⟩ := List.cons.inj ((herrors h).symm.trans hfirst)
      exact hstrict

/-- A registry with a formatter that leaves values as they are. -/
def sameRegistry : Registry :=
  { formatters := [("same", ⟨"same", ⟨.static, [], .void⟩, fun v _ ↦ return .ok v⟩)] }

theorem ignoresCollecting_sameRegistry : sameRegistry.IgnoresCollecting := by
  intro name f hfind v config collects
  unfold Formatters.find at hfind
  split at hfind
  · next found hf =>
    obtain rfl := Except.ok.inj hfind
    obtain ⟨rfl, rfl⟩ := Prod.mk.inj (List.mem_singleton.mp (Entries.mem_of_find? hf))
    rfl
  · exact nomatch hfind

/-- Of the items in `[{"a":1},{"a":true}]`, the second has a broken field: the strict decoder fails
with what the other one collects while it goes on. -/
theorem decode_collecting_items :
    ((Node.list (.object "Item" [⟨"a", "a", .field "a", [.named "same"], .scalar .int⟩])).decode
      sameRegistry {} [] [0x5B, 0x7B, 0x22, 0x61, 0x22, 0x3A, 0x31, 0x7D, 0x2C,
        0x7B, 0x22, 0x61, 0x22, 0x3A, 0x74, 0x72, 0x75, 0x65, 0x7D, 0x5D]).1 =
      .error (.placed (some "$[1].a") (.unexpectedValue "int" "bool")) :=
  (Node.decode_collecting _ ignoresCollecting_sameRegistry (rfl : ({} : Config).lazy = false) []
    _).2
    ⟨.list [.object ⟨.decoded [.item 0], "Item", .ready [("a", .initialized (.int 1))]⟩,
        .object ⟨.decoded [.item 1], "Item", .ready []⟩],
      [.placed (some "$[1].a") (.unexpectedValue "int" "bool")], _⟩ _ [] (by with_unfolding_all rfl)
    rfl

/-- A registry with a formatter that leaves values as they are, unless errors are collected, and one
that answers how JSON is formatted. -/
def watchfulRegistry : Registry :=
  let signature : Signature := ⟨.static, [.value (.scalar .int)], .value (.scalar .int)⟩
  { formatters := [
      ("strictly", ⟨"strictly", signature, fun v config ↦
        return if config.collectErrors then .error "errors are collected" else .ok v⟩),
      ("flags", ⟨"flags", signature, fun _ config ↦
        return .ok (.int config.jsonFlags.bits.toUInt64.toInt64)⟩)] }

theorem isPure_watchfulRegistry : watchfulRegistry.IsPure where
  formatters name f hmem v config := by
    simp only [watchfulRegistry, List.mem_cons, List.not_mem_nil, or_false, Prod.mk.injEq] at hmem
    obtain ⟨-, rfl⟩ | ⟨-, rfl⟩ := hmem
    · exact Traced.IsPure.pure _
    · exact Traced.IsPure.pure _
  discriminators _ _ hmem := absurd hmem List.not_mem_nil

/-- An item whose field `a` is read through a formatter. -/
def watchedItem (formatter : String) : Node :=
  .object "Item" [⟨"a", "a", .field "a", [.named formatter], .scalar .int⟩]

/-- The value of the text `{"a":1}` as such an item, and the errors that are collected. -/
def readWatched (formatter : String) (config : Config) : Except Failure (Value × List Failure) :=
  ((watchedItem formatter).decode watchfulRegistry config []
    [0x7B, 0x22, 0x61, 0x22, 0x3A, 0x31, 0x7D]).1.map fun decoded ↦ (decoded.value, decoded.errors)

/-- Pure formatters do not suffice. Where errors are collected, one of them may refuse a value that
it would leave as it is otherwise, so that something is collected where the strict decoder answers a
value. And where the decoders differ in other options, the values may differ. -/
theorem decode_collecting_watched :
    let item (fields : Entries String (Slot Value)) : Value :=
      .object ⟨.decoded [], "Item", .ready fields⟩
    watchfulRegistry.IsPure ∧
    (readWatched "strictly" { collectErrors := false } =
        .ok (item [("a", .initialized (.int 1))], []) ∧
      readWatched "strictly" { collectErrors := true } =
        .ok (item [], [.placed (some "$.a") (.formatter "strictly" "errors are collected")])) ∧
    readWatched "flags" { collectErrors := false } =
        .ok (item [("a", .initialized (.int 0))], []) ∧
      readWatched "flags" { collectErrors := true, jsonFlags := ⟨1⟩ } =
        .ok (item [("a", .initialized (.int 1))], []) := by
  intro item
  refine ⟨isPure_watchfulRegistry, ⟨?_, ?_⟩, ?_, ?_⟩
  all_goals with_unfolding_all rfl

end TypedJson
