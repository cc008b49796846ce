import TypedJson.Decode.Walk

/-!
# Runs of steps

What a run of a composed step comes to, given what runs of its parts do. A step *fails located* if
its failures carry a path wherever a failure can: then no place further out changes them.
-/

namespace TypedJson

/-- No place changes the path of the failure. -/
def Failure.IsLocated (failure : Failure) : Prop := ∀ path, failure.locate path = failure

theorem Failure.isLocated_locate (failure : Failure) (path : String) :
    (failure.locate path).IsLocated := fun outer ↦ failure.locate_locate path outer

namespace Decode

variable {α β : Type} {x : Decode α} {f : α → Decode β} {a : α} {failure : Failure}
  {state state' : DecodeState}

/-- The end of a step in a state. -/
def ended {α : Type} : Except Failure α → DecodeState → EStateM.Result Failure DecodeState α
  | .ok a, state => .ok a state
  | .error failure, state => .error failure state

theorem bind_of_ok (h : x state = .ok a state') : (x >>= f) state = f a state' := by
  show EStateM.bind x f state = _
  rw [EStateM.bind, h]

theorem bind_of_error (h : x state = .error failure state') :
    (x >>= f) state = .error failure state' := by
  show EStateM.bind x f state = _
  rw [EStateM.bind, h]

theorem tryCatch_of_ok {handle : Failure → Decode α} (h : x state = .ok a state') :
    (tryCatch x handle) state = .ok a state' := by
  show EStateM.tryCatch x handle state = _
  unfold EStateM.tryCatch
  rw [h]

theorem tryCatch_of_error {handle : Failure → Decode α} (h : x state = .error failure state') :
    (tryCatch x handle) state = handle failure state' := by
  show EStateM.tryCatch x handle state = _
  unfold EStateM.tryCatch
  rw [h]
  rfl

theorem locate_of_ok {place : Place} (h : x state = .ok a state') :
    locate place x state = .ok a state' := tryCatch_of_ok h

theorem locate_of_error {place : Place} (h : x state = .error failure state') :
    locate place x state = .error (failure.locate place.text) state' := tryCatch_of_error h

/-- A place is told of failures only. -/
theorem locate_eq_ok_iff {place : Place} :
    locate place x state = .ok a state' ↔ x state = .ok a state' := by
  refine ⟨fun h ↦ ?_, locate_of_ok⟩
  cases hx : x state with
  | ok b after => exact (locate_of_ok hx).symm.trans h
  | error failure after =>
    rw [locate_of_error hx] at h
    cases h

theorem orRecord_of_ok (h : x state = .ok a state') : orRecord x state = .ok (some a) state' := by
  refine tryCatch_of_ok ?_
  rw [map_eq_pure_bind]
  exact bind_of_ok h

/-- A failure that cannot be collected ends the step. -/
theorem orRecord_of_error (h : x state = .error failure state')
    (hrecord : state'.collector.record? failure = none) :
    orRecord x state = .error failure state' := by
  have hmap : (some <$> x) state = .error failure state' := by
    rw [map_eq_pure_bind]
    exact bind_of_error h
  refine (tryCatch_of_error hmap).trans (bind_of_error ?_)
  rw [record, hrecord]

theorem orRecord_of_recorded {collector : Collector} (h : x state = .error failure state')
    (hrecord : state'.collector.record? failure = some collector) :
    orRecord x state = .ok none { state' with collector } := by
  have hmap : (some <$> x) state = .error failure state' := by
    rw [map_eq_pure_bind]
    exact bind_of_error h
  have hrun : record failure state' = .ok () { state' with collector } := by
    rw [record, hrecord]
  exact (tryCatch_of_error hmap).trans (bind_of_ok hrun)

/-! ## Results -/

/-- All results of the step have a property. -/
def Returns (P : α → Prop) (x : Decode α) : Prop :=
  ∀ state a state', x state = .ok a state' → P a

theorem returns_pure {P : α → Prop} (h : P a) : Returns P (pure a) := by
  intro state b state' hrun
  obtain ⟨rfl, -⟩ := EStateM.Result.ok.inj hrun
  exact h

theorem returns_throw {P : α → Prop} (failure : Failure) :
    Returns P (throw failure) := fun _ _ _ h ↦ nomatch h

theorem Returns.bind {P : β → Prop} (hf : ∀ a, Returns P (f a)) : Returns P (x >>= f) := by
  intro state b state' h
  cases hx : x state with
  | ok a _ => exact hf a _ _ _ ((bind_of_ok hx).symm.trans h)
  | error _ _ => exact nomatch (bind_of_error (f := f) hx).symm.trans h

/-! ## Located failures -/

/-- All failures of the step are located. -/
def FailsLocated (x : Decode α) : Prop :=
  ∀ state failure state', x state = .error failure state' → failure.IsLocated

theorem failsLocated_pure (a : α) : FailsLocated (pure a) := fun _ _ _ h ↦ nomatch h

theorem failsLocated_locate (place : Place) (x : Decode α) : FailsLocated (locate place x) := by
  intro state failure state' h
  cases hx : x state with
  | ok a after =>
    have hlocate : locate place x state = .ok a after := locate_of_ok hx
    exact nomatch hlocate.symm.trans h
  | error inner _ =>
    obtain ⟨rfl, -⟩ := EStateM.Result.error.inj ((locate_of_error hx).symm.trans h)
    exact inner.isLocated_locate _

theorem FailsLocated.bind (hx : FailsLocated x) (hf : ∀ a, FailsLocated (f a)) :
    FailsLocated (x >>= f) := by
  intro state failure state' h
  cases hrun : x state with
  | ok a _ => exact hf a _ _ _ ((bind_of_ok hrun).symm.trans h)
  | error _ _ =>
    obtain ⟨rfl, -⟩ := EStateM.Result.error.inj ((bind_of_error (f := f) hrun).symm.trans h)
    exact hx _ _ _ hrun

theorem failsLocated_field (context : DecodeContext) (p : PropertyNode Plan) (w : Window)
    (place : Place) : FailsLocated (field context p w place) := by
  refine (failsLocated_locate place _).bind fun v ↦ ?_
  by_cases hnull : v.isNull = true
  · simp only [hnull, if_true]
    exact failsLocated_pure v
  · simp only [hnull, Bool.false_eq_true, if_false]
    exact failsLocated_locate place _

end Decode

/-! ## Texts -/

namespace Node

variable {root : Node} {registry : Registry} {config : Config} {shapes : GhostShapes}
  {bytes : List UInt8} {state : DecodeState}

theorem decode_of_ok {v : Value}
    (h : Decode.value (root.plan ⟨registry, config⟩) (Window.whole bytes) []
      { collector := { isEnabled := config.collectErrors }, shapes } = .ok v state) :
    (root.decode registry config shapes bytes).1 =
      .ok ⟨v, state.collector.errors, state.cost⟩ := by
  unfold Node.decode
  dsimp only
  rw [h]
  rfl

theorem decode_of_error {failure : Failure}
    (h : Decode.value (root.plan ⟨registry, config⟩) (Window.whole bytes) []
      { collector := { isEnabled := config.collectErrors }, shapes } = .error failure state) :
    (root.decode registry config shapes bytes).1 = .error failure := by
  unfold Node.decode
  dsimp only
  rw [h]

theorem decode_eq_of_ended {outcome : Except Failure Value}
    (h : Decode.value (root.plan ⟨registry, config⟩) (Window.whole bytes) []
      { collector := { isEnabled := config.collectErrors }, shapes } =
        Decode.ended outcome state) :
    (root.decode registry config shapes bytes).1 =
      outcome.map fun v ↦ ⟨v, state.collector.errors, state.cost⟩ := by
  cases outcome with
  | ok v => exact decode_of_ok h
  | error failure => exact decode_of_error h

end Node

end TypedJson
