import TypedJson.Decode.Walk

/-!
# Steps without parts

Reading a leaf, splitting a window and choosing a member of a union are made of a few steps: looking
into the text costs something, and what is found is answered or fails. What holds of these, and of a
step if it holds of the steps it is made of, holds of them all.
-/

namespace TypedJson.Decode

/-- The property of steps holds of what every step is made of, and of a step if it holds of its
parts. -/
structure IsClosed (C : ∀ α : Type, Decode α → Prop) : Prop where
  pure {α : Type} (a : α) : C α (Pure.pure a)
  throw {α : Type} (failure : Failure) : C α (MonadExcept.throw failure)
  pay (cost : Cost) : C Unit (Decode.pay cost)
  bind {α β : Type} {x : Decode α} {f : α → Decode β} (hx : C α x) (hf : ∀ a, C β (f a)) :
    C β (x >>= f)

namespace IsClosed

variable {C : ∀ α : Type, Decode α → Prop} (hC : IsClosed C)

include hC

theorem look (w : Window) : C Unit (Decode.look w) := hC.pay _

theorem found {α : Type} (outcome : Except Failure α) : C α (Decode.found outcome) := by
  cases outcome with
  | ok a => exact hC.pure a
  | error failure => exact hC.throw failure

theorem json (w : Window) : C Json (Decode.json w) := hC.bind (hC.look w) fun _ ↦ hC.found _

theorem scalar (kind : ScalarKind) (w : Window) : C Value (Decode.scalar kind w) :=
  hC.bind (hC.json w) fun _ ↦ hC.found _

theorem enumCase (registry : Registry) (className : String) (backing : ScalarKind) (w : Window) :
    C Value (Decode.enumCase registry className backing w) := by
  unfold Decode.enumCase
  cases Entries.find? registry.enums className with
  | none => exact hC.throw _
  | some e =>
    refine hC.bind (hC.scalar backing w) fun case ↦ ?_
    have haccept : ∀ (value : Json) (refused : Failure), C Value
        (if e.accepts value then Pure.pure (Value.enum className case)
          else MonadExcept.throw refused) := by
      intro value refused
      split
      · exact hC.pure _
      · exact hC.throw _
    cases case with
    | int i => exact haccept _ _
    | string s => exact haccept _ _
    | _ => exact hC.throw _

theorem members {κ : Type} (c : Container κ) (w : Window) : C _ (Decode.members c w) :=
  hC.bind (hC.look w) fun _ ↦ hC.found _

theorem choose {ν : Type} (registry : Registry) (candidates : List (Candidate ν))
    (discriminator : Option String) (w : Window) :
    C _ (Decode.choose registry candidates discriminator w) := by
  unfold Decode.choose
  cases discriminator with
  | some name =>
    dsimp only
    cases registry.discriminators.byName? name with
    | none => exact hC.throw _
    | some d =>
      refine hC.bind (hC.json w) fun value ↦ ?_
      cases (d.select (Value.ofJson value) []).1 with
      | none => exact hC.throw _
      | some key =>
        dsimp only
        cases candidates.find? fun c ↦ decide (c.key = key) with
        | none => exact hC.throw _
        | some c => exact hC.pure c
  | none =>
    refine hC.bind (hC.look w) fun _ ↦ hC.bind (hC.found _) fun shape ↦ ?_
    dsimp only
    split
    · exact hC.pure _
    · exact hC.throw _

theorem format (context : DecodeContext) (v : Value) (ref : FormatterRef) :
    C Value (Decode.format context v ref) :=
  hC.bind (hC.pay _) fun _ ↦ hC.bind (hC.found _) fun _ ↦ hC.pure _

theorem foldlM_format (context : DecodeContext) (refs : List FormatterRef) (v : Value) :
    C Value (refs.foldlM (Decode.format context) v) := by
  induction refs generalizing v with
  | nil => exact hC.pure v
  | cons ref refs ih =>
    rw [List.foldlM_cons]
    exact hC.bind (hC.format context v ref) ih

end IsClosed

end TypedJson.Decode
