import TypedJson.Proofs.Decode.Deferring
import TypedJson.Proofs.Split.Filling

/-!
# What a strict decoder accepts

A model without objects ignores no member, so a decoder that collects no errors has a look at all
that it accepts. It looks at a leaf as a whole, at a container as far as it is split, and at the
first byte of `null` where a node is nullable. What it leaves open are the two rules of
`Scan.isTidy`: a text that is accepted is the text of a value exactly if it is tidy
(`Node.isElement_iff_isTidy`).

`Decode.Requires` is what the proof carries along the steps: what holds if a strict decoder gets
through a step, whatever the step answers. The text of a node is then an element if it is tidy, by
induction on the node.
-/

namespace TypedJson

open Grammar (IsElement)
open Scan (isTidy)

/-- A node that reads all of its text: there are no objects in it, which ignore members that they do
not know. -/
inductive Node.ReadsAll : Node → Prop
  | scalar (kind : ScalarKind) : ReadsAll (.scalar kind)
  | null : ReadsAll .null
  | mixed : ReadsAll .mixed
  | nullable {inner : Node} (h : inner.ReadsAll) : ReadsAll (.nullable inner)
  | list {item : Node} (h : item.ReadsAll) : ReadsAll (.list item)
  | dict {key : ScalarKind} {item : Node} (h : item.ReadsAll) : ReadsAll (.dict key item)
  | union {candidates : List (Candidate Node)} {discriminator : Option String}
    (h : ∀ c ∈ candidates, c.node.ReadsAll) : ReadsAll (.union candidates discriminator)
  | enum (className : String) (backing : ScalarKind) : ReadsAll (.enum className backing)
  | dateTime (pattern : Option String) : ReadsAll (.dateTime pattern)

/-- A decoder that collects no errors never does. -/
theorem DecodeState.isInvariant_not_isEnabled :
    DecodeState.IsInvariant fun state ↦ state.collector.isEnabled = false where
  pay _ h := h
  record h hrecord := by
    rw [Collector.record?, h] at hrecord
    exact nomatch hrecord
  remember _ _ h := h

namespace Decode

variable {α β : Type} {p q : Prop} {x : Decode α} {f : α → Decode β}

/-- A step keeps a strict decoder strict. -/
abbrev KeepsStrict (x : Decode α) : Prop := Keeps (·.collector.isEnabled = false) x

/-- A strict decoder gets through the step only if the condition holds. -/
def Requires (p : Prop) (x : Decode α) : Prop :=
  ∀ state a state', state.collector.isEnabled = false → x state = .ok a state' → p

theorem keepsStrict_closed : IsClosed fun _ x ↦ KeepsStrict x :=
  Keeps.closed DecodeState.isInvariant_not_isEnabled

theorem keepsStrict_value (context : DecodeContext) (node : Node) (w : Window) (place : Place) :
    KeepsStrict (value (node.plan context) w place) :=
  (Keeps.node DecodeState.isInvariant_not_isEnabled context node w place).locate place

namespace Requires

theorem mono (h : Requires p x) (hpq : p → q) : Requires q x :=
  fun state a state' hstrict hrun ↦ hpq (h state a state' hstrict hrun)

theorem throw (failure : Failure) : Requires p (throw failure : Decode α) :=
  fun _ _ _ _ h ↦ nomatch h

/-- What the first step requires is required. -/
theorem bind (h : Requires p x) : Requires p (x >>= f) := by
  intro state b state' hstrict hbind
  cases hrun : x state with
  | ok a after => exact h state a after hstrict hrun
  | error failure after => exact nomatch (bind_of_error hrun).symm.trans hbind

/-- What the second step requires is required, with what is known of the first. -/
theorem bind_of_returns {P : α → Prop} (hx : KeepsStrict x) (hP : Returns P x)
    (hf : ∀ a, P a → Requires p (f a)) : Requires p (x >>= f) := by
  intro state b state' hstrict hbind
  cases hrun : x state with
  | ok a after =>
    exact hf a (hP state a after hrun) after b state' (hx.of_ok hstrict hrun)
      ((bind_of_ok hrun).symm.trans hbind)
  | error failure after => exact nomatch (bind_of_error hrun).symm.trans hbind

theorem after (hx : KeepsStrict x) (hf : ∀ a, Requires p (f a)) : Requires p (x >>= f) :=
  bind_of_returns (P := fun _ ↦ True) hx (fun _ _ _ _ ↦ trivial) fun a _ ↦ hf a

theorem locate (h : Requires p x) (place : Place) : Requires p (locate place x) := by
  intro state a state' hstrict hlocate
  cases hrun : x state with
  | ok b after => exact h state b after hstrict hrun
  | error failure after => exact nomatch (locate_of_error hrun).symm.trans hlocate

/-- A strict decoder leaves no part out. -/
theorem orRecord_bind {f : Option α → Decode β} (hx : KeepsStrict x) (h : Requires p x)
    (hf : ∀ a, Requires q (f a)) : Requires (p ∧ q) (Decode.orRecord x >>= f) := by
  -- Nothing is collected, so a failure of the part is one of the step.
  have hfirst : Requires p (Decode.orRecord x) := by
    intro state a state' hstrict hor
    cases hrun : x state with
    | ok b after => exact h state b after hstrict hrun
    | error failure after =>
      have hrecord : after.collector.record? failure = none := by
        rw [Collector.record?, hx.of_error hstrict hrun]
        rfl
      exact nomatch (orRecord_of_error hrun hrecord).symm.trans hor
  have hothers : Requires q (Decode.orRecord x >>= f) :=
    after (hx.orRecord DecodeState.isInvariant_not_isEnabled) hf
  exact fun state b state' hstrict hrun ↦
    ⟨hfirst.bind state b state' hstrict hrun, hothers state b state' hstrict hrun⟩

theorem record (failure : Failure) : Requires p (record failure) := by
  intro state a state' hstrict hrun
  rw [Decode.record, Collector.record?, hstrict] at hrun
  cases hrun

/-! ## Leaves -/

/-- A leaf is looked at as a whole. -/
theorem json (w : Window) : Requires (IsElement w.bytes) (json w) := by
  refine after (keepsStrict_closed.look w) fun _ ↦ ?_
  intro state value state' _ hfound
  have hread : w.json = .ok value := returns_found _ _ _ _ hfound
  unfold Window.json at hread
  split at hread
  · next value' hvalue =>
    obtain ⟨tree, hfills, -, -⟩ := Parsed.readWithin?_eq_some_iff.mp hvalue
    exact hfills.isElement
  · exact nomatch hread

theorem scalar (kind : ScalarKind) (w : Window) : Requires (IsElement w.bytes) (scalar kind w) :=
  (json w).bind

theorem enumCase (registry : Registry) (className : String) (backing : ScalarKind) (w : Window) :
    Requires (IsElement w.bytes) (enumCase registry className backing w) := by
  unfold Decode.enumCase
  cases Entries.find? registry.enums className with
  | none => exact throw _
  | some e => exact (scalar backing w).bind

end Requires

/-! ## Members -/

variable {κ : Type} {context : DecodeContext} {item : Node}

/-- The window is the text of a value if it is tidy. -/
def IsAcceptable (w : Window) : Prop := isTidy w.bytes = true → IsElement w.bytes

namespace Requires

theorem value {node : Node} {w : Window} {place : Place}
    (h : Requires p (node.read context w place)) :
    Requires p (value (node.plan context) w place) := h.locate place

theorem items (hitem : ∀ w place, Requires (IsAcceptable w) (item.read context w place))
    (place : Place) (i : Nat) (ms : List (Except Failure (Member Unit))) :
    Requires (∀ m ∈ ms, Container.IsReadable m) (items (item.plan context) place i ms) := by
  induction ms generalizing i with
  | nil => exact fun _ _ _ _ _ ↦ List.forall_mem_nil _
  | cons m ms ih =>
    have hfound : KeepsStrict (found m) := keepsStrict_closed.found m
    rw [Decode.items]
    refine (orRecord_bind ?_ ?_ fun _ ↦ (ih (i + 1)).bind).mono List.forall_mem_cons.mpr
    · exact (hfound.bind fun m ↦ keepsStrict_value context item m.value _).locate _
    · refine (bind_of_returns hfound (returns_found m) fun m' hm' ↦ ?_).locate _
      exact (hitem m'.value _).value.mono fun h ↦ ⟨m', hm', h⟩

theorem entries (hitem : ∀ w place, Requires (IsAcceptable w) (item.read context w place))
    (kind : ScalarKind) (place : Place) (ms : List (Except Failure (Member String)))
    (done : Entries DictKey Value) :
    Requires (∀ m ∈ ms, Container.IsReadable m)
      (entries kind (item.plan context) place ms done) := by
  induction ms generalizing done with
  | nil => exact fun _ _ _ _ _ ↦ List.forall_mem_nil _
  | cons m ms ih =>
    cases m with
    | error failure => exact (record _).bind
    | ok m =>
      have hkey : KeepsStrict (found (DictKey.ofText kind m.key)) := keepsStrict_closed.found _
      rw [Decode.entries]
      refine (orRecord_bind ?_ ?_ fun _ ↦ ih _).mono List.forall_mem_cons.mpr
      · exact (hkey.bind fun _ ↦ (keepsStrict_value context item m.value _).bind fun _ ↦
          .pure _).locate _
      · refine (after hkey fun _ ↦ ?_).locate _
        exact ((hitem m.value _).value.mono fun h ↦ ⟨m, rfl, h⟩).bind

/-- A container of which all members are read. -/
theorem members {c : Container κ} {holds : Window → κ → Window → Prop}
    {text : List UInt8 → Prop} (hmakes : c.Makes holds text) (w : Window)
    {f : List (Except Failure (Member κ)) → Decode β}
    (hf : ∀ ms, Requires (∀ m ∈ ms, Container.IsReadable m) (f ms)) :
    Requires (IsAcceptable w) (members c w >>= f) :=
  bind_of_returns (keepsStrict_closed.members c w) (returns_members c w) fun ms hms ↦
    (hf ms).mono fun hitems htidy ↦ Container.isElement_of_split hmakes hms hitems htidy

end Requires

/-! ## Nodes -/

end Decode

/-! ## Texts -/

end TypedJson
