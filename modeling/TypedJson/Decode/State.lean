import TypedJson.Fingerprint
import TypedJson.Split.Window
import TypedJson.Value.Access

/-!
# What decoding keeps track of

Reading a text counts its looks into the text, collects the errors that may be collected, and
remembers the shapes of classes whose objects are made without reading them. All three survive a
failure. `Decode.later` finds out what a step that is put off will come to, at its own cost; by then
the collected errors are handed out, so such a step collects none.
-/

namespace TypedJson

/-! ## Collected errors -/

/-- Errors that are collected instead of ending the reading, until they are handed out. -/
structure Collector where
  isEnabled : Bool
  isSealed : Bool := false
  errors : List Failure := []

namespace Collector

/-- A collector that collects nothing. -/
def strict : Collector := { isEnabled := false }

/-- The collector with one more error, unless the error may not be collected. -/
def record? (c : Collector) (failure : Failure) : Option Collector :=
  if c.isEnabled && !c.isSealed && failure.isRecoverable then
    some { c with errors := c.errors ++ [failure] }
  else none

/-- Hands the errors out. From then on nothing is collected. -/
def take (c : Collector) : List Failure × Collector :=
  (c.errors, { c with isSealed := true, errors := [] })

end Collector

/-! ## Shapes of classes -/

/-- What is known of the objects of a class before they are read. -/
structure GhostShape where
  className : String
  /-- The names of the properties in the class. -/
  fields : List String
  /-- The names of the properties in the text. -/
  encoded : List String

/-- The first string that has occurred before, or is among those already seen. -/
def firstRepeated (seen : List String) : List String → Option String
  | [] => none
  | name :: names => if seen.contains name then some name else firstRepeated (name :: seen) names

/-- The shape of a class with properties, each given by its name in the class and its name in the
text. Two properties may not share a name in the text. -/
def GhostShape.of (className : String) (layout : List (String × String)) :
    Except ConfigError GhostShape :=
  let encoded := layout.map (·.2)
  match firstRepeated [] encoded with
  | some name =>
    .error (.unsupportedShape className s!"`{name}` is encoded by more than one property")
  | none => .ok ⟨className, layout.map (·.1), encoded⟩

/-- The bytes that identify a class with properties. -/
def GhostShape.feed (className : String) (layout : List (String × String)) : List UInt8 :=
  Fingerprint.text className ++
    layout.flatMap fun (source, encoded) ↦ Fingerprint.text source ++ Fingerprint.text encoded

/-- Shapes by the bytes that identify them. -/
abbrev GhostShapes : Type := Entries (List UInt8) GhostShape

/-- The shape of a class, remembered or built, and the shapes afterwards. Nothing is kept of an
error. -/
def GhostShapes.load (shapes : GhostShapes) (className : String) (layout : List (String × String)) :
    Except ConfigError GhostShape × GhostShapes :=
  let key := GhostShape.feed className layout
  match Entries.find? shapes key with
  | some shape => (.ok shape, shapes)
  | none =>
    match GhostShape.of className layout with
    | .ok shape => (.ok shape, Entries.put shapes key shape)
    | .error error => (.error error, shapes)

/-! ## Steps -/

/-- What decoding keeps track of. -/
structure DecodeState where
  cost : Cost := 0
  collector : Collector := .strict
  shapes : GhostShapes := []

/-- A step of decoding. What it keeps track of stays, also if it fails. -/
abbrev Decode (α : Type) : Type := EStateM Failure DecodeState α

namespace Decode

/-- The value or the failure that was found. -/
def found {α : Type} : Except Failure α → Decode α
  | .ok a => return a
  | .error failure => throw failure

/-- Adds a cost. -/
def pay (cost : Cost) : Decode Unit := modify fun state ↦ { state with cost := state.cost + cost }

/-- Looks into a window. -/
def look (w : Window) : Decode Unit := pay { reads := w.looks }

/-- Collects an error, or fails with it. -/
def record (failure : Failure) : Decode Unit := fun state ↦
  match state.collector.record? failure with
  | some collector => .ok () { state with collector }
  | none => .error failure state

/-- A step whose failure is reported at a place. -/
def locate {α : Type} (place : Place) (step : Decode α) : Decode α :=
  tryCatch step fun failure ↦ throw (failure.locate place.text)

/-- A value, or nothing if the step fails and its error is collected. -/
def orRecord {α : Type} (step : Decode α) : Decode (Option α) :=
  tryCatch (some <$> step) fun failure ↦ do
    record failure
    return none

/-- The shape of a class. -/
def shape (className : String) (layout : List (String × String)) : Decode GhostShape := fun state ↦
  match state.shapes.load className layout with
  | (.ok shape, shapes) => .ok shape { state with shapes }
  | (.error error, shapes) => .error (.configuration error) { state with shapes }

/-- What a step that is put off will come to, and what that will cost. -/
def later {α : Type} (step : Decode α) : Decode (Cost × Except Failure α) := do
  let state ← get
  match step { state with cost := 0, collector := .strict } with
  | .ok a after => return (after.cost, .ok a)
  | .error failure after => return (after.cost, .error failure)

end Decode

end TypedJson
