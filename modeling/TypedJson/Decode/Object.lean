import TypedJson.Decode.State

/-!
# Making objects

An object is made from the steps that read its fields. Made at once, it holds the fields whose
steps succeed, and the errors of the others are collected. Made lazily, it is a ghost: its text is
split when it is first asked for anything, and each field is read when it is first asked for.
-/

namespace TypedJson

/-- The steps that read the fields of an object. -/
abbrev FieldSteps : Type := Entries String (Decode Value)

namespace Decode

/-- The fields whose steps succeed. -/
def readFields : FieldSteps → Decode (List (String × Slot Value))
  | [] => return []
  | (name, step) :: steps => do
    let value ← orRecord step
    let others ← readFields steps
    return match value with
      | some value => (name, .initialized value) :: others
      | none => others

/-- The fields, to be read later. -/
def deferFields : FieldSteps → Decode (List (String × Slot Value))
  | [] => return []
  | (name, step) :: steps => do
    let (cost, outcome) ← later step
    let others ← deferFields steps
    return (name, .pending cost outcome) :: others

/-- An object of a class, whose properties have a name in the class and one in the text each, given
the step that finds its fields. -/
def makeObject (isLazy : Bool) (identity : Identity) (className : String)
    (layout : List (String × String)) (load : Decode FieldSteps) : Decode (Object Value) :=
  if isLazy then do
    let shape ← shape className layout
    let (cost, slots) ← later (do deferFields (← load))
    return ⟨identity, shape.className, .ghost shape.fields cost slots⟩
  else do
    let slots ← readFields (← load)
    return ⟨identity, className, .ready slots⟩

end Decode

end TypedJson
