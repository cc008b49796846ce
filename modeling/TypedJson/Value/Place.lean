/-!
# Places

A place is the way from the root of a text to a member of it. Failures are reported at the text of
a place, and a decoded object is known by its place, so that two readings of one text find the same
objects.
-/

namespace TypedJson

/-- One step of a place. -/
inductive PlaceStep where
  /-- An item of a list. -/
  | item (i : Nat)
  /-- An entry of a dictionary. -/
  | entry (key : String)
  /-- A property of an object, with its name in the text. -/
  | property (source encoded : String)
  deriving DecidableEq

/-- A step as it is appended to the text of a place. -/
def PlaceStep.text : PlaceStep → String
  | item i => "[" ++ toString i ++ "]"
  | entry key => "." ++ key
  | property _ encoded => "." ++ encoded

/-- A place, with the innermost step first. -/
abbrev Place := List PlaceStep

/-- The text of a place. -/
def Place.text : Place → String
  | [] => "$"
  | step :: outer => Place.text outer ++ step.text

end TypedJson
