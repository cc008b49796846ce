/-!
# Errors

`ConfigError` is what can be wrong with definitions: types, classes, formatters, options. Such an
error ends whatever is being done. `Failure` is what can go wrong while a value is written or
read; four kinds of it belong to one place of the value, carry the path of that place and may be
collected instead of ending the reading.
-/

namespace TypedJson

/-- An error in a definition or an option. -/
inductive ConfigError where
  | invalidType (input reason : String)
  | genericsMismatch (className : String) (expected found : Nat)
  | unknownClass (className : String)
  | unknownFormatter (name : String)
  | invalidFormatter (name reason : String)
  | unresolvedPropertyType (className property reason : String)
  | ambiguousUnion (union : String)
  | unknownDiscriminator (name : String)
  | invalidOption (path problem : String)
  /-- A document whose text leaves its prescribed form at `path`. -/
  | unreadable (path : String)
  | unsupportedShape (className reason : String)
  deriving DecidableEq

/-- The text of an error. -/
def ConfigError.message : ConfigError → String
  | invalidType input reason => s!"invalid type `{input}`: {reason}"
  | genericsMismatch className expected found =>
    s!"class `{className}` declares {expected} template parameter(s) but {found} were given"
  | unknownClass className => s!"unknown class `{className}`"
  | unknownFormatter name => s!"unknown formatter `{name}`"
  | invalidFormatter name reason => s!"invalid formatter `{name}`: {reason}"
  | unresolvedPropertyType className property reason =>
    s!"cannot resolve type of `{className}::{property}`: {reason}"
  | ambiguousUnion union =>
    s!"union `{union}` has candidates with overlapping shapes and no discriminator"
  | unknownDiscriminator name => s!"unknown discriminator `{name}`"
  | invalidOption path problem => s!"invalid option at {path}: {problem}"
  | unreadable path => s!"invalid option at {path}"
  | unsupportedShape className reason => s!"class `{className}` cannot be proxied: {reason}"

/-- What went wrong at one place of a value. -/
inductive Cause where
  /-- The text is damaged at `offset`. -/
  | invalidResource (offset : Nat) (reason : String)
  /-- The text at `offset` is not what may stand there. -/
  | unexpectedToken (offset : Nat) (found : String)
  /-- The value is not of the expected kind. -/
  | unexpectedValue (expected found : String)
  /-- A formatter refused the value. -/
  | formatter (name problem : String)
  deriving DecidableEq

/-- A failure of writing or reading. -/
inductive Failure where
  | configuration (error : ConfigError)
  | circularReference (className chain : String)
  /-- A failure that belongs to a place of the value, with its path if that is known. -/
  | placed (path : Option String) (cause : Cause)
  /-- A stored artifact is not what its key promises. -/
  | storage
  deriving DecidableEq

namespace Failure

/-- A value of the wrong kind. -/
def unexpectedValue (expected found : String) : Failure :=
  placed none (.unexpectedValue expected found)

/-- A text that may not stand where it does. -/
def unexpectedToken (offset : Nat) (found : String) : Failure :=
  placed none (.unexpectedToken offset found)

/-- A damaged text. -/
def invalidResource (offset : Nat) (reason : String) : Failure :=
  placed none (.invalidResource offset reason)

/-- A refusal by a formatter. -/
def formatter (name problem : String) : Failure := placed none (.formatter name problem)

/-- The path of the place that the failure belongs to, if it is known. -/
def path? : Failure → Option String
  | placed path _ => path
  | _ => none

/-- The failure with a path, unless it has one: the innermost place is named first and kept. -/
def locate (failure : Failure) (path : String) : Failure :=
  match failure with
  | placed none cause => placed (some path) cause
  | failure => failure

/-- Whether the failure belongs to one place and may be collected. -/
def isRecoverable : Failure → Bool
  | placed _ _ => true
  | _ => false

/-- The text of a failure. -/
def message : Failure → String
  | configuration error => "configuration: " ++ error.message
  | circularReference className chain => s!"circular reference to `{className}` ({chain})"
  | placed path cause =>
    let place := (path.map (" at " ++ ·)).getD ""
    match cause with
    | .invalidResource offset reason => s!"invalid resource at offset {offset}{place}: {reason}"
    | .unexpectedToken offset found => s!"unexpected token `{found}` at offset {offset}{place}"
    | .unexpectedValue expected found =>
      s!"unexpected value{place}: expected {expected}, found {found}"
    | .formatter name problem => s!"formatter `{name}` failed{place}: {problem}"
  | storage => "io"

@[simp] theorem locate_locate (failure : Failure) (inner outer : String) :
    (failure.locate inner).locate outer = failure.locate inner := by
  match failure with
  | placed none _ | placed (some _) _ | configuration _ | circularReference _ _ | storage => rfl

end Failure

end TypedJson
