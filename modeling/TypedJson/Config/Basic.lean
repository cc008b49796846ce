import TypedJson.Config.Hooks
import TypedJson.DateTime.Pattern
import TypedJson.Fingerprint
import TypedJson.Json.Quoted

/-!
# Options

The options of one call. What distinguishes the artifacts of two calls is fed into the hash of a
`Config`; whether values are read lazily and whether errors are collected matters while reading
only.
-/

namespace TypedJson

/-- What to do with a class that contains itself. -/
inductive CircularPolicy where
  | reject
  /-- At most this many objects of one class inside each other. -/
  | maxDepth (limit : Nat)
  deriving DecidableEq

/-- The options of a call. -/
structure Config where
  /-- The active groups; without any, all properties are kept. -/
  groups : List String := []
  maxDepth : Option Nat := none
  rejectCircularReference : Bool := true
  /-- The pattern of points in time; RFC 3339 without one. -/
  dateTimeFormat : Option String := none
  lazy : Bool := false
  collectErrors : Bool := false
  jsonFlags : JsonFlags := .none
  /-- The formatter that replaces a property beyond the greatest depth. -/
  maxDepthFormatter : Option String := none
  hooks : Hooks := {}

/-- Refuses a pattern with a directive that does not exist. -/
def checkDateTimeFormat (pattern : String) : Except ConfigError Unit :=
  if DateTime.isPattern pattern then .ok ()
  else .error (.invalidOption "dateTimeFormat" s!"invalid strftime pattern `{pattern}`")

namespace Config

/-- What to do with a class that contains itself. A greatest depth switches to limiting the depth;
without one, not to reject would never end. -/
def circularPolicy (config : Config) : Except ConfigError CircularPolicy :=
  match config.maxDepth with
  | some 0 => .error (.invalidOption "maxDepth" "must be at least 1")
  | some (n + 1) => .ok (.maxDepth (n + 1))
  | none =>
    if config.rejectCircularReference then .ok .reject
    else
      .error (.invalidOption "rejectCircularReference" "disabling rejection requires maxDepth")

/-- The active groups, sorted and each once. -/
def sortedGroups (config : Config) : List String :=
  (config.groups.mergeSort fun a b ↦ !decide (b < a)).eraseReps

/-- The bytes that the options which distinguish artifacts feed to a hash. -/
def feed (config : Config) : List UInt8 :=
  let groups := config.sortedGroups
  let depth : Nat :=
    match config.circularPolicy with
    | .ok (.maxDepth n) => n + 1
    | _ => 0
  Fingerprint.word (UInt64.ofNat groups.length) ++ groups.flatMap Fingerprint.text ++
    Fingerprint.word (UInt64.ofNat depth) ++
    Fingerprint.text (config.dateTimeFormat.getD "") ++
    Fingerprint.text (config.maxDepthFormatter.getD "") ++
    Fingerprint.word config.jsonFlags.bits.toUInt64 ++
    config.hooks.identities.flatMap fun (key, id) ↦
      Fingerprint.text key ++ Fingerprint.word (UInt64.ofNat id)

end Config

end TypedJson
