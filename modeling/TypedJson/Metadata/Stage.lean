import TypedJson.Registry.Basic

/-!
# Metadata

What the properties of a class look like in one direction is worked out in stages. Each stage is
given the properties as the earlier ones leave them. The standard order names the properties,
attaches formatters, puts types for template parameters, cuts classes that are nested too deeply,
and keeps the active groups.
-/

namespace TypedJson

/-- The number of times that each class is open, sorted by class. -/
abbrev Depths : Type := List (String × Nat)

namespace Depths

/-- The depths with one count set. -/
def insert (depths : Depths) (className : String) (count : Nat) : Depths :=
  match depths with
  | [] => [(className, count)]
  | (c, n) :: rest =>
    if c = className then (c, count) :: rest
    else if className < c then (className, count) :: (c, n) :: rest
    else (c, n) :: insert rest className count

/-- The number of times that a class is open. -/
def count (depths : Depths) (className : String) : Nat :=
  (Entries.find? depths className).getD 0

/-- The depths of counts given in any order; of two counts for a class the last one stands. -/
def ofList (counts : List (String × Nat)) : Depths :=
  counts.foldl (fun depths (c, n) ↦ depths.insert c n) []

/-- The depths while classes are open. -/
def ofStack (classes : List String) : Depths :=
  classes.foldl (fun depths c ↦ depths.insert c (count depths c + 1)) []

end Depths

/-- What surrounds an object whose properties are asked for. -/
structure MetadataContext where
  /-- What the class's template parameters are bound to. -/
  generics : Entries String DataType := []
  depths : Depths := []

/-- The bytes that a context feeds to a hash. -/
def MetadataContext.feed (context : MetadataContext) : List UInt8 :=
  context.generics.flatMap (fun (name, t) ↦ Fingerprint.text name ++ Fingerprint.text t.text) ++
    Fingerprint.word 0 ++
    context.depths.flatMap fun (c, n) ↦
      Fingerprint.text c ++ Fingerprint.word (UInt64.ofNat n)

/-- What properties are asked for. -/
structure MetadataRequest where
  className : String
  direction : Direction
  registry : Registry
  config : Config
  context : MetadataContext

/-- A stage. These are the standard ones; a pipeline may hold any of them in any order, but no
stage of another kind. -/
inductive Stage where
  /-- The declared properties. -/
  | base
  /-- Other names. -/
  | rename
  /-- The formatter of the direction, and the type at its text side. -/
  | formatter
  /-- Points in time become strings. -/
  | dateTime
  /-- Template parameters are replaced by what they are bound to. -/
  | generics
  /-- Properties that would open a class too often are replaced or dropped. -/
  | maxDepth
  /-- Properties outside the active groups are dropped. -/
  | groups
  deriving DecidableEq

namespace Stage

/-- The name of a stage. -/
def name : Stage → String
  | base => "base"
  | rename => "rename"
  | formatter => "formatter"
  | dateTime => "date_time"
  | generics => "generics"
  | maxDepth => "max_depth"
  | groups => "groups"

/-- All stages in the standard order. -/
def standard : List Stage := [base, rename, formatter, dateTime, generics, maxDepth, groups]

/-- The stage of a name. -/
def ofName? (name : String) : Option Stage := standard.find? fun stage ↦ decide (stage.name = name)

/-- Each property of a map changed, or dropped, up to the first error. -/
def forEach (change : String → Property → Except ConfigError (Option Property)) :
    PropertyMap → Except ConfigError PropertyMap
  | [] => .ok []
  | (key, p) :: rest => do
    let changed ← change key p
    let others ← forEach change rest
    return match changed with
      | some p => (key, p) :: others
      | none => others

/-- The declared properties. -/
def declared (request : MetadataRequest) : List String → Except ConfigError PropertyMap
  | [] => .ok []
  | name :: names => do
    let type ← request.registry.propertyType request.className name
    let others ← declared request names
    return (name, .plain name type) :: others

/-- The last name that directives ask for. -/
def renamed (directives : List Directive) (name : String) : String :=
  directives.foldl (fun name directive ↦
    match directive with
    | .rename other => other
    | _ => name) name

/-- The formatter that directives ask for in a direction. -/
def wanted? (direction : Direction) (directives : List Directive) : Option String :=
  directives.findSome? fun directive ↦
    match directive, direction with
    | .encodeFormatter name, .encode | .decodeFormatter name, .decode => some name
    | _, _ => none

/-- The property with the formatter of the direction. -/
def attach (request : MetadataRequest) (directives : List Directive) (p : Property) :
    Except ConfigError Property :=
  match wanted? request.direction directives with
  | none => .ok p
  | some name => do
    let (input, output) ← request.registry.formatters.types name
    let type :=
      match request.direction with
      | .encode => output
      | .decode => input
    return { p with type, formatters := p.formatters ++ [.named name] }

/-- The property as a string, if it is a point in time. -/
def asText (request : MetadataRequest) (p : Property) : Property :=
  if p.type.nonNull.isDateTime then
    let pattern := request.config.dateTimeFormat
    let ref : FormatterRef :=
      match request.direction with
      | .encode => .dateTimeFormat pattern
      | .decode => .dateTimeParse pattern
    { p with
      type := (DataType.scalar .string).nullableIf p.type.isNullable
      formatters := p.formatters ++ [ref] }
  else p

/-- The greatest depth that directives ask for, with its formatter. -/
def depthDirective? (directives : List Directive) : Option (Nat × Option String) :=
  directives.findSome? fun directive ↦
    match directive with
    | .maxDepth max replacement => some (max, replacement)
    | _ => none

/-- The property unless it opens a class too often; then the formatter for that case stands in its
place, and without one it is dropped. Only writing calls the formatter. -/
def limit (request : MetadataRequest) (defaultLimit : Nat) (directives : List Directive)
    (p : Property) : Except ConfigError (Option Property) :=
  let directive := depthDirective? directives
  let limit := (directive.map (·.1)).getD defaultLimit
  if p.type.referencedClasses.any fun c ↦ decide (limit ≤ request.context.depths.count c) then
    match (directive.bind (·.2)) <|> request.config.maxDepthFormatter with
    | none => .ok none
    | some name => do
      let (_, output) ← request.registry.formatters.types name
      let formatters :=
        match request.direction with
        | .encode => p.formatters ++ [.named name]
        | .decode => p.formatters
      return some { p with type := output.nullableIf p.type.isNullable, formatters }
  else .ok (some p)

/-- Whether a property is in one of the active groups, or in none at all. -/
def isActive (active : List String) (directives : List Directive) : Bool :=
  let tags := directives.filterMap fun directive ↦
    match directive with
    | .groups names => some names
    | _ => none
  tags.isEmpty || tags.any fun names ↦ names.any active.contains

/-- What a stage makes of the properties. -/
def apply (stage : Stage) (request : MetadataRequest) (properties : PropertyMap) :
    Except ConfigError PropertyMap :=
  let directives := request.registry.propertyDirectives request.className
  match stage with
  | base => do declared request (← request.registry.propertyNames request.className)
  | rename =>
    .ok (properties.map fun (key, p) ↦
      (key, { p with encodedName := renamed (directives key) p.encodedName }))
  | formatter => forEach (fun key p ↦ (attach request (directives key) p).map some) properties
  | dateTime => do
    match request.config.dateTimeFormat with
    | some pattern => checkDateTimeFormat pattern
    | none => pure ()
    return properties.map fun (key, p) ↦ (key, asText request p)
  | generics =>
    .ok (properties.map fun (key, p) ↦
      (key, { p with type := p.type.substitute request.context.generics }))
  | maxDepth => do
    match ← request.config.circularPolicy with
    | .reject => return properties
    | .maxDepth defaultLimit =>
      forEach (fun key p ↦ limit request defaultLimit (directives key) p) properties
  | groups =>
    if request.config.groups.isEmpty then .ok properties
    else .ok (properties.filter fun (key, _) ↦ isActive request.config.groups (directives key))

end Stage

/-- Stages in order. -/
abbrev Pipeline : Type := List Stage

/-- The properties that the stages of a pipeline arrive at. -/
def Pipeline.load (pipeline : Pipeline) (request : MetadataRequest) :
    Except ConfigError PropertyMap :=
  pipeline.foldlM (fun properties stage ↦ stage.apply request properties) []

end TypedJson
