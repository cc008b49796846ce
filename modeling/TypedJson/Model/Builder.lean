import TypedJson.Metadata.Cache
import TypedJson.Model.Node

/-!
# Building the data model

`DataType.toNode` replaces every part of a type by a node and leaves the classes to a function;
`Build.enterStep` is that function, given itself for the classes further in. Entering a class loads
its properties, runs the hooks and builds the property types in turn, while the class is open. The
classes that are open at a time are those of the registry, each at most as often as the policy
allows, so that their number bounds how deep classes are entered.

What has been built for a class, with its template parameters and the depths around it, is
remembered during a build.
-/

namespace TypedJson

/-- What a build works with. -/
structure BuildContext where
  registry : Registry
  config : Config
  direction : Direction
  pipeline : Pipeline
  policy : CircularPolicy

/-- What a build remembers. -/
structure BuildMemory where
  /-- Built classes, by the text of their type and the depths around them. -/
  memo : Entries (String × Depths) Node := []
  metadata : MetadataCache := []
  hooks : HookContext

/-- The state of a build. -/
structure BuildState extends BuildMemory where
  /-- The open classes, the outermost first. -/
  stack : List String := []

/-- A step of a build. What it remembers stays, also if it fails. -/
abbrev Build (α : Type) : Type := EStateM Failure BuildState α

namespace Build

/-- Fails with an error in a definition. -/
def refuse {α : Type} (error : ConfigError) : Build α := throw (.configuration error)

/-- The value of a computation that may find an error in a definition. -/
def lift {α : Type} : Except ConfigError α → Build α
  | .ok a => return a
  | .error error => refuse error

/-- Runs a hook. -/
def runHook {α : Type} (action : HookAction α) : Build α := fun state ↦
  match action state.hooks with
  | .ok a hooks => .ok a { state with hooks }
  | .error error hooks => .error (.configuration error) { state with hooks }

/-- Runs a build while one more class is open. Whatever comes of it, the class is closed again. -/
def opening {α : Type} (className : String) (x : Build α) : Build α := fun state ↦
  match x { state with stack := state.stack ++ [className] } with
  | .ok a after => .ok a { after with stack := after.stack.dropLast }
  | .error failure after => .error failure { after with stack := after.stack.dropLast }

/-- The node that is remembered under a key, or else the one that is built. That one is remembered,
unless its build fails. -/
def remembering (key : String × Depths) (x : Build Node) : Build Node := do
  match Entries.find? (← get).memo key with
  | some node => return node
  | none =>
    let node ← x
    modify fun state ↦ { state with memo := Entries.put state.memo key node }
    return node

end Build

/-! ## From types to nodes -/

/-- The node of a union whose members are built. -/
def unionNode (context : BuildContext) (t : DataType) (candidates : List (Candidate Node)) :
    Build Node :=
  match candidates with
  | [candidate] => return candidate.node
  | candidates =>
    let discriminator := (context.registry.discriminators.forUnion? t).map (·.name)
    if discriminator.isNone && !shapesDistinct (candidates.map (·.shape)) then
      Build.refuse (.ambiguousUnion t.text)
    else return .union candidates discriminator

/-- The node that accepts `null` as well, if it has to. -/
def nullableNode (nullable : Bool) (node : Node) : Node := if nullable then .nullable node else node

/-- The kind of the keys of a dictionary. -/
def keyKind (t key : DataType) : Build ScalarKind :=
  match key with
  | .mk (.scalar .int) false => return .int
  | .mk (.scalar .string) false => return .string
  | _ => Build.refuse (.invalidType t.text "dict keys must be int or string")

namespace DataType

mutual

/-- The node of a type, given how classes are entered. -/
def toNode (context : BuildContext) (enter : DataType → String → List DataType → Build Node) :
    DataType → Build Node
  | mk (.union members) nullable => do
    let candidates ← toCandidates context enter members
    let node ← unionNode context (mk (.union members) nullable) candidates
    return if nullable && !node.acceptsNull then .nullable node else node
  | mk .null _ => return .null
  | mk .mixed _ => return .mixed
  | mk (.scalar kind) nullable => return nullableNode nullable (.scalar kind)
  | mk (.list item) nullable => do
    return nullableNode nullable (.list (← toNode context enter item))
  | mk (.dict key value) nullable => do
    let kind ← keyKind (mk (.dict key value) nullable) key
    return nullableNode nullable (.dict kind (← toNode context enter value))
  | mk (.object className generics) nullable => do
    let t := mk (.object className generics) nullable
    let node ←
      if t.isDateTime then pure (.dateTime context.config.dateTimeFormat)
      else enter t className generics
    return nullableNode nullable node
  | mk (.enum className _) nullable => do
    let e ← Build.lift (context.registry.findEnum className)
    return nullableNode nullable (.enum className e.backing)
  | mk (.template name) _ => Build.refuse (.invalidType name "unbound template parameter")
termination_by structural t => t

/-- The candidates of the members of a union; `null` is none. -/
def toCandidates (context : BuildContext)
    (enter : DataType → String → List DataType → Build Node) :
    List DataType → Build (List (Candidate Node))
  | [] => return []
  | t :: types =>
    if t.isNull then toCandidates context enter types
    else do
      let node ← toNode context enter t
      let candidates ← toCandidates context enter types
      return ⟨t.text, node.shape? context.direction, node⟩ :: candidates
termination_by structural types => types

end

end DataType

/-! ## Entering classes -/

namespace Build

/-- The properties of a class, loaded. -/
def loadMetadata (context : BuildContext) (className : String) (metadata : MetadataContext) :
    Build PropertyMap := do
  let state ← get
  let request : MetadataRequest :=
    ⟨className, context.direction, context.registry, context.config, metadata⟩
  let (loaded, cache) := state.metadata.load context.pipeline request
  set { state with metadata := cache }
  lift loaded

/-- The property that an override asks for, unless it is left out. A formatter replaces those that
the property had. -/
def override (context : BuildContext) (p : Property) (o : PropertyOverride) :
    Build (Option Property) :=
  if o.drop then return none
  else
    let p := { p with encodedName := o.name.getD p.encodedName }
    match o.formatter with
    | none => return some p
    | some name => do
      let (input, output) ← lift (context.registry.formatters.types name)
      let formatters := [FormatterRef.named name]
      match context.direction with
      | .encode => return some { p with type := output, formatters, accessor := .computed }
      | .decode => return some { p with type := input, formatters }

/-- The property as its hook leaves it. -/
def hooked (context : BuildContext) (className key : String) (p : Property) :
    Build (Option Property) :=
  match context.config.hooks.propertyHook? className key with
  | none => return some p
  | some hook => do
    match ← runHook (hook.run className key p) with
    | none => return some p
    | some o => override context p o

/-- The nodes of properties, given how the node of a type is built. -/
def propertyNodes (context : BuildContext) (node : DataType → Build Node) (className : String) :
    PropertyMap → Build (List (PropertyNode Node))
  | [] => return []
  | (key, p) :: rest => do
    match ← hooked context className key p with
    | none => propertyNodes context node className rest
    | some p =>
      let n ← node p.type
      let others ← propertyNodes context node className rest
      return ⟨p.sourceName, p.encodedName, p.accessor, p.formatters, n⟩ :: others

/-- The properties of a class that is open, as its hook leaves them. -/
def properties (context : BuildContext) (t : DataType) (className : String)
    (metadata : MetadataContext) : Build PropertyMap := do
  let loaded ← loadMetadata context className metadata
  modify fun state ↦ { state with hooks := { state.hooks with stack := state.stack } }
  match context.config.hooks.objectHook? className with
  | none => return loaded
  | some hook => return (← runHook (hook.run t loaded)).getD loaded

/-- The node of a class, given how the nodes of its properties are built. The class is open while
its properties are looked at. -/
def classNode (context : BuildContext) (node : DataType → Build Node) (t : DataType)
    (className : String) (generics : List DataType) : Build Node := do
  let templates ← lift (context.registry.templates className)
  if templates.length ≠ generics.length then
    refuse (.genericsMismatch className templates.length generics.length)
  else
    let depths := Depths.ofStack ((← get).stack ++ [className])
    let nodes ← opening className do
      let map ← properties context t className ⟨Entries.ofList (templates.zip generics), depths⟩
      propertyNodes context node className map
    return .object className nodes

/-- Whether a class may not be opened once more. -/
def isTooDeep (policy : CircularPolicy) (stack : List String) (className : String) : Bool :=
  match policy with
  | .reject => stack.contains className
  | .maxDepth limit => limit < stack.count className

/-- The failure of a class that may not be opened once more. -/
def circular (stack : List String) (className : String) : Failure :=
  .circularReference className (" -> ".intercalate (stack ++ [className]))

/-- Runs a build for a class, unless the class may not be opened once more. -/
def guarding {α : Type} (policy : CircularPolicy) (className : String) (x : Build α) : Build α := do
  let stack := (← get).stack
  if isTooDeep policy stack className then throw (circular stack className) else x

/-- The node of a class, given how the classes of its properties are entered. -/
def enterStep (context : BuildContext) (enter : DataType → String → List DataType → Build Node)
    (t : DataType) (className : String) (generics : List DataType) : Build Node :=
  guarding context.policy className do
    let depths := Depths.ofStack ((← get).stack ++ [className])
    remembering (t.nonNull.text, depths)
      (classNode context (DataType.toNode context enter) t className generics)

/-- The node of a class, if at most `fuel` classes have to be opened inside each other. -/
def enter (context : BuildContext) : Nat → DataType → String → List DataType → Build Node
  | 0 => fun _ className _ ↦ do throw (circular (← get).stack className)
  | fuel + 1 => enterStep context (enter context fuel)

/-- How many classes can be open at a time, and one more. -/
def fuelFor (context : BuildContext) : Nat :=
  let each :=
    match context.policy with
    | .reject => 1
    | .maxDepth limit => limit + 1
  context.registry.classes.length * each + 1

/-- The node of a type. -/
def node (context : BuildContext) (t : DataType) : Build Node :=
  t.toNode context (enter context (fuelFor context))

end Build

/-- The node of a type in one direction, and the metadata cache afterwards. -/
def buildNode (registry : Registry) (config : Config) (direction : Direction) (pipeline : Pipeline)
    (metadata : MetadataCache) (policy : CircularPolicy) (t : DataType) :
    Except Failure Node × MetadataCache :=
  let context : BuildContext := ⟨registry, config, direction, pipeline, policy⟩
  match Build.node context t { metadata, hooks := { direction } } with
  | .ok node state => (.ok node, state.metadata)
  | .error failure state => (.error failure, state.metadata)

end TypedJson
