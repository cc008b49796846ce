import TypedJson.Codec.Run

/-!
# Writing without an encoder

`Node.writeDirect` writes a value by walking the data model and the value together. It has no
instructions and no slots: what is to be written is handed down as a `Source`, and a list, a
dictionary, a formatter or a case hands its own value on.

## Sources

Some nodes never look at what they write: `null` is written unread, and an object looks at itself
only to read a field that somebody looks at. So a source is not yet a value. It holds what reading
comes to, which may be a failure, and reading is logged where a node or a formatter looks. Whoever
has looked hands a plain value on, so that no source is looked at twice on the way down.
-/

namespace TypedJson

/-- Something to write, which may have to be read first. -/
structure Source where
  /-- What reading it comes to. -/
  outcome : Except Failure Value
  /-- What is read for it, the last access first. -/
  accesses : List Access

namespace Source

/-- A value that is known already. -/
def ofValue (value : Value) : Source := ⟨.ok value, []⟩

/-- A field of an object; one that the object does not have is `null`. -/
def field (object : Source) (name : String) : Source :=
  match object.outcome with
  | .ok (.object o) =>
    ⟨(o.get name).result.map fun value ↦ value.getD .null,
      ⟨o.identity, .field name⟩ :: object.accesses⟩
  | .ok other => ⟨.error (.unexpectedValue "object" other.kindName), object.accesses⟩
  | .error failure => ⟨.error failure, object.accesses⟩

/-- What a property is written from. -/
def property (object : Source) : PropertyAccessor → Source
  | .field name => object.field name
  | .computed => object

end Source

namespace Run

/-- The value of a source, read. -/
def look (source : Source) : Run Value := do
  modify fun state ↦ { state with log := source.accesses ++ state.log }
  found source.outcome

/-- What a formatter makes of a value. -/
def formatted (context : RunContext) (value : Value) (ref : FormatterRef) : Run Value := do
  found (← traced (ref.apply context.registry.formatters context.config value))

/-- Writes a source by `direct`, with formatters in between, the first one first. The formatters of
a field do not see `null` if `null` may be written. -/
def writeFormatted (context : RunContext) (accessor : PropertyAccessor) (acceptsNull : Bool)
    (formatters : List FormatterRef) (direct : Source → Run Unit) (source : Source) : Run Unit :=
  match formatters, accessor with
  | [], _ => direct source
  | formatters, .field _ => do
    let value ← look source
    if acceptsNull && value.isNull then write "null"
    else
      let made ← formatters.foldlM (formatted context) value
      direct (.ofValue made)
  | formatters, .computed => do
    let value ← look source
    let made ← formatters.foldlM (formatted context) value
    direct (.ofValue made)

/-- The failure of a value that is none of the members of a union. -/
def noMember (expected : List String) (found : String) : Run Unit :=
  throw (.unexpectedValue ("|".intercalate expected) found)

/-- The member that a discriminator answers for a value. -/
def discriminated (context : RunContext) (name : String) (value : Value) : Run String :=
  match context.registry.discriminators.byName? name with
  | none => throw (.configuration (.unknownDiscriminator name))
  | some d => do
    match ← traced (d.select value) with
    | some key => return key
    | none => throw (.unexpectedValue s!"a member chosen by `{name}`" value.kindName)

end Run

open Run

mutual

/-- Writes a source as a value of a node. -/
def Node.writeDirect (context : RunContext) : Node → Source → Run Unit
  | .scalar kind => fun source ↦ do writeScalar context.config.jsonFlags kind (← look source)
  | .null => fun _ ↦ write "null"
  | .mixed => fun source ↦ do writeValue context.config .mixed (← look source)
  | .nullable inner => fun source ↦ do
    let value ← look source
    if value.isNull then write "null" else inner.writeDirect context (.ofValue value)
  | .list item => fun source ↦ do
    write "["
    match ← look source with
    | .list items => forItems "," (fun value ↦ item.writeDirect context (.ofValue value)) true items
    | other => throw (.unexpectedValue "list" other.kindName)
    write "]"
  | .dict _ item => fun source ↦ do
    write "\x7b"
    match ← look source with
    | .dict entries =>
      forEntries "," (fun key value ↦ do
        write (Json.quote context.config.jsonFlags key.text)
        write ":"
        item.writeDirect context (.ofValue value)) true entries
    | other => throw (.unexpectedValue "dict" other.kindName)
    write "\x7d"
  | .object _ properties => fun source ↦ do
    write "\x7b"
    writeProperties context true properties source
    write "\x7d"
  | .union candidates discriminator => fun source ↦ do
    let value ← look source
    match discriminator with
    | some name =>
      let key ← discriminated context name value
      writeFirst context (fun k _ ↦ decide (k = key)) candidates value
        (noMember (candidates.map (·.key)) key)
    | none =>
      let shape := shapeOf value
      writeFirst context (fun _ s ↦ decide (s = some shape)) candidates value
        (match value with
          | .int _ =>
            writeFirst context (fun _ s ↦ decide (s = some "float")) candidates value
              (noMember (candidates.map (·.shape.getD "")) shape)
          | _ => noMember (candidates.map (·.shape.getD "")) shape)
  | .enum _ backing => fun source ↦ do
    writeValue context.config (.enum backing) (← look source)
  | .dateTime pattern => fun source ↦ do
    let text ← formatted context (← look source) (.dateTimeFormat pattern)
    writeScalar context.config.jsonFlags .string text
termination_by structural node => node

/-- Writes the properties of an object, with commas between them. -/
def writeProperties (context : RunContext) (isFirst : Bool) :
    List (PropertyNode Node) → Source → Run Unit
  | [] => fun _ ↦ return ()
  | ⟨_, encodedName, accessor, formatters, node⟩ :: properties => fun object ↦ do
    if !isFirst then write ","
    write (Json.quote context.config.jsonFlags encodedName ++ ":")
    writeFormatted context accessor node.acceptsNull formatters (node.writeDirect context)
      (object.property accessor)
    writeProperties context false properties object
termination_by structural properties => properties

/-- Writes a value by the first candidate whose key and shape are right, if there is one. -/
def writeFirst (context : RunContext) (isRight : String → Option String → Bool) :
    List (Candidate Node) → Value → Run Unit → Run Unit
  | [] => fun _ otherwise ↦ otherwise
  | ⟨key, shape, node⟩ :: candidates => fun value otherwise ↦
    if isRight key shape then node.writeDirect context (.ofValue value)
    else writeFirst context isRight candidates value otherwise
termination_by structural candidates => candidates

end

/-- Writes a value. -/
def Node.run (root : Node) (registry : Registry) (config : Config) (value : Value) : Written :=
  match root.writeDirect ⟨registry, config⟩ (.ofValue value) ⟨"", [], []⟩ with
  | .ok () state => ⟨state.out, none, state.log⟩
  | .error failure state => ⟨state.out, some failure, state.log⟩

end TypedJson
