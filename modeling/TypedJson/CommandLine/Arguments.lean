import TypedJson.Entries
import TypedJson.Property

/-!
# Command lines

A command line is the name of a command with options before and behind it. Arguments are read one
by one. An option that takes values is *open* until it has them, and its values are checked when the
next option begins; a request for help counts only if nothing was wrong up to it.
-/

namespace TypedJson.CommandLine

/-! ## Commands -/

/-- The containers that can be split. -/
inductive ContainerKind where
  | list
  | dict
  deriving DecidableEq

/-- Where types and options come from. -/
structure Schema where
  /-- A file with a registry. -/
  registry : String
  /-- A type string. -/
  type : String
  /-- A file with options. -/
  config : Option String

/-- What is asked for. -/
inductive Command where
  /-- Where the members of the containers in files are. -/
  | split (inputs : List String) (container : ContainerKind)
  /-- The values in files, written again. -/
  | decode (inputs : List String) (schema : Schema) (isLazy collectErrors : Bool)
  /-- An artifact, in a file if there is a path for it. -/
  | codec (schema : Schema) (direction : Direction) (target : Option String)

/-- A complete command line. -/
structure Invocation where
  command : Command
  /-- The directory in which artifacts are kept. -/
  cacheDirectory : Option String

/-- What help can be about. -/
inductive Topic where
  | program
  | split
  | decode
  | codec
  | help
  deriving DecidableEq

/-- What is wrong with a command line. -/
inductive UsageError where
  | missingCommand
  | unexpectedArgument (argument : String)
  | missingOption (name : String)
  | missingValue (option : String)
  | invalidValue (option value : String)
  | unexpectedValue (option value : String)
  | repeatedOption (option : String)

/-- The error as text. -/
def UsageError.message : UsageError → String
  | missingCommand => "a command is required"
  | unexpectedArgument argument => "unexpected argument '" ++ argument ++ "'"
  | missingOption name => "the option '--" ++ name ++ "' is required"
  | missingValue option => "a value is required for '--" ++ option ++ "'"
  | invalidValue option value => "invalid value '" ++ value ++ "' for '--" ++ option ++ "'"
  | unexpectedValue option value => "unexpected value '" ++ value ++ "' for '--" ++ option ++ "'"
  | repeatedOption option => "the option '--" ++ option ++ "' cannot be used multiple times"

/-- Why reading ends early. -/
inductive Stop where
  | help (topic : Topic)
  | usage (error : UsageError)

/-! ## Options -/

/-- How many values an option takes. -/
inductive Arity where
  | flag
  | one
  | many
  deriving DecidableEq

/-- An option. -/
structure OptionSpec where
  name : String
  short : Option Char := none
  arity : Arity := .one
  /-- Whether a value can be given. -/
  accepts : String → Bool := fun _ ↦ true
  /-- Whether there is no command without the option. -/
  isRequired : Bool := false

/-- Whether a value can be a path. -/
def isPath (value : String) : Bool := !value.isEmpty

/-- The option for inputs. -/
def inputOption : OptionSpec :=
  { name := "input", short := some 'i', arity := .many, isRequired := true }

/-- The options for a schema. -/
def schemaOptions : List OptionSpec :=
  [{ name := "registry", accepts := isPath, isRequired := true },
    { name := "type", isRequired := true },
    { name := "config", accepts := isPath }]

/-- The option that every command has. -/
def globalOption : OptionSpec := { name := "cache-dir", accepts := isPath }

/-! ## Reading arguments -/

/-- Where the reading of arguments stands. -/
structure Reading where
  /-- The values of the options read so far. -/
  given : Entries String (List String) := []
  /-- The option that was read last, with its values, if they are not checked yet. -/
  last : Option (OptionSpec × List String) := none
  /-- Whether options have been ended by two dashes. -/
  isEnded : Bool := false

namespace Reading

/-- Whether the last option takes another value. -/
def isOpen (r : Reading) : Bool :=
  match r.last with
  | some (option, values) => option.arity = .many || values.isEmpty
  | none => false

/-- Takes an option with all its values. -/
def take (r : Reading) (option : OptionSpec) (values : List String) : Except Stop Reading :=
  let earlier := (Entries.find? r.given option.name).getD []
  if option.arity ≠ .flag && values.isEmpty then .error (.usage (.missingValue option.name))
  else if option.arity ≠ .many && Entries.has r.given option.name then
    .error (.usage (.repeatedOption option.name))
  else
    match values.find? fun value ↦ !option.accepts value with
    | some value => .error (.usage (.invalidValue option.name value))
    | none => .ok { r with given := Entries.put r.given option.name (earlier ++ values) }

/-- Checks the last option. -/
def settle (r : Reading) : Except Stop Reading :=
  match r.last with
  | none => .ok r
  | some (option, values) => { r with last := none }.take option values

/-- Begins an option, with a value if one is attached. -/
def begin (r : Reading) (option : OptionSpec) (attached : Option String) : Except Stop Reading := do
  match option.arity, attached with
  | .flag, some value => .error (.usage (.unexpectedValue option.name value))
  | .flag, none => (← r.settle).take option []
  | _, some value => (← r.settle).take option [value]
  | _, none => return { ← r.settle with last := some (option, []) }

/-- Answers a request for help. -/
def help (r : Reading) (topic : Topic) : Except Stop Reading := do
  let _ ← r.settle
  .error (.help topic)

/-- Reads an argument that starts with two dashes. -/
def long (r : Reading) (options : List OptionSpec) (topic : Topic) (argument : String)
    (text : List Char) : Except Stop Reading :=
  let name := String.ofList (text.takeWhile (· ≠ '='))
  let attached :=
    match text.dropWhile (· ≠ '=') with
    | [] => none
    | _ :: value => some (String.ofList value)
  match options.find? (·.name = name), attached with
  | some option, attached => r.begin option attached
  | none, none =>
    if name = "help" then r.help topic else .error (.usage (.unexpectedArgument argument))
  | none, some value =>
    .error (.usage
      (if name = "help" then .unexpectedValue name value else .unexpectedArgument argument))

/-- Reads an argument that starts with one dash. -/
def short (r : Reading) (options : List OptionSpec) (topic : Topic) (argument : String) (c : Char)
    (text : List Char) : Except Stop Reading :=
  match options.find? (·.short = some c) with
  | some option =>
    r.begin option
      (match text with
        | [] => none
        | '=' :: value => some (String.ofList value)
        | value => some (String.ofList value))
  | none => if c = 'h' then r.help topic else .error (.usage (.unexpectedArgument argument))

/-- Reads an argument that is no command. -/
def step (r : Reading) (options : List OptionSpec) (topic : Topic) (argument : String) :
    Except Stop Reading :=
  let unexpected : Except Stop Reading := .error (.usage (.unexpectedArgument argument))
  if r.isEnded then unexpected
  else
    match argument.toList with
    | ['-', '-'] => .ok { r with isEnded := true }
    | '-' :: '-' :: text => r.long options topic argument text
    | '-' :: c :: text => r.short options topic argument c text
    | _ =>
      match r.last with
      | some (option, values) =>
        if r.isOpen then .ok { r with last := some (option, values ++ [argument]) } else unexpected
      | none => unexpected

/-- The values of an option. -/
def values (r : Reading) (name : String) : List String := (Entries.find? r.given name).getD []

/-- The value of an option. -/
def value? (r : Reading) (name : String) : Option String := (r.values name).head?

/-- Whether a flag is set. -/
def flag (r : Reading) (name : String) : Bool := Entries.has r.given name

/-- The schema that is given. -/
def schema (r : Reading) : Schema where
  registry := (r.value? "registry").getD ""
  type := (r.value? "type").getD ""
  config := r.value? "config"

end Reading

/-! ## The grammar -/

/-- A command with its options. -/
structure CommandSpec where
  name : String
  topic : Topic
  options : List OptionSpec
  /-- The command with the values of its options. -/
  make : Reading → Command

/-- The commands. -/
def commands : List CommandSpec :=
  [{ name := "split"
     topic := .split
     options := [inputOption, { name := "container", accepts := ["list", "dict"].contains }]
     make := fun r ↦
      .split (r.values "input") (if r.value? "container" = some "dict" then .dict else .list) },
    { name := "decode"
      topic := .decode
      options := inputOption :: schemaOptions ++
        [{ name := "lazy", arity := .flag }, { name := "collect-errors", arity := .flag }]
      make := fun r ↦
        .decode (r.values "input") r.schema (r.flag "lazy") (r.flag "collect-errors") },
    { name := "codec"
      topic := .codec
      options := schemaOptions ++
        [{ name := "direction", accepts := ["encode", "decode"].contains },
          { name := "out", short := some 'o', accepts := isPath }]
      make := fun r ↦
        .codec r.schema (if r.value? "direction" = some "decode" then .decode else .encode)
          (r.value? "out") }]

/-- The command of a name. -/
def findCommand? (name : String) : Option CommandSpec := commands.find? (·.name = name)

/-- Reads the arguments behind the name of a command. -/
def CommandSpec.read (command : CommandSpec) (arguments : List String) : Except Stop Reading := do
  let options := globalOption :: command.options
  let r ← arguments.foldlM (fun r argument ↦ Reading.step r options command.topic argument) {}
  let r ← r.settle
  match options.find? fun option ↦ option.isRequired && !r.flag option.name with
  | some option => .error (.usage (.missingOption option.name))
  | none => return r

/-- What is asked for behind the word `help`. -/
def readTopic : List String → Stop
  | [] => .help .program
  | ["help"] => .help .help
  | [name] =>
    match findCommand? name with
    | some command => .help command.topic
    | none => .usage (.unexpectedArgument name)
  | _ :: name :: _ => .usage (.unexpectedArgument name)

/-- Reads a command line, given what was read of it before. -/
def readFrom (r : Reading) : List String → Except Stop Invocation
  | [] => do
    let _ ← r.settle
    .error (.usage .missingCommand)
  | argument :: arguments =>
    let names := !r.isEnded && !r.isOpen
    if names && argument = "help" then .error (readTopic arguments)
    else
      match if names then findCommand? argument else none with
      | some command => do
        let inner ← command.read arguments
        let outer ← r.settle
        let directory (r : Reading) := r.value? globalOption.name
        return ⟨command.make inner, directory inner <|> directory outer⟩
      | none => do readFrom (← r.step [globalOption] .program argument) arguments

/-- Reads a command line. -/
def read (arguments : List String) : Except Stop Invocation := readFrom {} arguments

end TypedJson.CommandLine
