import TypedJson.CommandLine.Arguments
import TypedJson.CommandLine.Help
import TypedJson.Config.Document
import TypedJson.Files.Search
import TypedJson.Serializer
import TypedJson.Split.Container
import TypedJson.Text.Inspect

/-!
# Running command lines

`CommandLine.run` answers a command line over any access to files. What has been printed stays
printed when a command fails; the failure ends the program with the exit code 1, and a command line
that cannot be read with the exit code 2.
-/

namespace TypedJson.CommandLine

/-- What a program leaves behind. -/
structure Outcome where
  code : Nat := 0
  out : String := ""
  err : String := ""

/-- Why a command fails. -/
structure Problem where
  message : String
  cause : Option String := none

/-- The problem as text. -/
def Problem.text (p : Problem) : String :=
  "Error: " ++ p.message ++ "\n" ++
    match p.cause with
    | some cause => "\nCaused by:\n    " ++ cause ++ "\n"
    | none => ""

variable {m : Type → Type} [Monad m]

/-- A running command. -/
abbrev Job (m : Type → Type) : Type → Type := ExceptT Problem (StateT Outcome m)

namespace Job

/-- Prints a line. -/
def say (line : String) : Job m Unit :=
  modify fun o ↦ { o with out := o.out ++ line ++ "\n" }

/-- Prints a line beside the output. -/
def warn (line : String) : Job m Unit :=
  modify fun o ↦ { o with err := o.err ++ line ++ "\n" }

/-- Something done with files. -/
def files {α : Type} (step : m α) : Job m α := ExceptT.lift (StateT.lift step)

/-- A value, or the failure to find one. -/
def found {α : Type} : Except Failure α → Job m α
  | .ok a => return a
  | .error failure => throw { message := failure.message }

/-- A value, or a problem that the failure to find one causes. -/
def foundFor {α : Type} (message : String) : Except Failure α → Job m α
  | .ok a => return a
  | .error failure => throw { message, cause := some failure.message }

end Job

open Job

variable (access : FileAccess m)

/-! ## Files -/

/-- What is read from a file. A directory can be opened but not read. -/
inductive Source where
  | bytes (bytes : List UInt8)
  | directory

/-- The failure to read a directory. -/
def Source.unreadable : String := "Is a directory (os error 21)"

/-- Opens a file. -/
def openFile (path : String) : Job m Source := do
  match ← files (access.read? path) with
  | some bytes => return .bytes bytes
  | none =>
    if ← files (access.isDirectory path) then return .directory
    else throw { message := "failed to open " ++ path }

/-- The text of a file. -/
def readText (what path : String) : Job m String := do
  match (← files (access.read? path)).bind Utf8.decode? with
  | some text => return text
  | none => throw { message := "failed to read " ++ what ++ " " ++ path }

/-- The paths of inputs, which may be patterns. -/
def inputPaths (inputs : List String) : Job m (List String) := do
  let found ← inputs.mapM fun (input : String) ↦
    if Wildcard.looksLikeOne input then do
      match Search.paths access input with
      | .error e => throw { message := e.message }
      | .ok search =>
        let paths ← files search
        if paths.isEmpty then
          throw { message := "glob pattern matched no files: " ++ input }
        return paths
    else return [input]
  return found.flatten

/-- The files with artifacts in a directory. -/
def artifactFiles (directory : String) : m Directory := do
  let names := (← access.names directory).filter fun name ↦
    CodecKey.extensionOf? name = some CodecKey.extension
  return (← names.mapM fun name ↦ do
    let bytes ← access.read? (FileAccess.join directory name)
    return bytes.toList.map fun bytes ↦ (name, bytes)).flatten

/-- Brings the files of a directory from one state to another. -/
def updateFiles (path : String) (before after : Directory) : m Unit := do
  for (name, _) in before do
    if !Entries.has after name then access.remove (FileAccess.join path name)
  for (name, bytes) in after do
    if Entries.find? before name ≠ some bytes then
      let _ ← access.write (FileAccess.join path name) bytes

/-! ## Serializers -/

/-- A serializer, with the directory in which its artifacts are kept. -/
structure Session where
  serializer : Serializer
  config : Config
  path : Option String

/-- The serializer and the options of a schema. -/
def start (schema : Schema) (cacheDirectory : Option String) : Job m Session := do
  let source ← readText access "registry" schema.registry
  let registry ← foundFor ("invalid registry " ++ schema.registry)
    ((Registry.ofText source).mapError .configuration)
  let config ←
    match schema.config with
    | none => pure {}
    | some path =>
      let source ← readText access "config" path
      foundFor ("invalid config " ++ path) ((Config.ofText source).mapError .configuration)
  let serializer : Serializer := { registry }
  match cacheDirectory with
  | none => return ⟨serializer, config, none⟩
  | some path =>
    let directory ← files (artifactFiles access path)
    return ⟨serializer.withDirectory directory, config, some path⟩

/-- Uses a serializer, and keeps the artifacts that it leaves. -/
def Session.use {α : Type} (s : Session) (step : Serializer → α × Serializer) :
    Job m (α × Session) := do
  let (a, serializer) := step s.serializer
  if let some path := s.path then
    let directory (s : Serializer) := s.codecs.directory.getD []
    files (updateFiles access path (directory s.serializer) (directory serializer))
  return (a, { s with serializer })

/-! ## Commands -/

/-- Prints where a member is. -/
def sayMember {κ : Type} (label : String) (member : Except Failure (Member κ)) : Job m Unit :=
  match member with
  | .ok found =>
    say ("  " ++ label ++ " offset=" ++ toString found.value.offset ++ " length=" ++
      toString found.value.bytes.length)
  | .error failure => say ("  " ++ label ++ " " ++ failure.message)

/-- Prints the members of a container. -/
def splitFile (container : ContainerKind) (path : String) : Job m Unit := do
  let source ← openFile access path
  say path
  match source, container with
  | .directory, _ => throw { message := Failure.storage.message ++ ": " ++ Source.unreadable }
  | .bytes bytes, .list =>
    let members ← found (Container.list.split (.whole bytes))
    for (member, i) in members.zipIdx do
      sayMember ("[" ++ toString i ++ "]") member
  | .bytes bytes, .dict =>
    let members ← found (Container.dict.split (.whole bytes))
    for member in members do
      let label :=
        match member with
        | .ok found => Text.inspect found.key
        | .error _ => "?"
      sayMember label member

/-- Reads the values of files and prints them, written again. -/
def decodeFiles (config : Config) (t : DataType) : Session → List String → Job m Unit
  | _, [] => return ()
  | s, path :: paths => do
    let source ← openFile access path
    let failed := "failed to decode " ++ path
    let (decoded, s) ←
      match source with
      | .bytes bytes => s.use access (·.decode t config bytes)
      | .directory => do
        let _ ← s.use access (·.decoder t config)
        throw { message := failed, cause := some Source.unreadable }
    let decoded ← foundFor failed decoded
    for failure in decoded.errors do
      warn ("error " ++ path ++ ": " ++ failure.message)
    let (text, s) ← s.use access (·.encode t config decoded.value)
    say (← found text)
    decodeFiles config t s paths

/-- Runs a command. -/
def perform (invocation : Invocation) : Job m Unit := do
  match invocation.command with
  | .split inputs container =>
    for path in ← inputPaths access inputs do
      splitFile access container path
  | .decode inputs schema isLazy collectErrors =>
    let s ← start access schema invocation.cacheDirectory
    let t ← found (s.serializer.resolve schema.type)
    let config := { s.config with lazy := isLazy, collectErrors }
    decodeFiles access config t s (← inputPaths access inputs)
  | .codec schema direction target =>
    let s ← start access schema invocation.cacheDirectory
    let t ← found (s.serializer.resolve schema.type)
    let (artifact, _) ← s.use access (·.artifact t direction s.config)
    let text := (← found artifact).toJson.pretty
    match target with
    | none => say text
    | some path =>
      match ← files (access.write path (Utf8.encode text)) with
      | some reason => throw { message := reason }
      | none => warn ("wrote " ++ path)

/-- Runs a command line. -/
def run (arguments : List String) : m Outcome := do
  match read arguments with
  | .error (.help topic) => return { out := topic.text }
  | .error (.usage e) => return { code := 2, err := "error: " ++ e.message ++ "\n" }
  | .ok invocation =>
    let (result, outcome) ← ((perform access invocation).run).run {}
    match result with
    | .ok () => return outcome
    | .error problem => return { outcome with code := 1, err := outcome.err ++ problem.text }

end TypedJson.CommandLine
