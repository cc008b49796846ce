import TypedJson.Codec.Document

/-!
# Stored artifacts

Artifacts are compiled once for a key and kept in memory, and in a directory as well, if there is
one. Keys that mean something only while the program runs stay in memory. A file that does not hold
what its name promises is removed and made anew.

A cache is generic in what identifies an artifact; only the names of files use its hash.
-/

namespace TypedJson

/-- Files by name. -/
abbrev Directory : Type := Entries String (List UInt8)

/-- What an artifact is stored under. -/
structure CodecKey (ι : Type) where
  id : ι
  direction : Direction
  isLazy : Bool := false
  /-- Whether the artifact may be stored in a file. -/
  isDurable : Bool := true
  deriving DecidableEq

namespace CodecKey

/-- The last part of the names of files with artifacts. -/
def extension : String := "codec"

/-- The name of the file for a key. -/
def fileName {ι : Type} (key : CodecKey ι) (hash : ι → UInt64) : String :=
  let variant := if key.isLazy then "lazy" else "eager"
  Fingerprint.hex64 (hash key.id) ++ "." ++ key.direction.name ++ ".json." ++ variant ++ "." ++
    extension

/-- The extension of a file name: what stands behind its last point, if that is not the first
character. -/
def extensionOf? (name : String) : Option String :=
  let back := name.toList.reverse
  let (suffix, stem) := (back.takeWhile (· ≠ '.'), back.dropWhile (· ≠ '.'))
  if stem.length ≤ 1 then none else some (String.ofList suffix.reverse)

end CodecKey

namespace Directory

/-- The artifact in a file, if it is one for a direction, and the directory afterwards: a file
without such an artifact is removed. -/
def artifact? (directory : Directory) (name : String) (direction : Direction) :
    Option Artifact × Directory :=
  match Entries.find? directory name with
  | none => (none, directory)
  | some bytes =>
    match Artifact.ofBytes? bytes with
    | none => (none, Entries.erase directory name)
    | some artifact =>
      if artifact.direction = direction then (some artifact, directory)
      else (none, Entries.erase directory name)

/-- The directory with an artifact in a file, unless the file is already there. -/
def store (directory : Directory) (name : String) (artifact : Artifact) : Directory :=
  if Entries.has directory name then directory
  else Entries.put directory name artifact.toBytes

/-- The directory without artifacts. -/
def purge (directory : Directory) : Directory :=
  directory.filter fun file ↦ CodecKey.extensionOf? file.1 ≠ some CodecKey.extension

end Directory

/-- Artifacts in memory and in a directory. -/
structure CodecCache (ι : Type) where
  memory : Entries (CodecKey ι) Artifact := []
  directory : Option Directory := none

namespace CodecCache

variable {ι : Type} [DecidableEq ι]

/-- The cache with an artifact in memory. -/
def keep (cache : CodecCache ι) (key : CodecKey ι) (artifact : Artifact) : CodecCache ι :=
  { cache with memory := Entries.put cache.memory key artifact }

/-- The artifact that the directory holds for a key. -/
def fetch (cache : CodecCache ι) (hash : ι → UInt64) (key : CodecKey ι) :
    Option Artifact × CodecCache ι :=
  match key.isDurable, cache.directory with
  | true, some directory =>
    let (artifact, directory) := directory.artifact? (key.fileName hash) key.direction
    (artifact, { cache with directory := some directory })
  | _, _ => (none, cache)

/-- The cache with an artifact in the directory. -/
def store (cache : CodecCache ι) (hash : ι → UInt64) (key : CodecKey ι) (artifact : Artifact) :
    CodecCache ι :=
  match key.isDurable, cache.directory with
  | true, some directory =>
    { cache with directory := some (directory.store (key.fileName hash) artifact) }
  | _, _ => cache

/-- The artifact for a key, from memory, from the directory, or built. Building may change a state
of its own; nothing is kept of a failure. -/
def load {σ : Type} (cache : CodecCache ι) (hash : ι → UInt64) (key : CodecKey ι)
    (build : σ → Except Failure Artifact × σ) (s : σ) :
    Except Failure Artifact × CodecCache ι × σ :=
  match Entries.find? cache.memory key with
  | some artifact => (.ok artifact, cache, s)
  | none =>
    match cache.fetch hash key with
    | (some artifact, cache) => (.ok artifact, cache.keep key artifact, s)
    | (none, cache) =>
      match build s with
      | (.error failure, s) => (.error failure, cache, s)
      | (.ok artifact, s) => (.ok artifact, (cache.store hash key artifact).keep key artifact, s)

/-- The cache without what is in memory. -/
def clear (cache : CodecCache ι) : CodecCache ι := { cache with memory := [] }

/-- The cache without any artifact, in the directory too. -/
def purge (cache : CodecCache ι) : CodecCache ι :=
  { memory := [], directory := cache.directory.map Directory.purge }

end CodecCache

end TypedJson
