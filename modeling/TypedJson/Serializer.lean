import TypedJson.Codec.Cache
import TypedJson.Codec.Compile
import TypedJson.Codec.Run
import TypedJson.Decode.Walk
import TypedJson.Model.Builder

/-!
# Serializers

A serializer writes and reads values of the types of a registry. Loaded metadata, compiled artifacts
and the shapes of classes are kept between calls. An artifact is known by the bytes that its type,
its direction, the options, the registry and the stages feed to a hash; options with hooks mean
something only while the program runs, so their artifacts stay in memory.
-/

namespace TypedJson

/-- A registry with what is kept between calls. -/
structure Serializer where
  registry : Registry
  pipeline : Pipeline := Stage.standard
  metadata : MetadataCache := []
  codecs : CodecCache (List UInt8) := {}
  shapes : GhostShapes := []

namespace Serializer

/-- A serializer that keeps artifacts in a directory. -/
def withDirectory (s : Serializer) (directory : Directory) : Serializer :=
  { s with codecs := { directory := some directory } }

/-- The serializer with other stages. -/
def withPipeline (s : Serializer) (pipeline : Pipeline) : Serializer := { s with pipeline }

/-- The type of a type string. -/
def resolve (s : Serializer) (text : String) : Except Failure DataType :=
  (s.registry.resolve text []).mapError .configuration

/-! ## Artifacts -/

/-- The bytes that identify an artifact. -/
def feed (s : Serializer) (t : DataType) (direction : Direction) (config : Config) : List UInt8 :=
  Fingerprint.text t.text ++ Fingerprint.text direction.name ++ config.feed ++
    Fingerprint.word s.registry.fingerprint ++
    s.pipeline.flatMap fun stage ↦ Fingerprint.text stage.name

/-- What an artifact is stored under. -/
def key (s : Serializer) (t : DataType) (direction : Direction) (config : Config) :
    CodecKey (List UInt8) where
  id := s.feed t direction config
  direction
  isLazy := direction = .decode && config.lazy
  isDurable := config.hooks.isEmpty

/-- The artifact of a data model. -/
def artifactOf (direction : Direction) (config : Config) (root : Node) : Artifact :=
  match direction with
  | .encode => .encoder (compile root config.jsonFlags)
  | .decode => .decoder root

/-- Builds an artifact. -/
def build (s : Serializer) (t : DataType) (direction : Direction) (config : Config)
    (metadata : MetadataCache) : Except Failure Artifact × MetadataCache :=
  match config.circularPolicy with
  | .error error => (.error (.configuration error), metadata)
  | .ok policy =>
    let (root, metadata) := buildNode s.registry config direction s.pipeline metadata policy t
    (root.map (artifactOf direction config), metadata)

/-- The artifact of a type, kept or built. -/
def artifact (s : Serializer) (t : DataType) (direction : Direction) (config : Config) :
    Except Failure Artifact × Serializer :=
  let (artifact, codecs, metadata) :=
    s.codecs.load Fingerprint.hash (s.key t direction config) (s.build t direction config)
      s.metadata
  (artifact, { s with codecs, metadata })

/-- The encoder of a type. -/
def encoder (s : Serializer) (t : DataType) (config : Config) :
    Except Failure Artifact × Serializer :=
  s.artifact t .encode config

/-- The decoder of a type. -/
def decoder (s : Serializer) (t : DataType) (config : Config) :
    Except Failure Artifact × Serializer :=
  s.artifact t .decode config

/-! ## Writing and reading -/

/-- Writes a value. The failure that is answered comes before anything is written. -/
def write (s : Serializer) (t : DataType) (config : Config) (value : Value) :
    Except Failure Written × Serializer :=
  match s.encoder t config with
  | (.ok (.encoder codec), s) => (.ok (codec.run s.registry config value), s)
  | (.ok (.decoder _), s) => (.error .storage, s)
  | (.error failure, s) => (.error failure, s)

/-- The text of a value. -/
def encode (s : Serializer) (t : DataType) (config : Config) (value : Value) :
    Except Failure String × Serializer :=
  let (written, s) := s.write t config value
  (written.bind Written.text, s)

/-- The value of a text. -/
def decode (s : Serializer) (t : DataType) (config : Config) (bytes : List UInt8) :
    Except Failure Decoded × Serializer :=
  match s.decoder t config with
  | (.ok (.decoder root), s) =>
    let (decoded, shapes) := root.decode s.registry config s.shapes bytes
    (decoded, { s with shapes })
  | (.ok (.encoder _), s) => (.error .storage, s)
  | (.error failure, s) => (.error failure, s)

/-! ## What is kept -/

/-- Builds both artifacts of a class. -/
def warm (s : Serializer) (config : Config) (className : String) :
    Except Failure Unit × Serializer :=
  match s.resolve className with
  | .error failure => (.error failure, s)
  | .ok t =>
    match s.encoder t config with
    | (.error failure, s) => (.error failure, s)
    | (.ok _, s) =>
      let (decoder, s) := s.decoder t config
      (decoder.map fun _ ↦ (), s)

/-- Builds the artifacts of classes, and answers how many there are besides `count` others. -/
def warmEach (config : Config) (count : Nat) (s : Serializer) :
    List String → Except Failure Nat × Serializer
  | [] => (.ok count, s)
  | className :: rest =>
    match s.warm config className with
    | (.error failure, s) => (.error failure, s)
    | (.ok (), s) => warmEach config (count + 1) s rest

/-- The classes whose artifacts are built in advance. Those with template parameters stand for no
single type. -/
def warmable (s : Serializer) : List String :=
  (s.registry.classes.filter fun (_, c) ↦
    c.directives.contains .warmable && c.templates.isEmpty).map (·.1)

/-- Builds the artifacts of all classes that ask for it, up to the first failure. -/
def warmUp (s : Serializer) (config : Config) : Except Failure Nat × Serializer :=
  warmEach config 0 s s.warmable

/-- Forgets everything but the files. -/
def clear (s : Serializer) : Serializer :=
  { s with metadata := [], codecs := s.codecs.clear, shapes := [] }

/-- Forgets everything. -/
def purge (s : Serializer) : Serializer := { s.clear with codecs := s.codecs.purge }

end Serializer

end TypedJson
