import TypedJson.Metadata.Stage

/-!
# Loaded metadata

Properties are loaded once for each class, direction, options and context. What identifies them is
the byte stream that they feed to a hash; the registry and the pipeline are not part of it, so a
cache serves one registry and one pipeline.
-/

namespace TypedJson

/-- The bytes that identify the properties that a request asks for. -/
def MetadataRequest.feed (request : MetadataRequest) : List UInt8 :=
  Fingerprint.text request.className ++ Fingerprint.text request.direction.name ++
    request.config.feed ++ request.context.feed

/-- Loaded properties by the bytes that identify them. -/
abbrev MetadataCache : Type := Entries (List UInt8) PropertyMap

namespace MetadataCache

/-- The properties of a request, from the cache or loaded, and the cache afterwards. Nothing is
kept of a failure. -/
def load (cache : MetadataCache) (pipeline : Pipeline) (request : MetadataRequest) :
    Except ConfigError PropertyMap × MetadataCache :=
  match Entries.find? cache request.feed with
  | some properties => (.ok properties, cache)
  | none =>
    match pipeline.load request with
    | .ok properties => (.ok properties, Entries.put cache request.feed properties)
    | .error error => (.error error, cache)

end MetadataCache

end TypedJson
