import TypedJson.Config.Basic
import TypedJson.Json.Document

/-!
# Options as documents

Options can be given as a JSON document. Every name may be left out, and no other names may stand
there. Hooks are code, so they have no place in a document.
-/

namespace TypedJson.Config

open Json (Reader)

/-- The options of a document, as far as their form goes. -/
def reader : Reader Config :=
  Reader.record
    { fields := [
        ("groups", (Reader.list Reader.string).set fun v c ↦ { c with groups := v }),
        ("maxDepth",
          (Reader.option (Reader.natural (UInt64.size - 1))).set
            fun v c ↦ { c with maxDepth := v }),
        ("rejectCircularReference",
          Reader.bool.set fun v c ↦ { c with rejectCircularReference := v }),
        ("dateTimeFormat",
          (Reader.option Reader.string).set fun v c ↦ { c with dateTimeFormat := v }),
        ("lazy", Reader.bool.set fun v c ↦ { c with lazy := v }),
        ("collectErrors", Reader.bool.set fun v c ↦ { c with collectErrors := v }),
        ("formatJsonFlags",
          (Reader.natural (UInt32.size - 1)).set
            fun v c ↦ { c with jsonFlags := ⟨UInt32.ofNat v⟩ }),
        ("maxDepthFormatter",
          (Reader.option Reader.string).set fun v c ↦ { c with maxDepthFormatter := v })]
      required := []
      strict := true }
    {}

/-- The options of a document at the start of a text. -/
def ofText (text : String) : Except ConfigError Config := do
  let config ←
    match reader.run text with
    | .ok config => .ok config
    | .error path => .error (.unreadable path.text)
  let _ ← config.circularPolicy
  match config.dateTimeFormat with
  | some pattern => checkDateTimeFormat pattern
  | none => pure ()
  return config

/-- The document of options. -/
def toJson (config : Config) : Json :=
  .dict [
    ("groups", .strings config.groups),
    ("maxDepth", .ofOption .nat config.maxDepth),
    ("rejectCircularReference", .bool config.rejectCircularReference),
    ("dateTimeFormat", .ofOption .string config.dateTimeFormat),
    ("lazy", .bool config.lazy),
    ("collectErrors", .bool config.collectErrors),
    ("formatJsonFlags", .nat config.jsonFlags.bits.toNat),
    ("maxDepthFormatter", .ofOption .string config.maxDepthFormatter)]

end TypedJson.Config
