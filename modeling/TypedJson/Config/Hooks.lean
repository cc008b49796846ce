import TypedJson.Error
import TypedJson.Property

/-!
# Hooks

Hooks adjust the data model while it is built. An object hook sees the properties of a class and
may replace them; a property hook may rename a property, drop it or give it a formatter. A hook that
answers nothing leaves things as they are. All hooks of one build share a `HookContext`.

A hook is known by a number: two hooks with one number are one hook.
-/

namespace TypedJson

/-- What hooks share during a build. -/
structure HookContext where
  direction : Direction
  /-- The classes being built, the outermost first. -/
  stack : List String := []
  /-- Whatever hooks leave for each other. -/
  data : Entries String Json := []

/-- What a hook does. Its notes in the context stay, also if it fails. -/
abbrev HookAction : Type → Type := EStateM ConfigError HookContext

/-- What a property hook asks for. -/
structure PropertyOverride where
  /-- Another name in the text. -/
  name : Option String := none
  /-- A formatter: it makes the written property from the object, or takes what was read. -/
  formatter : Option String := none
  /-- Whether the property is left out. -/
  drop : Bool := false

/-- A hook for the properties of a class. -/
structure ObjectHook where
  id : Nat
  run : DataType → PropertyMap → HookAction (Option PropertyMap)

/-- A hook for one property of a class. -/
structure PropertyHook where
  id : Nat
  run : (className key : String) → Property → HookAction (Option PropertyOverride)

/-- Hooks under the names of classes and properties. -/
structure Hooks where
  object : Entries String ObjectHook := []
  property : Entries String PropertyHook := []

namespace Hooks

/-- The key of a hook for all classes. -/
def anyObject : String := "object"

/-- The key of a hook for all properties. -/
def anyProperty : String := "property"

/-- The hook for a class: its own, or the one for all classes. -/
def objectHook? (hooks : Hooks) (className : String) : Option ObjectHook :=
  Entries.find? hooks.object className <|> Entries.find? hooks.object anyObject

/-- The hook for a property of a class: its own, or the one for all properties. -/
def propertyHook? (hooks : Hooks) (className property : String) : Option PropertyHook :=
  Entries.find? hooks.property (className ++ "::" ++ property) <|>
    Entries.find? hooks.property anyProperty

/-- Whether there are no hooks. -/
def isEmpty (hooks : Hooks) : Bool := hooks.object.isEmpty && hooks.property.isEmpty

/-- The keys with the numbers of their hooks, sorted. -/
def identities (hooks : Hooks) : List (String × Nat) :=
  let objects := hooks.object.map fun (key, hook) ↦ ("object:" ++ key, hook.id)
  let properties := hooks.property.map fun (key, hook) ↦ ("property:" ++ key, hook.id)
  (objects ++ properties).mergeSort fun a b ↦ !decide (b.1 < a.1)

/-- The keys, sorted. -/
def keys (hooks : Hooks) : List String := hooks.identities.map (·.1)

end Hooks

end TypedJson
