import TypedJson.Model.Node

/-!
# Instructions

An encoder is a list of instructions. Instructions name what they read by accessors: a local slot,
or a field of what another accessor names. Slot zero is the value being written; loops and formatter
calls fill further slots. Formatters and discriminators are named, so that encoders can be stored.
-/

namespace TypedJson

/-- Where an instruction reads a value. -/
inductive Accessor where
  /-- A slot. -/
  | slot (n : Nat)
  /-- A field of an object. -/
  | property (base : Accessor) (name : String)
  deriving DecidableEq

namespace Accessor

/-- The value being written. -/
def root : Accessor := slot 0

/-- An accessor as errors name it. -/
def text : Accessor → String
  | slot 0 => "$"
  | slot (n + 1) => "$" ++ toString (n + 1)
  | property base name => base.text ++ "." ++ name

end Accessor

/-- How a value is written. -/
inductive WriteKind where
  | scalar (kind : ScalarKind)
  /-- A case of an enumeration, or its value. -/
  | enum (backing : ScalarKind)
  /-- Anything, by what it is. -/
  | mixed
  deriving DecidableEq

/-- What a loop runs over. -/
inductive LoopKind where
  /-- Items, in one slot. -/
  | list
  /-- Entries, the key and the value in a slot each. -/
  | dict
  deriving DecidableEq

/-- How a branch finds its case. -/
inductive Selector where
  /-- The cases are `null` and `value`. -/
  | null
  /-- The cases are the members that a discriminator answers. -/
  | discriminator (name : String)
  /-- The cases are the shapes of values. -/
  | kind
  deriving DecidableEq

/-- A case of a branch, over the instructions `ι`. -/
structure BranchCase (ι : Type) where
  key : String
  body : List ι

/-- An instruction. -/
inductive Instruction where
  | writeLiteral (text : String)
  | writeValue (accessor : Accessor) (kind : WriteKind)
  /-- Writes a key of a dictionary, as a string in any case. -/
  | writeKey (accessor : Accessor)
  /-- Puts what a formatter makes of its argument into a slot. -/
  | call (formatter : FormatterRef) (argument : Accessor) (bind : Nat) (body : List Instruction)
  | loop (iterable : Accessor) (kind : LoopKind) (slots : List Nat) (separator : String)
      (body : List Instruction)
  | branch (accessor : Accessor) (selector : Selector) (cases : List (BranchCase Instruction))
  | block (body : List Instruction)

/-- An encoder. -/
structure Codec where
  instructions : List Instruction
  /-- The number of slots, the value being written included. -/
  slots : Nat

/-- What is stored for a type, a direction and options. -/
inductive Artifact where
  | encoder (codec : Codec)
  /-- A decoder walks the data model. -/
  | decoder (root : Node)

/-- The direction that an artifact is for. -/
def Artifact.direction : Artifact → Direction
  | encoder _ => .encode
  | decoder _ => .decode

end TypedJson
