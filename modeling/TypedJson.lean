import TypedJson.Codec.Cache
import TypedJson.Codec.Compile
import TypedJson.Codec.Document
import TypedJson.Codec.Instruction
import TypedJson.Codec.Optimize
import TypedJson.Codec.Run
import TypedJson.CommandLine.Arguments
import TypedJson.CommandLine.Help
import TypedJson.CommandLine.Run
import TypedJson.Config.Basic
import TypedJson.Config.Document
import TypedJson.Config.Hooks
import TypedJson.DataType.Basic
import TypedJson.DataType.Document
import TypedJson.DataType.Feed
import TypedJson.DataType.Generics
import TypedJson.DataType.Resolve
import TypedJson.DateTime.Calendar
import TypedJson.DateTime.Clues
import TypedJson.DateTime.Format
import TypedJson.DateTime.Parser
import TypedJson.DateTime.Pattern
import TypedJson.Decimal.Integer
import TypedJson.Decimal.Literal
import TypedJson.Decimal.Shortest
import TypedJson.Decode.Leaf
import TypedJson.Decode.Object
import TypedJson.Decode.State
import TypedJson.Decode.Walk
import TypedJson.Entries
import TypedJson.Error
import TypedJson.Files.Access
import TypedJson.Files.Search
import TypedJson.Files.Tree
import TypedJson.Files.Wildcard
import TypedJson.Fingerprint
import TypedJson.Formatter
import TypedJson.Json.Basic
import TypedJson.Json.Document
import TypedJson.Json.Printer
import TypedJson.Json.Quoted
import TypedJson.Json.Scalar
import TypedJson.Json.Tree
import TypedJson.Main
import TypedJson.Metadata.Cache
import TypedJson.Metadata.Stage
import TypedJson.Model.Builder
import TypedJson.Model.Document
import TypedJson.Model.Node
import TypedJson.Proofs.Aligned
import TypedJson.Proofs.Codec.Agreement
import TypedJson.Proofs.Codec.Checked
import TypedJson.Proofs.Codec.Compact
import TypedJson.Proofs.Codec.Compile
import TypedJson.Proofs.Codec.Direct
import TypedJson.Proofs.Codec.Emitting
import TypedJson.Proofs.Codec.Keys
import TypedJson.Proofs.Codec.Normal
import TypedJson.Proofs.Codec.Optimize
import TypedJson.Proofs.Codec.Scoping
import TypedJson.Proofs.Codec.Sharing
import TypedJson.Proofs.Codec.Simulation
import TypedJson.Proofs.Codec.Steady
import TypedJson.Proofs.Codec.Unaided
import TypedJson.Proofs.Config.Feed
import TypedJson.Proofs.Config.Hooks
import TypedJson.Proofs.DataType.Equality
import TypedJson.Proofs.DataType.Generics
import TypedJson.Proofs.DataType.Lawful
import TypedJson.Proofs.DataType.Members
import TypedJson.Proofs.DataType.Parts
import TypedJson.Proofs.DataType.Resolved
import TypedJson.Proofs.DataType.Settled
import TypedJson.Proofs.DataType.Spelling
import TypedJson.Proofs.DataType.Splitting
import TypedJson.Proofs.DataType.Substitution
import TypedJson.Proofs.DataType.Text
import TypedJson.Proofs.DataType.Unions
import TypedJson.Proofs.DataType.WellFormed
import TypedJson.Proofs.Decimal.Integer
import TypedJson.Proofs.Decimal.Literal
import TypedJson.Proofs.Decimal.Shortest
import TypedJson.Proofs.Decode.Accepting
import TypedJson.Proofs.Decode.Agreement
import TypedJson.Proofs.Decode.Collecting
import TypedJson.Proofs.Decode.Deferring
import TypedJson.Proofs.Decode.Following
import TypedJson.Proofs.Decode.Integers
import TypedJson.Proofs.Decode.Keeping
import TypedJson.Proofs.Decode.Keys
import TypedJson.Proofs.Decode.Leaves
import TypedJson.Proofs.Decode.Looks
import TypedJson.Proofs.Decode.Mirroring
import TypedJson.Proofs.Decode.Plans
import TypedJson.Proofs.Decode.Reference
import TypedJson.Proofs.Decode.Runs
import TypedJson.Proofs.Entries
import TypedJson.Proofs.Fingerprint
import TypedJson.Proofs.Json.Compact
import TypedJson.Proofs.Json.Covering
import TypedJson.Proofs.Json.Grammar
import TypedJson.Proofs.Json.Numbers
import TypedJson.Proofs.Json.Parsed
import TypedJson.Proofs.Json.Quoted
import TypedJson.Proofs.Json.Reading
import TypedJson.Proofs.Json.Strings
import TypedJson.Proofs.Json.Tidy
import TypedJson.Proofs.Metadata.Cache
import TypedJson.Proofs.Metadata.Chains
import TypedJson.Proofs.Metadata.Depth
import TypedJson.Proofs.Metadata.Load
import TypedJson.Proofs.Metadata.Request
import TypedJson.Proofs.Model.Build
import TypedJson.Proofs.Model.Discipline
import TypedJson.Proofs.Model.InStep
import TypedJson.Proofs.Model.Keeping
import TypedJson.Proofs.Model.Nesting
import TypedJson.Proofs.Model.Nodes
import TypedJson.Proofs.Model.Remembering
import TypedJson.Proofs.Model.Terminating
import TypedJson.Proofs.Model.Typing
import TypedJson.Proofs.Outcome
import TypedJson.Proofs.Registry.Asking
import TypedJson.Proofs.Registry.Discriminators
import TypedJson.Proofs.Registry.Feed
import TypedJson.Proofs.Resource.Cursor
import TypedJson.Proofs.Roundtrip.Building
import TypedJson.Proofs.Roundtrip.Formatters
import TypedJson.Proofs.Roundtrip.Keys
import TypedJson.Proofs.Roundtrip.Leaves
import TypedJson.Proofs.Roundtrip.Mixed
import TypedJson.Proofs.Roundtrip.Models
import TypedJson.Proofs.Roundtrip.Nodes
import TypedJson.Proofs.Roundtrip.Objects
import TypedJson.Proofs.Roundtrip.Reading
import TypedJson.Proofs.Roundtrip.Types
import TypedJson.Proofs.Roundtrip.Unions
import TypedJson.Proofs.Roundtrip.Values
import TypedJson.Proofs.Roundtrip.Writing
import TypedJson.Proofs.Serializer.Calls
import TypedJson.Proofs.Serializer.Enumerations
import TypedJson.Proofs.Serializer.Replacing
import TypedJson.Proofs.Serializer.Roundtrip
import TypedJson.Proofs.Split.Crossing
import TypedJson.Proofs.Split.Escaping
import TypedJson.Proofs.Split.Exact
import TypedJson.Proofs.Split.Filling
import TypedJson.Proofs.Split.Isolation
import TypedJson.Proofs.Split.Layout
import TypedJson.Proofs.Split.Nesting
import TypedJson.Proofs.Split.Passing
import TypedJson.Proofs.Split.Safety
import TypedJson.Proofs.Split.Scanner
import TypedJson.Proofs.Split.Steps
import TypedJson.Proofs.Split.WellFormed
import TypedJson.Proofs.Text.Utf8
import TypedJson.Proofs.Value.Awake
import TypedJson.Proofs.Value.Comparing
import TypedJson.Proofs.Value.Ghosts
import TypedJson.Proofs.Value.History
import TypedJson.Proofs.Value.Resolving
import TypedJson.Proofs.Value.Same
import TypedJson.Property
import TypedJson.Registry.Basic
import TypedJson.Registry.Document
import TypedJson.Resource.Cursor
import TypedJson.Serializer
import TypedJson.Split.Container
import TypedJson.Split.Scan
import TypedJson.Split.Scanner
import TypedJson.Split.Window
import TypedJson.Text.Blank
import TypedJson.Text.Inspect
import TypedJson.Text.Unseen
import TypedJson.Text.Utf8
import TypedJson.Value.Access
import TypedJson.Value.Basic
import TypedJson.Value.Inspect
import TypedJson.Value.Place
import TypedJson.Value.Resolved
import TypedJson.Value.Watched
