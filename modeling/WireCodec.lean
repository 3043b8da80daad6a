import WireCodec.Command.Basic
import WireCodec.Command.Config
import WireCodec.Command.Run
import WireCodec.File.Path
import WireCodec.File.Project
import WireCodec.File.System
import WireCodec.File.Tree
import WireCodec.Main
import WireCodec.Number.Binary
import WireCodec.Number.FloatText
import WireCodec.Number.LittleEndian
import WireCodec.Number.Power
import WireCodec.Number.Shortest
import WireCodec.Proofs.Agreement
import WireCodec.Proofs.Arrangement
import WireCodec.Proofs.Canonical
import WireCodec.Proofs.Constructed
import WireCodec.Proofs.Named
import WireCodec.Proofs.Normal
import WireCodec.Proofs.Numbers
import WireCodec.Proofs.Packing
import WireCodec.Proofs.Reading
import WireCodec.Proofs.RoundTrip
import WireCodec.Proofs.Samples
import WireCodec.Proofs.WellFormed
import WireCodec.Proofs.Widening
import WireCodec.Proofs.Writing
import WireCodec.Sample.Blobs
import WireCodec.Sample.Shapes
import WireCodec.Sample.Tour
import WireCodec.Schema.Basic
import WireCodec.Schema.Builtin
import WireCodec.Schema.DependencyOrder
import WireCodec.Schema.Description
import WireCodec.Schema.Distinct
import WireCodec.Schema.Error
import WireCodec.Schema.Layout
import WireCodec.Schema.Size
import WireCodec.Schema.TypeDef
import WireCodec.Source.Compile
import WireCodec.Source.Declaration
import WireCodec.Source.Error
import WireCodec.Source.Token
import WireCodec.Target.Backends
import WireCodec.Target.Builder
import WireCodec.Target.C
import WireCodec.Target.Error
import WireCodec.Target.Names
import WireCodec.Target.Page
import WireCodec.Target.Registry
import WireCodec.Target.Ruby
import WireCodec.Target.Rust
import WireCodec.Text.Blank
import WireCodec.Text.CaseTable
import WireCodec.Text.CharLiteral
import WireCodec.Text.CodePoint
import WireCodec.Text.Digit
import WireCodec.Text.Identifier
import WireCodec.Text.Json
import WireCodec.Text.LetterCase
import WireCodec.Text.Naming
import WireCodec.Text.Quoted
import WireCodec.Text.Visible
import WireCodec.Text.WordChar
import WireCodec.Typed.Codec
import WireCodec.Typed.Number
import WireCodec.Value.Basic
import WireCodec.Value.Construct
import WireCodec.Value.Pack
import WireCodec.Value.Unpack
import WireCodec.Version
import WireCodec.Wire.Error
import WireCodec.Wire.Float
import WireCodec.Wire.Reader
import WireCodec.Wire.Writer
import WireCodec.Proofs.Coherent
import WireCodec.Proofs.Acceptance
import WireCodec.Proofs.Layouts
import WireCodec.Proofs.Locality
import WireCodec.Proofs.Compositional
import WireCodec.Proofs.Faults
import WireCodec.Proofs.Grammar
import WireCodec.Proofs.Recursion
import WireCodec.Proofs.Runs
import WireCodec.Proofs.Registration
import WireCodec.Proofs.Rendering
import WireCodec.Proofs.Scopes
import WireCodec.Proofs.Generating
import WireCodec.Proofs.Precedence
import WireCodec.Proofs.Callees
import WireCodec.Proofs.Placing
import WireCodec.Proofs.Declared
import WireCodec.Proofs.Identifiers
import WireCodec.Proofs.Places
import WireCodec.Proofs.Trees
import WireCodec.Proofs.Interrupted
import WireCodec.Proofs.Staging
import WireCodec.Proofs.Installing
import WireCodec.Proofs.Restoring
import WireCodec.Proofs.Languages
import WireCodec.Proofs.Resolving
import WireCodec.Proofs.Stability
import WireCodec.Proofs.Offsets
import WireCodec.Proofs.Lexemes
import WireCodec.Proofs.Diagnosis
import WireCodec.Proofs.Framing
import WireCodec.Proofs.Lengths
import WireCodec.Proofs.Sizes
import WireCodec.Proofs.FieldOrder
import WireCodec.Proofs.Appending
import WireCodec.Proofs.Announced
import WireCodec.Proofs.Renaming
import WireCodec.Proofs.Aliases
import WireCodec.Proofs.Rounding
import WireCodec.Proofs.Narrowing
import WireCodec.Proofs.Patterns
import WireCodec.Proofs.TokenPatterns
import WireCodec.Proofs.Tokens
import WireCodec.Proofs.Spacing
import WireCodec.Proofs.Repeating
import WireCodec.Proofs.Progress
import WireCodec.Proofs.Completing
import WireCodec.Proofs.Casing
import WireCodec.Proofs.Selecting
import WireCodec.Proofs.Guarding
import WireCodec.Proofs.Constants
import WireCodec.Proofs.Classes
import WireCodec.Proofs.Spellings
import WireCodec.Proofs.TypeNames
import WireCodec.Proofs.Shadowing
import WireCodec.Proofs.Documents
import WireCodec.Proofs.Describing
import WireCodec.Proofs.Sections
import WireCodec.Proofs.Consuming
import WireCodec.Proofs.Rereading
import WireCodec.Proofs.Offenders
import WireCodec.Proofs.Margins
import WireCodec.Proofs.Primitives
import WireCodec.Proofs.Headers
import WireCodec.Proofs.Loading
import WireCodec.Proofs.Forward
