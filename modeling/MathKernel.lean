import MathKernel.Data.Closure
import MathKernel.Data.Json.Basic
import MathKernel.Data.Json.Reader
import MathKernel.Data.Json.Record
import MathKernel.Data.Json.Writer
import MathKernel.Data.NameMap
import MathKernel.Data.NameSet
import MathKernel.Data.Sha256
import MathKernel.Data.Toml.Basic
import MathKernel.Data.Toml.Reader
import MathKernel.Data.Toml.Scalar
import MathKernel.Kernel.Builtin
import MathKernel.Kernel.Bundle
import MathKernel.Kernel.Codec
import MathKernel.Kernel.Declaration
import MathKernel.Kernel.Dependencies
import MathKernel.Kernel.Emission
import MathKernel.Kernel.Extraction
import MathKernel.Kernel.Folding
import MathKernel.Kernel.Record
import MathKernel.Kernel.Target
import MathKernel.Link.Linker
import MathKernel.Link.Program
import MathKernel.Link.Resolution
import MathKernel.Main
import MathKernel.Normalize.CastCalls
import MathKernel.Normalize.CoefficientArrays
import MathKernel.Normalize.Coercion
import MathKernel.Normalize.ErrorCalls
import MathKernel.Normalize.Idioms
import MathKernel.Normalize.Jumps
import MathKernel.Normalize.Loops
import MathKernel.Normalize.MathNames
import MathKernel.Normalize.NamePool
import MathKernel.Normalize.Pipeline
import MathKernel.Normalize.Recursion
import MathKernel.Normalize.Scope
import MathKernel.Normalize.Spelling
import MathKernel.Normalize.StaticStorage
import MathKernel.Normalize.Tally
import MathKernel.Normalize.Typing
import MathKernel.Number.Binary64
import MathKernel.Number.Decimal
import MathKernel.Number.Integer
import MathKernel.Proofs.Data.Closure
import MathKernel.Proofs.Data.Json.RoundTrip
import MathKernel.Proofs.Data.Json.Scanning
import MathKernel.Proofs.Kernel.AssignedValues
import MathKernel.Proofs.Kernel.Bundle
import MathKernel.Proofs.Kernel.Codec
import MathKernel.Proofs.Kernel.Dependencies
import MathKernel.Proofs.Kernel.Emission
import MathKernel.Proofs.Kernel.EmittedExpressions
import MathKernel.Proofs.Kernel.Extraction
import MathKernel.Proofs.Kernel.FoldedValues
import MathKernel.Proofs.Kernel.LocalArrays
import MathKernel.Proofs.Kernel.Positions
import MathKernel.Proofs.Kernel.RecordedLiterals
import MathKernel.Proofs.Kernel.RecordedVariables
import MathKernel.Proofs.Kernel.RenamedDependencies
import MathKernel.Proofs.Link.Closure
import MathKernel.Proofs.Link.Program
import MathKernel.Proofs.Link.Reduction
import MathKernel.Proofs.Link.Renaming
import MathKernel.Proofs.Link.SharedVariables
import MathKernel.Proofs.Link.Tables
import MathKernel.Proofs.Link.Uniforms
import MathKernel.Proofs.Link.Walk
import MathKernel.Proofs.Link.WrittenVariables
import MathKernel.Proofs.Normalize.AbsoluteValues
import MathKernel.Proofs.Normalize.BoundedLoops
import MathKernel.Proofs.Normalize.CallFragments
import MathKernel.Proofs.Normalize.CoefficientArrays
import MathKernel.Proofs.Normalize.CoercedBodies
import MathKernel.Proofs.Normalize.CoercedConstants
import MathKernel.Proofs.Normalize.CoercedExpressions
import MathKernel.Proofs.Normalize.CoercedRuns
import MathKernel.Proofs.Normalize.CoercedValues
import MathKernel.Proofs.Normalize.Coercion
import MathKernel.Proofs.Normalize.CoercionFixed
import MathKernel.Proofs.Normalize.CoercionFrame
import MathKernel.Proofs.Normalize.ControlFragments
import MathKernel.Proofs.Normalize.CopiedNames
import MathKernel.Proofs.Normalize.CountedLoops
import MathKernel.Proofs.Normalize.Counting
import MathKernel.Proofs.Normalize.ExplicitTypes
import MathKernel.Proofs.Normalize.FixedPoint
import MathKernel.Proofs.Normalize.FloatSpellings
import MathKernel.Proofs.Normalize.FoldableConstants
import MathKernel.Proofs.Normalize.FoldedConditionals
import MathKernel.Proofs.Normalize.FoldedExpressions
import MathKernel.Proofs.Normalize.FoldedIdioms
import MathKernel.Proofs.Normalize.FoldedParities
import MathKernel.Proofs.Normalize.FoldedRuns
import MathKernel.Proofs.Normalize.Fragments
import MathKernel.Proofs.Normalize.FreshNames
import MathKernel.Proofs.Normalize.Globals
import MathKernel.Proofs.Normalize.Heads
import MathKernel.Proofs.Normalize.HoistedStatics
import MathKernel.Proofs.Normalize.Idempotence
import MathKernel.Proofs.Normalize.IntegerSpellings
import MathKernel.Proofs.Normalize.Jumps
import MathKernel.Proofs.Normalize.LabelGraph
import MathKernel.Proofs.Normalize.LiteralValues
import MathKernel.Proofs.Normalize.Literals
import MathKernel.Proofs.Normalize.LocalFunctions
import MathKernel.Proofs.Normalize.LoopNames
import MathKernel.Proofs.Normalize.MergedSignatures
import MathKernel.Proofs.Normalize.NormalForm
import MathKernel.Proofs.Normalize.ParityBodies
import MathKernel.Proofs.Normalize.ParityRuns
import MathKernel.Proofs.Normalize.ParityTests
import MathKernel.Proofs.Normalize.PassedArrays
import MathKernel.Proofs.Normalize.PoolNames
import MathKernel.Proofs.Normalize.Positions
import MathKernel.Proofs.Normalize.PromotedFunctions
import MathKernel.Proofs.Normalize.Recursion
import MathKernel.Proofs.Normalize.RenamedGlobals
import MathKernel.Proofs.Normalize.RenamedWrites
import MathKernel.Proofs.Normalize.ReplacedJumps
import MathKernel.Proofs.Normalize.Reports
import MathKernel.Proofs.Normalize.RewrittenConstants
import MathKernel.Proofs.Normalize.ScopedRenaming
import MathKernel.Proofs.Normalize.ScopedWalks
import MathKernel.Proofs.Normalize.SentBodies
import MathKernel.Proofs.Normalize.SentCalls
import MathKernel.Proofs.Normalize.SpelledDivision
import MathKernel.Proofs.Normalize.Spelling
import MathKernel.Proofs.Normalize.StaticBindings
import MathKernel.Proofs.Normalize.StaticWrites
import MathKernel.Proofs.Normalize.TruthValues
import MathKernel.Proofs.Normalize.TypedExpressions
import MathKernel.Proofs.Normalize.Unchanged
import MathKernel.Proofs.Normalize.UnrolledCalls
import MathKernel.Proofs.Normalize.UnrolledRuns
import MathKernel.Proofs.Normalize.UnrolledUnits
import MathKernel.Proofs.Normalize.Variables
import MathKernel.Proofs.Number.Digits
import MathKernel.Proofs.Number.IntegerParts
import MathKernel.Proofs.Number.Nearest
import MathKernel.Proofs.Number.Rendering
import MathKernel.Proofs.Number.Rounding
import MathKernel.Proofs.Number.Shortest
import MathKernel.Proofs.Semantics.Activations
import MathKernel.Proofs.Semantics.Agreement
import MathKernel.Proofs.Semantics.Constants
import MathKernel.Proofs.Semantics.Effects
import MathKernel.Proofs.Semantics.Entry
import MathKernel.Proofs.Semantics.Erasure
import MathKernel.Proofs.Semantics.Evaluation
import MathKernel.Proofs.Semantics.Execution
import MathKernel.Proofs.Semantics.Frames
import MathKernel.Proofs.Semantics.Identification
import MathKernel.Proofs.Semantics.Interpretation
import MathKernel.Proofs.Semantics.Refinement
import MathKernel.Proofs.Semantics.Scalars
import MathKernel.Proofs.Semantics.Traces
import MathKernel.Proofs.Semantics.Typing
import MathKernel.Proofs.Syntax.Counting
import MathKernel.Proofs.Syntax.Fragments
import MathKernel.Proofs.Syntax.FreeNames
import MathKernel.Proofs.Syntax.MetExpressions
import MathKernel.Proofs.Syntax.Occurrences
import MathKernel.Proofs.Syntax.Positions
import MathKernel.Proofs.Syntax.ReadUnits
import MathKernel.Proofs.Syntax.Reader
import MathKernel.Proofs.Syntax.Recordings
import MathKernel.Proofs.Syntax.References
import MathKernel.Proofs.Syntax.Subexpressions
import MathKernel.Proofs.Syntax.Tokens
import MathKernel.Proofs.Syntax.Unambiguity
import MathKernel.Proofs.Syntax.Walks
import MathKernel.Proofs.Syntax.Writes
import MathKernel.Syntax.Dump
import MathKernel.Syntax.Literal
import MathKernel.Syntax.Operator
import MathKernel.Syntax.Printer
import MathKernel.Syntax.ScalarType
import MathKernel.Syntax.Traversal
import MathKernel.Syntax.Tree
import MathKernel.Tool.Arguments
import MathKernel.Tool.Host
import MathKernel.Tool.Manifest
import MathKernel.Tool.Path
import MathKernel.Tool.Run
