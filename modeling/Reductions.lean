import Reductions.Number.Word
import Reductions.Number.Scientific
import Reductions.Text.Quoted
import Reductions.Text.Blank
import Reductions.Text.Lines
import Reductions.Tensor.ElementType
import Reductions.Tensor.Shape
import Reductions.Tensor.ReductionKind
import Reductions.Tensor.Basic
import Reductions.Expr.LoopMarks
import Reductions.Expr.Basic
import Reductions.Expr.Printer
import Reductions.Expr.Fold
import Reductions.Expr.Substitute
import Reductions.Expr.UnitLoops
import Reductions.Expr.Flatten
import Reductions.Expr.Simplify
import Reductions.Program
import Reductions.Reduction.Combiner
import Reductions.Reduction.Emitter
import Reductions.Reduction.Lowering
import Reductions.Target
import Reductions.Config.Options
import Reductions.Expr.Same
import Reductions.Strategy.Attribute
import Reductions.Strategy.Error
import Reductions.Strategy.Axes
import Reductions.Strategy.Argument
import Reductions.Strategy.Compute
import Reductions.Strategy.Schedule
import Reductions.Strategy.Basic
import Reductions.Strategy.Reduce
import Reductions.Registry
import Reductions.Json.Basic
import Reductions.Json.Writer
import Reductions.Json.Reader
import Reductions.Serial.Tensor
import Reductions.Serial.Expr
import Reductions.Serial.Options
import Reductions.Toml.Basic
import Reductions.Toml.Table
import Reductions.Toml.Scalar
import Reductions.Toml.Quoted
import Reductions.Toml.Reader
import Reductions.Config.Files
import Reductions.Config.Load
import Reductions.CommandLine.Arguments
import Reductions.CommandLine.Run
import Reductions.Main
import Reductions.Proofs.Execution
import Reductions.Proofs.Occurrences
import Reductions.Proofs.Substitution
import Reductions.Proofs.Scalars
import Reductions.Proofs.FoldingRules
import Reductions.Proofs.Folding
import Reductions.Proofs.Simplification
import Reductions.Proofs.Projection
import Reductions.Proofs.IndexSpace
import Reductions.Proofs.LoopNest
import Reductions.Proofs.Reduction
import Reductions.Proofs.Splitting
import Reductions.Proofs.Emitters
import Reductions.Proofs.Settled
import Reductions.Proofs.Pipeline
import Reductions.Proofs.Accesses
import Reductions.Proofs.SimplifiedAccesses
import Reductions.Proofs.SymbolicShape
import Reductions.Proofs.Bounds
import Reductions.Proofs.Regimes
import Reductions.Proofs.Conversion
import Reductions.Proofs.Placement
import Reductions.Proofs.NormalForm
import Reductions.Proofs.Merging
import Reductions.Proofs.Scheduling
import Reductions.Proofs.ResolvedAxes
import Reductions.Proofs.Results
import Reductions.Proofs.Failures
import Reductions.Proofs.IncrementalMerging
import Reductions.Proofs.ByteOrder
import Reductions.Proofs.Registration
import Reductions.Proofs.EmittedNames
import Reductions.Proofs.Numerals
import Reductions.Proofs.MarksText
import Reductions.Proofs.WholeDoubles
import Reductions.Proofs.WellFormedJson
import Reductions.Proofs.Documents
import Reductions.Proofs.AcceptedDocuments
import Reductions.Proofs.Lifecycle
import Reductions.Proofs.AxisResolution
import Reductions.Proofs.Iterations
import Reductions.Proofs.ReductionMarks
import Reductions.Proofs.Flattening
import Reductions.Proofs.RemovedLoops
import Reductions.Proofs.Overflow
import Reductions.Proofs.UnitDimensions
import Reductions.Proofs.FloatConstants
import Reductions.Proofs.FoldedTrees
import Reductions.Proofs.ArithmeticSubstitution
import Reductions.Proofs.Selection
import Reductions.Proofs.RoundingIntervals
import Reductions.Proofs.ShortestDecimals
import Reductions.Proofs.DecimalLiterals
import Reductions.Proofs.DecimalText
import Reductions.Proofs.Tokens
import Reductions.Proofs.ValueText
import Reductions.Proofs.DumpText
import Reductions.Proofs.LoopCounts
