import TensorGraph.Binary.Arithmetic
import TensorGraph.Binary.Format
import TensorGraph.Binary.Number
import TensorGraph.Binary.Rounding
import TensorGraph.Constant
import TensorGraph.Decimal.Shortest
import TensorGraph.Digraph
import TensorGraph.Dimension
import TensorGraph.ElementType
import TensorGraph.Graph.Basic
import TensorGraph.Graph.Construction
import TensorGraph.Graph.Insert
import TensorGraph.Graph.Order
import TensorGraph.Graph.Propagate
import TensorGraph.Graph.Redirect
import TensorGraph.Graph.Remove
import TensorGraph.Graph.Verify
import TensorGraph.Json.Compact
import TensorGraph.Json.Layer
import TensorGraph.Json.Reader
import TensorGraph.Op.Axis
import TensorGraph.Op.Basic
import TensorGraph.Op.Catalog
import TensorGraph.Op.Concat
import TensorGraph.Op.Elementwise
import TensorGraph.Op.Error
import TensorGraph.Op.Expansion
import TensorGraph.Op.Infer
import TensorGraph.Op.Inputs
import TensorGraph.Op.MatMul
import TensorGraph.Op.Pool
import TensorGraph.Op.Reduce
import TensorGraph.Op.Reshape
import TensorGraph.Op.Sequence
import TensorGraph.Op.ShapeOf
import TensorGraph.Op.Slice
import TensorGraph.Op.Transpose
import TensorGraph.Pattern.Basic
import TensorGraph.Pattern.Build
import TensorGraph.Pattern.Match
import TensorGraph.Pattern.Predicate
import TensorGraph.Registry
import TensorGraph.Rewrite.Apply
import TensorGraph.Rewrite.Legalize
import TensorGraph.Rewrite.Options
import TensorGraph.Rewrite.Pass
import TensorGraph.Rewrite.Rule
import TensorGraph.Rewrite.Rules
import TensorGraph.Serial
import TensorGraph.Shape
import TensorGraph.TensorType
import TensorGraph.Text
import TensorGraph.Proofs.Digraph.Cycle
import TensorGraph.Proofs.Digraph.Paths
import TensorGraph.Proofs.Digraph.Reach
import TensorGraph.Proofs.Digraph.Walk
import TensorGraph.Proofs.Graph.Slots
import TensorGraph.Proofs.Graph.WellFormed
import TensorGraph.Proofs.Graph.Order
import TensorGraph.Proofs.Graph.Verify
import TensorGraph.Proofs.Graph.Growth
import TensorGraph.Proofs.Graph.Redirect
import TensorGraph.Proofs.Graph.Remove
import TensorGraph.Proofs.Rewrite.Discard
import TensorGraph.Proofs.Rewrite.Apply
import TensorGraph.Proofs.Rewrite.Run
import TensorGraph.Proofs.Rewrite.Edit
import TensorGraph.Proofs.Graph.Settle
import TensorGraph.Proofs.Rewrite.Trace
import TensorGraph.Proofs.Rewrite.Typing
import TensorGraph.Proofs.Graph.Meaning
import TensorGraph.Proofs.Rewrite.Meaning
import TensorGraph.Proofs.Information.Relaxes
import TensorGraph.Proofs.Information.Answers
import TensorGraph.Proofs.Information.Combine
import TensorGraph.Proofs.Information.Join
import TensorGraph.Proofs.Information.Broadcast
import TensorGraph.Proofs.Information.Stretch
import TensorGraph.Proofs.Information.Product
import TensorGraph.Proofs.Op.Elementwise
import TensorGraph.Proofs.Op.Swap
import TensorGraph.Proofs.Op.MatMul
import TensorGraph.Proofs.Op.Axes
import TensorGraph.Proofs.Op.Layout
import TensorGraph.Proofs.Op.Slice
import TensorGraph.Proofs.Op.Reshape
import TensorGraph.Proofs.Op.Concat
import TensorGraph.Proofs.Op.Matrices
import TensorGraph.Proofs.Op.Permutation
import TensorGraph.Proofs.Op.Reduce
import TensorGraph.Proofs.Op.AxisNames
import TensorGraph.Proofs.Op.Windows
import TensorGraph.Proofs.Op.Monotone
import TensorGraph.Proofs.Graph.Revalidate
import TensorGraph.Proofs.Graph.Known
import TensorGraph.Proofs.Graph.Contents
import TensorGraph.Proofs.Rewrite.Specific
import TensorGraph.Proofs.Pattern.Answered
import TensorGraph.Proofs.Pattern.Built
import TensorGraph.Proofs.Pattern.Found
import TensorGraph.Proofs.Pattern.Derivation
import TensorGraph.Proofs.Pattern.Accepted
import TensorGraph.Proofs.Pattern.Adequate
import TensorGraph.Proofs.Pattern.Operands
import TensorGraph.Proofs.Rewrite.Construct
import TensorGraph.Proofs.Rewrite.Laws
import TensorGraph.Proofs.Rewrite.BuiltIn
import TensorGraph.Proofs.Digraph.Renamed
import TensorGraph.Proofs.Graph.Renamed
import TensorGraph.Proofs.Graph.RenamedSteps
import TensorGraph.Proofs.Rewrite.SlotBlind
import TensorGraph.Proofs.Rewrite.BuiltInBlind
import TensorGraph.Proofs.Rewrite.Converged
import TensorGraph.Proofs.Pattern.Terminates
import TensorGraph.Proofs.Rewrite.Cycle
import TensorGraph.Proofs.Graph.Refined
import TensorGraph.Proofs.Rewrite.Additions
import TensorGraph.Proofs.Graph.Collected
import TensorGraph.Proofs.Rewrite.Progress
import TensorGraph.Proofs.Graph.Pruned
import TensorGraph.Proofs.Graph.Ordered
import TensorGraph.Proofs.Graph.Visits
import TensorGraph.Proofs.Rewrite.Tidy
import TensorGraph.Proofs.Rewrite.Fusion
import TensorGraph.Proofs.Rewrite.Exchange
import TensorGraph.Proofs.Rewrite.Expansion
import TensorGraph.Proofs.Rewrite.Sweep
import TensorGraph.Proofs.Rewrite.Report
import TensorGraph.Proofs.Rewrite.Decomposition
import TensorGraph.Proofs.Rewrite.Elimination
import TensorGraph.Proofs.Rewrite.Orders
import TensorGraph.Proofs.Binary.Rounding
import TensorGraph.Proofs.Binary.Half
import TensorGraph.Proofs.Json.Written
import TensorGraph.Proofs.Json.RoundTrip
