import TensorGraph.Constant
import TensorGraph.Op.Catalog
/-!
# Op — an operation with its attributes

A node of a graph holds an `Op`.  Axes are integers: a negative axis counts from the last
one.  `Op.type` forgets the attributes.
-/
namespace TensorGraph

/-- How the shapes of two operands are combined. -/
inductive Broadcast where
  /-- The shapes have to agree. -/
  | exact
  /-- Shapes are aligned at the last axis and extents of 1 are stretched. -/
  | numpy
  deriving DecidableEq

/-- Bounds of a strided slice, one entry per sliced axis, starting at the first axis.
Where a mask is set, the bound is ignored and the slice reaches the end of the axis. -/
structure SliceBounds where
  start : List Int
  stop : List Int
  strides : List Int
  startMask : List Bool
  stopMask : List Bool
  deriving DecidableEq

/-- What becomes of a last window that does not fit. -/
inductive Rounding where
  | floor
  | ceil
  deriving DecidableEq

/-- The window of a pooling operation, one entry per spatial axis. -/
structure Window where
  kernel : List Nat
  strides : List Nat
  padsBegin : List Nat
  padsEnd : List Nat
  rounding : Rounding
  deriving DecidableEq

inductive Op where
  /-- An input of the graph, of declared type. -/
  | parameter (type : TensorType)
  | constant (value : Constant)
  | unary (op : UnaryOp)
  | convert (target : ElementType)
  | softmax (axis : Int)
  | binary (op : BinaryOp) (broadcast : Broadcast)
  /-- Product of matrices; the flags exchange the last two axes of an operand first. -/
  | matMul (transposeA transposeB : Bool)
  /-- An empty list of axes stands for all of them. -/
  | reduce (op : ReduceOp) (axes : List Int) (keepDims : Bool)
  /-- The sizes of the input as a vector of the given integer type. -/
  | shapeOf (output : ElementType)
  /-- Reorder the axes: by `order`, by a second input, or else back to front. -/
  | transpose (order : Option (List Nat))
  /-- Rearrange the elements: into `target`, or into the sizes that a second input holds.
  A size of -1 is solved for; a size of 0 copies the axis of the input if `copyZeros`
  holds. -/
  | reshape (target : List Int) (copyZeros : Bool)
  /-- Combine the axes before `axis` into one and the others into a second one. -/
  | flatten (axis : Int)
  | concat (axis : Int)
  | split (axis : Int) (parts : Nat)
  | stridedSlice (bounds : SliceBounds)
  /-- Reverse the beginning of each sequence; the second input holds the lengths. -/
  | reverseSequence (batchAxis seqAxis : Int)
  | pool (op : PoolOp) (window : Window)
  /-- The number `min (max (alpha · x + beta) 0) 1` of the inputs `x`, `alpha`, `beta`. -/
  | hardSigmoid
  /-- The number `a · b + c` of the inputs `a`, `b`, `c`. -/
  | fusedMultiplyAdd
  deriving DecidableEq

namespace Op

def type : Op → OpType
  | parameter _ => .parameter
  | constant _ => .constant
  | unary op => .unary op
  | convert _ => .convert
  | softmax _ => .softmax
  | binary op _ => .binary op
  | matMul _ _ => .matMul
  | reduce op _ _ => .reduce op
  | shapeOf _ => .shapeOf
  | transpose _ => .transpose
  | reshape _ _ => .reshape
  | flatten _ => .flatten
  | concat _ => .concat
  | split _ _ => .split
  | stridedSlice _ => .stridedSlice
  | reverseSequence _ _ => .reverseSequence
  | pool op _ => .pool op
  | hardSigmoid => .hardSigmoid
  | fusedMultiplyAdd => .fusedMultiplyAdd

def name (op : Op) : String := op.type.name

/-- The operation is defined as an arrangement of simpler ones. -/
def isComposite : Op → Bool
  | hardSigmoid | fusedMultiplyAdd => true
  | _ => false

/-- The value of the output can be known before the graph runs. -/
def hasKnownValue : Op → Bool
  | constant _ | shapeOf _ => true
  | _ => false

/-- Equality of operations whose constants compare as numbers do. -/
def sameNumbers : Op → Op → Bool
  | constant a, constant b => a.sameNumbers b
  | a, b => a = b

end Op
end TensorGraph
