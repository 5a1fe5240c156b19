import TensorGraph.Op.Basic
import TensorGraph.Text
/-!
# Why an operation is refused

`InferError` says which part of an operation's contract its inputs break.  Faults of the
attributes themselves are listed apart in `AttributeFault`; each names the attribute it is
about (`subject`) and what is wrong with it (`reason`).
-/
namespace TensorGraph

/-- The lists of a pooling window that have to be as long as its kernel. -/
inductive WindowList where
  | strides | padsBegin | padsEnd
  deriving DecidableEq

inductive AttributeFault where
  | unknownTarget
  | notAPermutation (order : List Int)
  | orderGivenTwice
  | severalSolvedSizes
  | noAxisToCopy (index rank : Nat)
  | invalidSize (size : Int)
  | notAnIndexType (type : ElementType)
  | noParts
  | unevenParts (size parts : Nat)
  | boundsDiffer
  | zeroStride
  | emptyKernel
  | windowLength (list : WindowList) (expected actual : Nat)
  | zeroKernel
  | paddedSizeOverflow
  | kernelTooLarge (kernel padded : Nat)
  | elementCount (count : Nat) (sizes : List Nat)
  deriving DecidableEq

inductive InferError where
  | incorrectInputCount (expected : Arity) (actual : Nat)
  | invalidInput (index : Nat)
  | incompatibleShapes (lhs rhs : Shape)
  | incompatibleElementTypes (lhs rhs : ElementType)
  | unsupportedElementType (index : Nat) (type : ElementType)
  | incorrectRank (index rank : Nat)
  | invalidAttribute (fault : AttributeFault)
  | axisOutOfRange (axis : Int) (rank : Nat)
  /-- A negative axis cannot be counted from the end of a shape of unknown rank. -/
  | dynamicRank (axis : Int)
  | outputCountMismatch (expected actual : Nat)
  | unsupportedOp (op : OpType)
  | sizeOverflow (shape : Shape)
  deriving DecidableEq

def WindowList.name : WindowList → String
  | strides => "strides"
  | padsBegin => "pads_begin"
  | padsEnd => "pads_end"

namespace AttributeFault

/-- The attribute that the fault is about. -/
def subject : AttributeFault → String
  | unknownTarget => "to"
  | notAPermutation _ | orderGivenTwice => "perm"
  | severalSolvedSizes | noAxisToCopy _ _ | invalidSize _ => "shape"
  | notAnIndexType _ => "output_type"
  | noParts | unevenParts _ _ => "num_splits"
  | boundsDiffer | zeroStride => "strides"
  | emptyKernel | zeroKernel | kernelTooLarge _ _ => "kernel"
  | windowLength list _ _ => list.name
  | paddedSizeOverflow => "pads"
  | elementCount _ _ => "data"

def reason : AttributeFault → String
  | unknownTarget => "target type must be known"
  | notAPermutation order => Text.bracketed toString order ++ " is not a permutation"
  | orderGivenTwice => "cannot be combined with a permutation input"
  | severalSolvedSizes => "at most one dimension can be -1"
  | noAxisToCopy index rank =>
    "cannot copy dimension " ++ toString index ++ " of a rank " ++ toString rank ++ " input"
  | invalidSize size => "invalid size " ++ toString size
  | notAnIndexType type => type.text ++ " is not I32 or I64"
  | noParts => "must be at least 1"
  | unevenParts size parts =>
    "dimension of size " ++ toString size ++ " cannot be split into " ++ toString parts ++ " parts"
  | boundsDiffer => "begin, end and strides must have the same length"
  | zeroStride => "stride cannot be 0"
  | emptyKernel => "must not be empty"
  | windowLength _ expected actual =>
    "expected " ++ toString expected ++ " values but got " ++ toString actual
  | zeroKernel => "size cannot be 0"
  | paddedSizeOverflow => "padded input size overflows usize"
  | kernelTooLarge kernel padded =>
    "kernel size " ++ toString kernel ++ " exceeds padded input size " ++ toString padded
  | elementCount count sizes =>
    toString count ++ " elements do not fill shape " ++ Text.bracketed toString sizes

end AttributeFault

namespace InferError

def message : InferError → String
  | incorrectInputCount expected actual =>
    "expected " ++ expected.text ++ " inputs but got " ++ toString actual
  | invalidInput index => "input " ++ toString index ++ " is not a value in the graph"
  | incompatibleShapes l r => "incompatible shapes " ++ l.text ++ " and " ++ r.text
  | incompatibleElementTypes l r => "incompatible element types " ++ l.text ++ " and " ++ r.text
  | unsupportedElementType index type =>
    "input " ++ toString index ++ " has unsupported element type " ++ type.text
  | incorrectRank index rank =>
    "input " ++ toString index ++ " has unsupported rank " ++ toString rank
  | invalidAttribute fault =>
    "invalid value for attribute \"" ++ fault.subject ++ "\": " ++ fault.reason
  | axisOutOfRange axis rank =>
    "axis " ++ toString axis ++ " is out of range for rank " ++ toString rank
  | dynamicRank axis =>
    "negative axis " ++ toString axis ++ " cannot be resolved for an input of unknown rank"
  | outputCountMismatch expected actual =>
    "operation produced " ++ toString actual ++ " outputs but the node has " ++ toString expected
  | unsupportedOp op => "operation " ++ op.name ++ " is not in the registry"
  | sizeOverflow shape => "size of " ++ shape.text ++ " overflows usize"

end InferError
end TensorGraph
