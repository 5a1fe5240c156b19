import TensorGraph.Op.Concat
import TensorGraph.Op.Elementwise
import TensorGraph.Op.MatMul
import TensorGraph.Op.Pool
import TensorGraph.Op.Reduce
import TensorGraph.Op.Reshape
import TensorGraph.Op.Sequence
import TensorGraph.Op.ShapeOf
import TensorGraph.Op.Slice
import TensorGraph.Op.Transpose
/-!
# The types of an operation's outputs

`Op.inferTypes` picks the rule of the operation.  `values` holds, input by input, what is
known about the values of the inputs; it may be shorter than the list of inputs, and only
`transpose` and `reshape` look at it.  `Op.validate` checks the number of inputs first.
-/
namespace TensorGraph
namespace Infer

/-- A constant has as many elements as its sizes make up. -/
def constant (c : Constant) : Except InferError TensorType :=
  let shape := Shape.ofSizes c.sizes
  match shape.elementCount? with
  | none => .error (.sizeOverflow shape)
  | some count =>
    if c.data.size = count then .ok ⟨c.data.elementType, shape⟩
    else .error (.invalidAttribute (.elementCount c.data.size c.sizes))

end Infer

namespace Op

open Infer in
def inferTypes (op : Op) (inputs : List TensorType) (values : List (Option ConstantData)) :
    Except InferError (List TensorType) :=
  match op with
  | parameter type => .ok [type]
  | constant value => do return [← Infer.constant value]
  | unary op => do return [← Infer.unary op (← one inputs)]
  | convert target => do return [← Infer.convert target (← one inputs)]
  | softmax axis => do return [← Infer.softmax axis (← one inputs)]
  | binary op broadcast => do
    let (lhs, rhs) ← two inputs
    return [← Infer.binary op broadcast lhs rhs]
  | matMul transposeA transposeB => do
    let (a, b) ← two inputs
    return [← Infer.matMul transposeA transposeB a b]
  | reduce _ axes keepDims => do return [← Infer.reduce axes keepDims (← one inputs)]
  | shapeOf output => do return [← Infer.shapeOf output (← one inputs)]
  | transpose order => do
    let (input, second) ← oneOrTwo inputs
    return [← Infer.transpose order input second (knownInts? values 1)]
  | reshape target copyZeros => do
    let (input, second) ← oneOrTwo inputs
    return [← Infer.reshape target copyZeros input second (knownInts? values 1)]
  | flatten axis => do return [← Infer.flatten axis (← one inputs)]
  | concat axis => do return [← Infer.concat axis inputs]
  | split axis parts => do Infer.split axis parts (← one inputs)
  | stridedSlice bounds => do return [← Infer.stridedSlice bounds (← one inputs)]
  | reverseSequence batchAxis seqAxis => do
    let (data, lengths) ← two inputs
    return [← Infer.reverseSequence batchAxis seqAxis data lengths]
  | pool _ window => do return [← Infer.pool window (← one inputs)]
  | hardSigmoid => do
    let (data, alpha, beta) ← three inputs
    return [← Infer.hardSigmoid data alpha beta]
  | fusedMultiplyAdd => do
    let (a, b, c) ← three inputs
    return [← Infer.fusedMultiplyAdd a b c]

/-- Check the number of inputs, then infer the types of the outputs. -/
def validate (op : Op) (inputs : List TensorType) (values : List (Option ConstantData)) :
    Except InferError (List TensorType) :=
  if op.type.arity.accepts inputs.length then op.inferTypes inputs values
  else .error (.incorrectInputCount op.type.arity inputs.length)

end Op
end TensorGraph
