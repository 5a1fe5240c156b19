import TensorGraph.Op.Axis
import TensorGraph.Op.Inputs
/-!
# Element by element

The output of a unary operation has the type of its input.  The output of a binary one has
the element type on which both inputs agree, or `boolean` for a comparison, and the two
shapes combined as its broadcast attribute says.  The composite operations are typed by
the binary rule as well.
-/
namespace TensorGraph

/-- Combine the shapes of two operands. -/
def Broadcast.combine (b : Broadcast) (lhs rhs : Shape) : Except InferError Shape :=
  (match b with
    | .exact => lhs.merge rhs
    | .numpy => lhs.broadcast rhs).mapError (fun _ => .incompatibleShapes lhs rhs)

namespace Infer

/-- Booleans are never operands of arithmetic, and integers not of `floatOnly`
operations. -/
def checkArithmetic (floatOnly : Bool) (input : TensorType) : Except InferError Unit :=
  let supported := match input.element with
    | .dynamic => true
    | .boolean => false
    | type => !floatOnly || type.isFloat
  if supported then .ok () else .error (.unsupportedElementType 0 input.element)

def unary (op : UnaryOp) (input : TensorType) : Except InferError TensorType := do
  checkArithmetic op.floatOnly input
  return input

def convert (target : ElementType) (input : TensorType) : Except InferError TensorType :=
  if target.isDynamic then .error (.invalidAttribute .unknownTarget)
  else .ok ⟨target, input.shape⟩

/-- The axis is only looked at once the rank is known, since it changes no type. -/
def softmax (axis : Int) (input : TensorType) : Except InferError TensorType := do
  checkArithmetic true input
  if let some rank := input.rank? then
    let _ ← Axis.normalize axis (some rank)
  return input

/-- Arithmetic on two operands. -/
def arithmetic (b : Broadcast) (lhs rhs : TensorType) : Except InferError TensorType := do
  let element ← mergeElements [lhs, rhs]
  let shape ← b.combine lhs.shape rhs.shape
  return ⟨element, shape⟩

def binary (op : BinaryOp) (b : Broadcast) (lhs rhs : TensorType) : Except InferError TensorType := do
  let type ← arithmetic b lhs rhs
  return if op.isComparison then { type with element := .boolean } else type

/-- An input that has to be a scalar, as far as its rank is known. -/
def checkScalar (index : Nat) (input : TensorType) : Except InferError Unit :=
  match input.rank? with
  | some rank => if rank = 0 then .ok () else .error (.incorrectRank index rank)
  | none => .ok ()

def hardSigmoid (data alpha beta : TensorType) : Except InferError TensorType := do
  let element ← mergeElements [data, alpha, beta]
  if !(element.isFloat || element.isDynamic) then
    throw (.unsupportedElementType 0 element)
  checkScalar 1 alpha
  checkScalar 2 beta
  return ⟨element, data.shape⟩

def fusedMultiplyAdd (a b c : TensorType) : Except InferError TensorType := do
  let product ← arithmetic .numpy a b
  arithmetic .numpy product c

end Infer
end TensorGraph
