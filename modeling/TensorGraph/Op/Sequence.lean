import TensorGraph.Op.Axis
import TensorGraph.Op.Inputs
/-!
# Reversing sequences

The second input holds one length per batch item, so its size and the batch dimension of
the data describe the same extent.
-/
namespace TensorGraph
namespace Infer

/-- The data's shape, with what the vector of lengths says about the batch axis. -/
def joinLengths (batchAxis : Nat) (data lengths : TensorType) : Except InferError Shape :=
  match lengths.shape with
  | .unknown => .ok data.shape
  | .ranked [length] =>
    match data.shape with
    | .unknown => .ok .unknown
    | .ranked dims => do
      let batch ← ((dims.getD batchAxis .dynamic).merge length).mapError
        (fun _ => .incompatibleShapes data.shape lengths.shape)
      return .ranked (dims.set batchAxis batch)
  | .ranked dims => .error (.incorrectRank 1 dims.length)

def reverseSequence (batchAxis seqAxis : Int) (data lengths : TensorType) :
    Except InferError TensorType := do
  let batch ← Axis.normalize batchAxis data.rank?
  let _ ← Axis.normalize seqAxis data.rank?
  if !holdsInts lengths.element then throw (.unsupportedElementType 1 lengths.element)
  let shape ← joinLengths batch data lengths
  return ⟨data.element, shape⟩

end Infer
end TensorGraph
