import TensorGraph.Op.Axis
import TensorGraph.Op.Inputs
/-!
# Reductions

A reduction drops the axes it reduces, or leaves an extent of 1 in their place.  An empty
list of axes stands for all axes; otherwise the axes are put in ascending order, each once.
-/
namespace TensorGraph
namespace Infer

/-- The axes that are reduced, as indices. -/
def reducedAxes (axes : List Int) (rank : Nat) : Except InferError (List Nat) :=
  if axes.isEmpty then .ok (List.range rank)
  else Axis.normalizeAll axes rank

def reduceDims (axes : List Nat) (keepDims : Bool) (dims : List Dimension) : List Dimension :=
  dims.zipIdx.filterMap (fun (d, i) =>
    if !axes.contains i then some d
    else if keepDims then some (.fixed 1)
    else none)

def reduce (axes : List Int) (keepDims : Bool) (input : TensorType) : Except InferError TensorType :=
  if input.element = .boolean then .error (.unsupportedElementType 0 input.element)
  else match input.shape with
    | .unknown => .ok ⟨input.element, .unknown⟩
    | .ranked dims => do
      let axes ← reducedAxes axes dims.length
      return ⟨input.element, .ranked (reduceDims axes keepDims dims)⟩

end Infer
end TensorGraph
