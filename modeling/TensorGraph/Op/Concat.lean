import TensorGraph.Op.Axis
import TensorGraph.Op.Inputs
/-!
# Joining and splitting along an axis

`concat` takes its rank from the first input whose rank is known.  Along the axis the
sizes add up; the other dimensions have to agree.  An input of unknown rank leaves the sum
unknown.  `split` divides one dimension into equal parts.
-/
namespace TensorGraph
namespace Infer

/-- Append `dims` to what was joined so far, along `axis`. -/
def appendDims (mismatch overflow : InferError) :
    Nat → List Dimension → List Dimension → Except InferError (List Dimension)
  | 0, a :: as, b :: bs => do
    let sum ← match a.add? b with
      | some d => pure d
      | none => throw overflow
    let rest ← (Dimension.zipEach Dimension.merge as bs).mapError (fun _ => mismatch)
    return sum :: rest
  | axis + 1, a :: as, b :: bs => do
    let d ← (a.merge b).mapError (fun _ => mismatch)
    let rest ← appendDims mismatch overflow axis as bs
    return d :: rest
  | _, _, _ => .ok []

/-- Append one more input.  `first` is the shape that gave the rank. -/
def appendInput (first : Shape) (axis : Nat) (joined : List Dimension) (input : TensorType) :
    Except InferError (List Dimension) :=
  match input.shape with
  | .unknown => .ok (joined.set axis .dynamic)
  | .ranked dims =>
    if dims.length ≠ joined.length then .error (.incompatibleShapes first input.shape)
    else appendDims (.incompatibleShapes first input.shape) (.sizeOverflow input.shape) axis joined dims

def concat (axis : Int) (inputs : List TensorType) : Except InferError TensorType :=
  if inputs.isEmpty then .error (.incorrectInputCount (.atLeast 1) 0)
  else do
    let element ← mergeElements inputs
    match inputs.findSome? (·.shape.dims?) with
    | none => return ⟨element, .unknown⟩
    | some first =>
      let axis ← Axis.normalize axis (some first.length)
      let start := (List.replicate first.length Dimension.dynamic).set axis (.fixed 0)
      let dims ← inputs.foldlM (appendInput (.ranked first) axis) start
      return ⟨element, .ranked dims⟩

/-- One part of a dimension that is split into `parts`. -/
def partOf (parts : Nat) : Dimension → Except InferError Dimension
  | .dynamic => .ok .dynamic
  | .fixed size =>
    if size % parts = 0 then .ok (.fixed (size / parts))
    else .error (.invalidAttribute (.unevenParts size parts))

def split (axis : Int) (parts : Nat) (input : TensorType) : Except InferError (List TensorType) :=
  if parts = 0 then .error (.invalidAttribute .noParts)
  else match input.shape with
    | .unknown => .ok (List.replicate parts ⟨input.element, .unknown⟩)
    | .ranked dims => do
      let axis ← Axis.normalize axis (some dims.length)
      let part ← partOf parts (dims.getD axis .dynamic)
      return List.replicate parts ⟨input.element, .ranked (dims.set axis part)⟩

end Infer
end TensorGraph
