import TensorGraph.Op.Axis
import TensorGraph.Op.Inputs
/-!
# Rearranging elements

`reshapeTo` reads the target list from left to right.  An entry of -1 is solved for: it is
the number of elements of the input divided by that of the other entries, if both are
known and the latter is not zero.  Whenever the number of elements is known on both sides
the two have to agree.

`flatten` multiplies the axes on each side of a cut.
-/
namespace TensorGraph
namespace Infer

/-- An entry of the target that is not solved for. -/
def targetDim (copyZeros : Bool) (input : Shape) (index : Nat) (size : Int) :
    Except AttributeFault Dimension :=
  if size = 0 ∧ copyZeros then
    match input with
    | .unknown => .ok .dynamic
    | .ranked dims =>
      match dims[index]? with
      | some d => .ok d
      | none => .error (.noAxisToCopy index dims.length)
  else if 0 ≤ size then .ok (.fixed size.toNat)
  else .error (.invalidSize size)

/-- The entries of the target from `index` on; `none` is the one to solve for, which must
not come again once it was `seen`. -/
def targetDims (copyZeros : Bool) (input : Shape) :
    Bool → Nat → List Int → Except AttributeFault (List (Option Dimension))
  | _, _, [] => .ok []
  | seen, index, size :: rest =>
    if size = -1 then
      if seen then .error .severalSolvedSizes
      else do
        let dims ← targetDims copyZeros input true (index + 1) rest
        return none :: dims
    else do
      let d ← targetDim copyZeros input index size
      let dims ← targetDims copyZeros input seen (index + 1) rest
      return some d :: dims

/-- Put a dimension in the place that was left open. -/
def fillOpen (d : Dimension) (dims : List (Option Dimension)) : List Dimension :=
  dims.map (·.getD d)

/-- The size of the open entry, beside entries that make up `others` elements; no answer
if the division leaves a rest. -/
def solveOpen? (count : Option Nat) (others : Dimension) : Option Dimension :=
  match count, others with
  | some n, .fixed k =>
    if k = 0 then some .dynamic
    else if n % k = 0 then some (.fixed (n / k))
    else none
  | _, _ => some .dynamic

def reshapeTo (copyZeros : Bool) (input : TensorType) (target : List Int) :
    Except InferError TensorType := do
  let entries ← (targetDims copyZeros input.shape false 0 target).mapError .invalidAttribute
  let count := input.shape.elementCount?
  let dims ←
    if entries.contains none then do
      let others ← product (entries.filterMap id)
      match solveOpen? count others with
      | some d => pure (fillOpen d entries)
      | none => throw (.incompatibleShapes input.shape (.ranked (fillOpen .dynamic entries)))
    else pure (fillOpen .dynamic entries)
  let total ← product dims
  match count, total with
  | some n, .fixed k =>
    if n = k then return ⟨input.element, .ranked dims⟩
    else throw (.incompatibleShapes input.shape (.ranked dims))
  | _, _ => return ⟨input.element, .ranked dims⟩

def reshape (target : List Int) (copyZeros : Bool) (input : TensorType)
    (second : Option TensorType) (sizes? : Option (List Int)) : Except InferError TensorType :=
  match second with
  | none => reshapeTo copyZeros input target
  | some vector => do
    checkIntVector vector 1
    match sizes? with
    | some sizes => reshapeTo copyZeros input sizes
    | none => return ⟨input.element, shapeOfRank? (vectorLength? vector)⟩

def flatten (axis : Int) (input : TensorType) : Except InferError TensorType :=
  match input.shape with
  | .unknown => .ok ⟨input.element, Shape.ofRank 2⟩
  | .ranked dims => do
    let index ← Axis.cut axis dims.length
    let outer ← product (dims.take index)
    let inner ← product (dims.drop index)
    return ⟨input.element, .ranked [outer, inner]⟩

end Infer
end TensorGraph
