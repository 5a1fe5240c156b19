import TensorGraph.Op.Inputs
/-!
# Reordering axes

The order is an attribute, or a second input that holds a vector of axes, but not both;
with neither the axes are reversed, and so they are if the vector is empty.  Output axis
`i` is input axis `order[i]`.  While the vector is not known, its length still tells the
rank of an input of unknown rank, unless it is zero.
-/
namespace TensorGraph
namespace Infer

/-- Check off one axis after the other; `seen` tells for each whether that was done before. -/
def checkOff (seen : Array Bool) : List Nat → Bool
  | [] => true
  | axis :: rest =>
    match seen[axis]? with
    | some false => checkOff (seen.setIfInBounds axis true) rest
    | _ => false

/-- The list names each index below its length once. -/
def isPermutation (order : List Nat) : Bool := checkOff (Array.replicate order.length false) order

/-- Output axis `i` is input axis `order[i]`. -/
def reorder (order : List Nat) (dims : List Dimension) : List Dimension :=
  order.map (fun i => dims.getD i .dynamic)

def reverseAxes (input : TensorType) : TensorType :=
  ⟨input.element, match input.shape with
    | .unknown => .unknown
    | .ranked dims => .ranked dims.reverse⟩

def permute (input : TensorType) (order : List Nat) : Except InferError TensorType :=
  if !isPermutation order then .error (.invalidAttribute (.notAPermutation (order.map Int.ofNat)))
  else match input.shape with
    | .unknown => .ok ⟨input.element, Shape.ofRank order.length⟩
    | .ranked dims =>
      if dims.length ≠ order.length then .error (.incorrectRank 0 dims.length)
      else .ok ⟨input.element, .ranked (reorder order dims)⟩

/-- Axes given as integers; a negative one is no axis of a permutation. -/
def axesOfInts (axes : List Int) : Except InferError (List Nat) :=
  if axes.all (0 ≤ ·) then .ok (axes.map Int.toNat)
  else .error (.invalidAttribute (.notAPermutation axes))

def transpose (order : Option (List Nat)) (input : TensorType) (second : Option TensorType)
    (axes? : Option (List Int)) : Except InferError TensorType :=
  match second with
  | none =>
    match order with
    | none => .ok (reverseAxes input)
    | some order => permute input order
  | some vector =>
    if order.isSome then .error (.invalidAttribute .orderGivenTwice)
    else do
      checkIntVector vector 1
      match axes? with
      | some [] => return reverseAxes input
      | some axes =>
        let order ← axesOfInts axes
        permute input order
      | none =>
        let length := (vectorLength? vector).filter (0 < ·)
        return ⟨input.element, shapeOfRank? (input.rank?.or length)⟩

/-- The order leaves an input with `rank` axes as it is. -/
def isIdentityOrder (order : Option (List Nat)) (rank : Nat) : Bool :=
  match order with
  | some order => order.length = rank && order = List.range order.length
  | none => rank ≤ 1

end Infer
end TensorGraph
