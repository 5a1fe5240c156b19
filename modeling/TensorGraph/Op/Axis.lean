import TensorGraph.Op.Error
/-!
# Axes

An axis is an integer in `[-rank, rank - 1]`; a negative one counts from the last axis.
`resolve?` turns it into an index, `normalize` does so for a rank that may be unknown: then
a non-negative axis is its own index, and a negative one has no answer yet.

Ranks are read as signed 64-bit words here, so a rank from `signedLimit` on has no axes.
-/
namespace TensorGraph
namespace Axis

/-- A size read as a signed 64-bit word. -/
def signedWord (n : Nat) : Int := Int.bmod n sizeLimit

/-- Index of an axis of a shape with `rank` axes. -/
def resolve? (rank : Nat) (axis : Int) : Option Nat :=
  let rank := signedWord rank
  let index := if axis < 0 then axis + rank else axis
  if 0 ≤ index ∧ index < rank then some index.toNat else none

def normalize (axis : Int) (rank : Option Nat) : Except InferError Nat :=
  match rank with
  | some rank =>
    match resolve? rank axis with
    | some index => .ok index
    | none => .error (.axisOutOfRange axis rank)
  | none => if 0 ≤ axis then .ok axis.toNat else .error (.dynamicRank axis)

/-- Put an index into an ascending list. -/
def insertSorted (i : Nat) : List Nat → List Nat
  | [] => [i]
  | j :: js => if i ≤ j then i :: j :: js else j :: insertSorted i js

/-- Of equal indices that follow each other, keep the last. -/
def dropRepeats : List Nat → List Nat
  | [] => []
  | [i] => [i]
  | i :: j :: js => if i = j then dropRepeats (j :: js) else i :: dropRepeats (j :: js)

/-- The indices of a list, in ascending order and each once. -/
def ascending (is : List Nat) : List Nat := dropRepeats (is.foldr insertSorted [])

/-- Indices of axes of a shape with `rank` axes, in ascending order and each once. -/
def normalizeAll (axes : List Int) (rank : Nat) : Except InferError (List Nat) := do
  let indices ← axes.mapM (fun axis => normalize axis (some rank))
  return ascending indices

/-- Where a list of axes is cut in two: between the axes before `axis` and the others.
Here `axis = rank` is allowed, and stands for the end of the list. -/
def cut (axis : Int) (rank : Nat) : Except InferError Nat :=
  let index := if axis < 0 then axis + rank else axis
  if 0 ≤ index ∧ index ≤ rank then .ok index.toNat else .error (.axisOutOfRange axis rank)

end Axis
end TensorGraph
