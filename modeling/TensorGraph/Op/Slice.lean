import TensorGraph.Op.Inputs
/-!
# Slices

A slice of one axis runs from `sliceStart` towards `sliceStop` in steps of the stride and
does not reach `sliceStop`.  A negative bound counts from the end of the axis, and a bound
outside the axis is moved to its nearer end; the ends are 0 and the size for a positive
stride, and one place lower for a negative one.  An absent bound is the end of the axis in
the direction of travel.

Bounds are signed 64-bit words, so an axis longer than such a word can say counts as one
of `signedLimit - 1` places.
-/
namespace TensorGraph
namespace Infer

/-- A place on an axis of the given size, counted from its start. -/
def fromStart (size place : Int) : Int := if place < 0 then place + size else place

def clamp (low high x : Int) : Int := max low (min high x)

def sliceStart (size : Int) (bound : Option Int) (stride : Int) : Int :=
  if 0 < stride then bound.elim 0 (fun b => clamp 0 size (fromStart size b))
  else bound.elim (size - 1) (fun b => clamp (-1) (size - 1) (fromStart size b))

def sliceStop (size : Int) (bound : Option Int) (stride : Int) : Int :=
  if 0 < stride then bound.elim size (fun b => clamp 0 size (fromStart size b))
  else bound.elim (-1) (fun b => clamp (-1) (size - 1) (fromStart size b))

/-- Distance from the first place to the last in the direction of travel. -/
def sliceSpan (size : Int) (start stop : Option Int) (stride : Int) : Int :=
  let first := sliceStart size start stride
  let last := sliceStop size stop stride
  if 0 < stride then last - first else first - last

/-- The longest axis that slices see. -/
def sliceLimit : Nat := signedLimit - 1

/-- Number of places that a slice takes. -/
def sliceLength (size : Nat) (start stop : Option Int) (stride : Int) : Nat :=
  let span := sliceSpan (min size sliceLimit) start stop stride
  if 0 < span then (span - 1).toNat / stride.natAbs + 1 else 0

/-- A bound, unless its mask is set. -/
def maskedBound (bounds : List Int) (mask : List Bool) (axis : Nat) : Option Int :=
  if mask.getD axis false then none else some (bounds.getD axis 0)

/-- Dimension `axis` of the output. -/
def slicedDim (b : SliceBounds) (axis : Nat) (d : Dimension) : Dimension :=
  match b.strides[axis]? with
  | none => d
  | some stride =>
    match d with
    | .dynamic => .dynamic
    | .fixed size =>
      .fixed (sliceLength size (maskedBound b.start b.startMask axis)
        (maskedBound b.stop b.stopMask axis) stride)

def stridedSlice (b : SliceBounds) (input : TensorType) : Except InferError TensorType :=
  if b.stop.length ≠ b.start.length ∨ b.strides.length ≠ b.start.length then
    .error (.invalidAttribute .boundsDiffer)
  else if b.strides.contains 0 then .error (.invalidAttribute .zeroStride)
  else match input.shape with
    | .unknown => .ok ⟨input.element, .unknown⟩
    | .ranked dims =>
      if dims.length < b.start.length then .error (.incorrectRank 0 dims.length)
      else .ok ⟨input.element, .ranked (dims.mapIdx (slicedDim b))⟩

end Infer
end TensorGraph
