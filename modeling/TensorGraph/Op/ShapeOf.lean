import TensorGraph.Op.Inputs
/-!
# The shape of a tensor as a tensor

`shapeOf` types the vector of sizes; `sizesOf?` is its value, known as soon as the shape is
static and every size fits the integer type.
-/
namespace TensorGraph
namespace Infer

def shapeOf (output : ElementType) (input : TensorType) : Except InferError TensorType :=
  if output = .i32 ∨ output = .i64 then
    .ok ⟨output, .ranked [match input.rank? with
      | some rank => .fixed rank
      | none => .dynamic]⟩
  else .error (.invalidAttribute (.notAnIndexType output))

/-- A size as an element, if it is below `bound`. -/
def sizeBelow? {α : Type} (bound : Nat) (ofNat : Nat → α) (size : Nat) : Option α :=
  if size < bound then some (ofNat size) else none

def sizesOf? (output : ElementType) (input : TensorType) : Option ConstantData :=
  match input.shape.sizes? with
  | none => none
  | some sizes =>
    if output = .i32 then
      (sizes.mapM (sizeBelow? 0x80000000 Int32.ofNat)).map .i32
    else
      (sizes.mapM (sizeBelow? signedLimit Int64.ofNat)).map .i64

end Infer
end TensorGraph
