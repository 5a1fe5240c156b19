import TensorGraph.Op.Inputs
/-!
# Products of matrices

An operand is read as a stack of matrices: its last two axes are the rows and columns, the
axes before them the stack.  A vector is read as one matrix of one row on the left and of
one column on the right; the axis made up for it does not appear in the output, and the
transposition flags do not apply to it.
-/
namespace TensorGraph
namespace Infer

/-- A tensor read as a stack of matrices. -/
structure Matrices where
  stack : List Dimension
  rows : Dimension
  columns : Dimension
  ofVector : Bool

def Matrices.transpose (m : Matrices) : Matrices := { m with rows := m.columns, columns := m.rows }

/-- Read an operand; a vector is a row, and a scalar cannot be read. -/
def Matrices.ofDims? (flip : Bool) (dims : List Dimension) : Option Matrices :=
  match dims.reverse with
  | [] => none
  | [d] => some ⟨[], .fixed 1, d, true⟩
  | columns :: rows :: stack =>
    let m : Matrices := ⟨stack.reverse, rows, columns, false⟩
    some (if flip then m.transpose else m)

/-- The right operand; a vector is a column. -/
def Matrices.ofRightDims? (flip : Bool) (dims : List Dimension) : Option Matrices :=
  (ofDims? flip dims).map (fun m => if m.ofVector then m.transpose else m)

/-- Axes of the product, without those made up for vectors. -/
def Matrices.productDims (a b : Matrices) (stack : List Dimension) : List Dimension :=
  stack ++ (if a.ofVector then [] else [a.rows]) ++ (if b.ofVector then [] else [b.columns])

def matMul (transposeA transposeB : Bool) (a b : TensorType) : Except InferError TensorType := do
  let element ← mergeElements [a, b]
  match a.shape, b.shape with
  | .ranked aDims, .ranked bDims =>
    match Matrices.ofDims? transposeA aDims, Matrices.ofRightDims? transposeB bDims with
    | none, _ => throw (.incorrectRank 0 0)
    | some _, none => throw (.incorrectRank 1 0)
    | some x, some y =>
      let mismatch := fun _ : Conflict => InferError.incompatibleShapes a.shape b.shape
      let _ ← (x.columns.merge y.rows).mapError mismatch
      let stack ← ((Shape.ranked x.stack).broadcast (.ranked y.stack)).mapError mismatch
      return ⟨element, .ranked (x.productDims y (stack.dims?.getD []))⟩
  | _, _ => return ⟨element, .unknown⟩

end Infer
end TensorGraph
