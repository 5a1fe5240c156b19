import TensorGraph.Graph.Construction
/-!
# Expansions of composite operations

A composite operation is defined as an arrangement of simpler ones:
- `hardSigmoid x alpha beta` is `min (max (alpha · x + beta) 0) 1`, where 0 and 1 are
  scalars of the element type of `x`;
- `fusedMultiplyAdd a b c` is `a · b + c`.

An expansion is a construction.  Both take exactly three inputs, and the first fails if
there are no constants of its element type.
-/
namespace TensorGraph
namespace Expansion

open Construction (addValue)

/-- An elementwise operation on two values, with broadcasting. -/
def elementwise (op : BinaryOp) (lhs rhs : ValueId) : Attempted ValidationError ValueId :=
  addValue none (.binary op .numpy) [lhs, rhs]

/-- A scalar constant of the given element type. -/
def scalarOf (type : ElementType) (x : Double) : Except ValidationError Constant :=
  match ConstantData.splat? type x with
  | some data => .ok (.scalar data)
  | none => .error (.op .hardSigmoid none (.unsupportedElementType 0 type))

def hardSigmoidOf (x alpha beta : ValueId) : Attempted ValidationError ValueId := do
  let some type := (← (Construction.graph : Construction Graph)).type? x
    | throw (ValidationError.invalidValue x)
  let zeroScalar ← ExceptT.mk (pure (scalarOf type.element .zero))
  let zero ← addValue none (.constant zeroScalar) []
  let oneScalar ← ExceptT.mk (pure (scalarOf type.element .one))
  let one ← addValue none (.constant oneScalar) []
  let scaled ← elementwise .multiply alpha x
  let shifted ← elementwise .add scaled beta
  let lower ← elementwise .maximum shifted zero
  elementwise .minimum lower one

def fusedMultiplyAddOf (a b c : ValueId) : Attempted ValidationError ValueId := do
  let product ← elementwise .multiply a b
  elementwise .add product c

/-- Apply a construction on three values to a list of three. -/
def onThree (op : OpType) (expand : ValueId → ValueId → ValueId → Attempted ValidationError ValueId)
    (inputs : List ValueId) : Attempted ValidationError ValueId :=
  match inputs with
  | [a, b, c] => expand a b c
  | _ => throw (.op op none (.incorrectInputCount (.exact 3) inputs.length))

end Expansion

/-- The expansion of an operation, if it is composite. -/
def Op.expansion? : Op → Option (List ValueId → Attempted ValidationError ValueId)
  | .hardSigmoid => some (Expansion.onThree .hardSigmoid Expansion.hardSigmoidOf)
  | .fusedMultiplyAdd => some (Expansion.onThree .fusedMultiplyAdd Expansion.fusedMultiplyAddOf)
  | _ => none

end TensorGraph
