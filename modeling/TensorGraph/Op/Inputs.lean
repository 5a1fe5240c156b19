import TensorGraph.Op.Error
/-!
# What the rules share about their inputs

A rule takes the input list apart itself, so that it can be asked about any list; a list
of the wrong length is refused with the length that was expected.
-/
namespace TensorGraph
namespace Infer

def one (inputs : List TensorType) : Except InferError TensorType :=
  match inputs with
  | [x] => .ok x
  | _ => .error (.incorrectInputCount (.exact 1) inputs.length)

def two (inputs : List TensorType) : Except InferError (TensorType × TensorType) :=
  match inputs with
  | [x, y] => .ok (x, y)
  | _ => .error (.incorrectInputCount (.exact 2) inputs.length)

def three (inputs : List TensorType) : Except InferError (TensorType × TensorType × TensorType) :=
  match inputs with
  | [x, y, z] => .ok (x, y, z)
  | _ => .error (.incorrectInputCount (.exact 3) inputs.length)

/-- One input, and perhaps a second one. -/
def oneOrTwo (inputs : List TensorType) : Except InferError (TensorType × Option TensorType) :=
  match inputs with
  | [x] => .ok (x, none)
  | [x, y] => .ok (x, some y)
  | _ => .error (.incorrectInputCount (.range 1 2) inputs.length)

/-- Join one more element type to those seen so far. -/
def joinElement (seen : ElementType) (input : TensorType) : Except InferError ElementType :=
  (seen.merge input.element).mapError (fun _ => .incompatibleElementTypes seen input.element)

/-- The element type that all inputs agree on. -/
def mergeElements (inputs : List TensorType) : Except InferError ElementType :=
  inputs.foldlM joinElement .dynamic

/-- The integers that input `index` is known to hold. -/
def knownInts? (values : List (Option ConstantData)) (index : Nat) : Option (List Int) :=
  values[index]?.join.bind ConstantData.ints?

/-- An element type that can hold sizes or axes, or may turn out to. -/
def holdsInts (type : ElementType) : Bool := type.isIntegral || type.isDynamic

/-- An input that holds a list of integers is a vector of an integer type. -/
def checkIntVector (input : TensorType) (index : Nat) : Except InferError Unit :=
  if !holdsInts input.element then .error (.unsupportedElementType index input.element)
  else match input.rank? with
    | some rank => if rank = 1 then .ok () else .error (.incorrectRank index rank)
    | none => .ok ()

def vectorLength? (input : TensorType) : Option Nat :=
  match input.shape with
  | .ranked [d] => d.size?
  | _ => none

/-- A shape of which at most the rank is known. -/
def shapeOfRank? (rank : Option Nat) : Shape := rank.elim .unknown Shape.ofRank

/-- Number of elements that dimensions make up. -/
def product (dims : List Dimension) : Except InferError Dimension :=
  match Dimension.product? dims with
  | some d => .ok d
  | none => .error (.sizeOverflow (.ranked dims))

end Infer
end TensorGraph
