import TensorGraph.Graph.Construction
/-!
# Steps for fitting a graph to a target

`flatCrop` cuts columns out of a matrix.  `transposeOrderMatches` asks whether a node is a
transposition with a given order of axes, whichever way its order is written.
-/
namespace TensorGraph

/-- The slice that keeps every row and the columns from `offset` on, `size` of them.  Both
are read as signed 64-bit words. -/
def columnSlice (offset size : Nat) : SliceBounds where
  start := [0, Axis.signedWord offset]
  stop := [0, Axis.signedWord offset + Axis.signedWord size]
  strides := [1, 1]
  startMask := [true, false]
  stopMask := [true, false]

/-- Cut columns out of a matrix. -/
def Construction.flatCrop (input : ValueId) (offset size : Nat) : Attempted ValidationError ValueId :=
  addValue none (.stridedSlice (columnSlice offset size)) [input]

namespace Graph

/-- Rank of the first input of a node. -/
def inputRank? (g : Graph) (node : Node) : Option Nat :=
  (node.inputs.head?.bind g.type?).bind TensorType.rank?

/-- The node reverses the axes, and `order` is the reversed order of the right length. -/
def reversesAs (g : Graph) (node : Node) (order : List Nat) : Bool :=
  g.inputRank? node = some order.length && order = (List.range order.length).reverse

/-- Axes held as integers are the given order. -/
def axesAre (axes : List Int) (order : List Nat) : Bool := axes = order.map Int.ofNat

/-- The node is a transposition with this order of axes.  An order that is not written down
is the reversed one; an order in a second input is only known if it is a constant. -/
def transposeOrderMatches (g : Graph) (id : NodeId) (order : List Nat) : Bool :=
  match g.node? id with
  | none => false
  | some node =>
    match node.op with
    | .transpose written =>
      match node.inputs[1]? with
      | some vector =>
        match (g.producer? vector).map Node.op with
        | some (.constant c) =>
          match c.data.ints? with
          | none => false
          | some [] => g.reversesAs node order
          | some axes => axesAre axes order
        | _ => false
      | none =>
        match written with
        | some written => written = order
        | none => g.reversesAs node order
    | _ => false

end Graph
end TensorGraph
