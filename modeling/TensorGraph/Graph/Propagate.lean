import TensorGraph.Graph.Insert
import TensorGraph.Graph.Order
/-!
# Bringing types up to date

After an edit the types of some nodes have to be inferred again, and after them those of
the nodes that read an output whose type changed.  The nodes still to be visited are kept
as ranks in the dependency order, in ascending order, so that a node is visited after every
producer that is visited at all.

The new types are staged beside the graph, where they count before those in it.  They are
written when no node is pending any more; if a node refuses its inputs nothing is written.

A known value may change while its type does not, so the readers of a constant or of a
shape are always visited.
-/
namespace TensorGraph

/-- Put a rank into an ascending list, once. -/
def insertRank (rank : Nat) : List Nat → List Nat
  | [] => [rank]
  | r :: rs =>
    if rank < r then rank :: r :: rs
    else if rank = r then r :: rs
    else r :: insertRank rank rs

/-- The state of a propagation: the graph, the types that are staged, the ranks still to
visit, and the nodes visited so far; of types and nodes the latest come first. -/
structure Propagation where
  graph : Graph
  staged : List (ValueId × TensorType)
  pending : List Nat
  visited : List NodeId

namespace Graph

/-- Rank of each node in an order, by node slot. -/
def rankTable (g : Graph) (order : List NodeId) : Array (Option Nat) :=
  order.zipIdx.foldl (fun table (id, rank) => table.setIfInBounds id.index (some rank))
    (Array.replicate g.nodeSlots none)

end Graph

namespace Propagation

/-- The type that was staged last for a value, or else the one in the graph. -/
def type? (p : Propagation) (id : ValueId) : Option TensorType := (p.staged.lookup id).or (p.graph.type? id)

/-- Write the staged types to the graph. -/
def commit (p : Propagation) : Graph := p.staged.foldr (fun e g => g.setType e.1 e.2) p.graph

/-- Stage the type of an output; its readers become pending if the type differs from the
present one, or if they are to be visited in any case. -/
def stage (rank? : NodeId → Option Nat) (always : Bool) (p : Propagation) (output : ValueId × TensorType) :
    Propagation :=
  if p.type? output.1 = some output.2 && !always then p
  else { p with
    staged := output :: p.staged
    pending := ((p.graph.usesOf output.1).filterMap (fun u => rank? u.node)).foldr insertRank p.pending }

def visit (rank? : NodeId → Option Nat) (p : Propagation) (id : NodeId) : Except ValidationError Propagation :=
  match p.graph.node? id with
  | none => .ok p
  | some node =>
    match p.graph.inferOutputsUnder p.type? node.op node.inputs with
    | .error cause => .error (.op node.op.type (some id) cause)
    | .ok types =>
      if types.length ≠ node.outputs.length then
        .error (.op node.op.type (some id) (.outputCountMismatch node.outputs.length types.length))
      else
        .ok ((node.outputs.zip types).foldl (stage rank? node.op.hasKnownValue)
          { p with visited := id :: p.visited })

/-- Visit pending nodes, lowest rank first, until none is left. -/
def run (order : Array NodeId) (rank? : NodeId → Option Nat) :
    Nat → Propagation → Except ValidationError Propagation
  | 0, p => .ok p
  | fuel + 1, p =>
    match p.pending with
    | [] => .ok p
    | rank :: rest =>
      match order[rank]? with
      | none => run order rank? fuel { p with pending := rest }
      | some id => do
        let p ← visit rank? { p with pending := rest } id
        run order rank? fuel p

end Propagation

namespace Graph

/-- The propagation that starts at `seeds`.  Every node is visited at most once, so the
length of the order bounds the number of visits. -/
def propagation (g : Graph) (seeds : List NodeId) : Except ValidationError Propagation :=
  let order := g.walkOrder
  let table := g.rankTable order
  let rank? := fun id : NodeId => table[id.index]?.join
  Propagation.run order.toArray rank? order.length ⟨g, [], (seeds.filterMap rank?).foldr insertRank [], []⟩

/-- Infer the types of `seeds` again, and of the nodes downstream as far as types change. -/
def propagate (g : Graph) (seeds : List NodeId) : Except ValidationError Graph :=
  (g.propagation seeds).map Propagation.commit

/-- Infer the types of one node again, and of the nodes downstream as far as types change. -/
def revalidate (g : Graph) (id : NodeId) : Except ValidationError Graph :=
  if (g.node? id).isNone then .error (.invalidNode id) else g.propagate [id]

def inferAll (g : Graph) : Except ValidationError Graph := g.propagate g.nodeIds

end Graph
end TensorGraph
