import TensorGraph.Digraph
import TensorGraph.Graph.Order
/-!
# Removing nodes

A node can go once none of its outputs is used and none is a result; its uses of other
values go with it.  Two collectors build on this:
- `removeDead` starts from candidates and follows the inputs of every node it removes,
  since a producer may have lost its last reader;
- `prune` removes whatever no result depends on, readers before producers.

Parameters are kept by both.
-/
namespace TensorGraph
namespace Graph

/-- Nobody reads the value and it is no result. -/
def isUnused (g : Graph) (id : ValueId) : Bool :=
  !g.isResult id && (g.usesOf id).isEmpty

/-- Forget the uses that a node makes of a value. -/
def forgetUses (g : Graph) (node : NodeId) (id : ValueId) : Graph :=
  g.modifyValue id (fun v => { v with uses := v.uses.filter (fun u => u.node ≠ node) })

/-- There is such a node, and its outputs are unused. -/
def isRemovable (g : Graph) (id : NodeId) : Bool :=
  ((g.node? id).map (fun node => node.outputs.all g.isUnused)).getD false

/-- Take out a node with its outputs and the uses it makes of other values. -/
def takeOut (g : Graph) (id : NodeId) (node : Node) : Graph :=
  let g := node.inputs.foldl (fun g v => g.forgetUses id v) (g.dropNode id)
  let g := node.outputs.foldl dropValue g
  { g with parameters := g.parameters.filter (fun p => !node.outputs.contains p) }

def remove (g : Graph) (id : NodeId) : Graph :=
  match g.node? id with
  | some node => if node.outputs.all g.isUnused then g.takeOut id node else g
  | none => g

/-- The node serves no result: it is no parameter and its outputs are unused. -/
def isDead (g : Graph) (node : Node) : Bool :=
  node.op.type ≠ .parameter && node.outputs.all (fun id => (g.value? id).isSome && g.isUnused id)

/-- Empty the stack of candidates; the nodes removed come last first. -/
def removeDeadFrom : Nat → List NodeId → Graph × List NodeId → Graph × List NodeId
  | 0, _, s => s
  | _, [], s => s
  | fuel + 1, id :: stack, (g, removed) =>
    match g.node? id with
    | none => removeDeadFrom fuel stack (g, removed)
    | some node =>
      if g.isDead node then
        let producers := g.producersAmong node.inputs
        removeDeadFrom fuel (producers.reverse ++ stack) (g.takeOut id node, id :: removed)
      else removeDeadFrom fuel stack (g, removed)

/-- Remove the dead nodes among the candidates, the last candidate first, and whatever dies
with them.  The answer lists the removed nodes in order. -/
def removeDead (g : Graph) (candidates : List NodeId) : Graph × List NodeId :=
  let (g, removed) := removeDeadFrom (g.inputCount + candidates.length) candidates.reverse (g, [])
  (g, removed.reverse)

/-! ## Pruning -/

/-- The nodes among `roots` and those they depend on. -/
def neededBy (g : Graph) (roots : List NodeId) : Reach :=
  g.dependencies.reach (roots.map NodeId.index)

/-- The value depends, directly or not, on one of the nodes. -/
def dependsOnAny (g : Graph) (value : ValueId) (nodes : List NodeId) : Bool :=
  let above := g.neededBy (g.producerId? value).toList
  nodes.any (fun id => above.contains id.index)

def removeCounting : Graph × Nat → NodeId → Graph × Nat
  | (g, count), id => if g.isRemovable id then (g.remove id, count + 1) else (g, count)

/-- Remove every node that no result depends on; the answer tells how many there were. -/
def prune (g : Graph) : Graph × Nat :=
  let live := g.neededBy (g.results.filterMap g.producerId?)
  let unreachable := g.walkOrder.reverse.filter (fun id =>
    !live.contains id.index && decide ((g.node? id).map (·.op.type) ≠ some .parameter))
  unreachable.foldl removeCounting (g, 0)

end Graph
end TensorGraph
