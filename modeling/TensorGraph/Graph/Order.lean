import TensorGraph.Digraph
import TensorGraph.Graph.Basic
/-!
# Dependency order

`dependencyOrder` lists the nodes so that each comes after the producers of its inputs.  It
is the order in which a depth-first walk along the dependencies finishes the nodes, where
the walk starts from every node in order of creation.
-/
namespace TensorGraph

/-- What is structurally wrong with a graph. -/
inductive GraphError where
  | cycle (node : NodeId)
  | missingProducer (value : ValueId)
  | missingInput (node : NodeId) (input : Nat) (value : ValueId)
  | inconsistentUses (value : ValueId)
  deriving DecidableEq

def GraphError.message : GraphError → String
  | cycle node => "graph contains a cycle through node " ++ node.text
  | missingProducer value => "value " ++ value.text ++ " has no producer"
  | missingInput node input value =>
    "input " ++ toString input ++ " of node " ++ node.text ++ " refers to missing value " ++ value.text
  | inconsistentUses value =>
    "consumer edges of value " ++ value.text ++ " do not match node inputs"

namespace Graph

/-- The edges from each node to the producers of its inputs. -/
def dependencies (g : Graph) : Digraph :=
  ⟨g.nodes.map (fun slot =>
    match slot with
    | some node => (g.producersAmong node.inputs).map NodeId.index
    | none => [])⟩

/-- Walk from every node in order of creation. -/
def fullWalk (g : Graph) : Walk := g.dependencies.walkAll (g.nodeIds.map NodeId.index)

/-- The nodes in the order in which the walk finished them. -/
def walkOrder (g : Graph) : List NodeId := g.fullWalk.order.toList.map NodeId.mk

/-- Every node after the producers of its inputs; refused if there is a cycle. -/
def dependencyOrder (g : Graph) : Except GraphError (List NodeId) :=
  let w := g.fullWalk
  match w.cycle with
  | some i => .error (.cycle ⟨i⟩)
  | none => .ok (w.order.toList.map NodeId.mk)

end Graph
end TensorGraph
