import TensorGraph.Digraph
import TensorGraph.Pattern.Basic
/-!
# Checking a pattern

`reachable` collects the nodes that the root refers to, directly or not, and stops at an
identifier without a node and at a branch without a destination.  `acyclic` then walks the
edges along which the value stays the same, from every reachable node; a cycle of such edges
consumes no structure of the graph.  Cycles through an operation are harmless: each round
moves on to the inputs of a node.
-/
namespace TensorGraph
namespace PatternBuilder

/-- The edges from each node to the nodes it refers to. -/
def references (b : PatternBuilder) : Digraph :=
  ⟨b.nodes.map (fun node => node.children.map PatternId.index)⟩

/-- The edges along which the value stays the same. -/
def sameValueEdges (b : PatternBuilder) : Digraph :=
  ⟨b.nodes.map (fun node => node.sameValueChildren.map PatternId.index)⟩

/-- What is wrong with an identifier that the root refers to. -/
def fault? (b : PatternBuilder) (id : PatternId) : Option PatternError :=
  match b.node? id with
  | none => some (.invalidId id)
  | some (.branch none) => some (.unresolvedBranch id)
  | some _ => none

/-- The nodes that the root refers to; refused at the first fault. -/
def reachable (b : PatternBuilder) (root : PatternId) : Except PatternError Reach :=
  let r := b.references.reach [root.index]
  match r.visited.toList.findSome? (fun i => b.fault? ⟨i⟩) with
  | some e => .error e
  | none => .ok r

/-- Refuse a cycle of same-value edges among the reachable nodes. -/
def acyclic (b : PatternBuilder) (r : Reach) : Except PatternError Unit :=
  match (b.sameValueEdges.walkAll ((List.range b.nodes.size).filter r.contains)).cycle with
  | some i => .error (.unguardedCycle ⟨i⟩)
  | none => .ok ()

/-- The pattern with this root, if what the root refers to is in order. -/
def build (b : PatternBuilder) (root : PatternId) : Except PatternError Pattern := do
  let r ← b.reachable root
  b.acyclic r
  return ⟨b.nodes, root⟩

end PatternBuilder

/-- Build the pattern whose root a sketch ends with. -/
def Sketch.build (sketch : Sketch PatternId) : Except PatternError Pattern :=
  let (root, b) := sketch.run PatternBuilder.empty
  b.build root

end TensorGraph
