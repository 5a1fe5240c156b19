import TensorGraph.Pattern.Predicate
/-!
# Pattern — descriptions of subgraphs

A pattern is a small graph of its own.  Each of its nodes is a condition on a value:
- `any` holds of every value;
- `op` holds of the outputs of certain operations whose inputs satisfy sub-patterns, all of
  them or only the leading ones;
- `label` names the value, and occurrences of one name have to be one value;
- `either` holds if one of its alternatives does;
- `branch` stands for another node of the pattern, possibly one created later, so that a
  pattern can describe repeated structure;
- `guard` adds a predicate.

`PatternBuilder` collects nodes; any identifier may be used in it, existing or not.
`PatternBuilder.build` checks what is reachable from the root and is the only way to a
`Pattern` that can be trusted: it refuses missing nodes, branches that lead nowhere, and
cycles that would come back to the same value.
-/
namespace TensorGraph

structure PatternId where
  index : Nat
  deriving DecidableEq, Inhabited

def PatternId.text (id : PatternId) : String := toString id.index

inductive PatternNode where
  | any
  /-- `openEnded` allows the operation more inputs than there are patterns for. -/
  | op (types : List OpType) (inputs : List PatternId) (openEnded : Bool)
  | label (name : String) (inner : PatternId)
  | either (alternatives : List PatternId)
  | branch (destination : Option PatternId)
  | guard (inner : PatternId) (predicate : Predicate)

namespace PatternNode

/-- The nodes that are matched against the same value as this one. -/
def sameValueChildren : PatternNode → List PatternId
  | any | op _ _ _ => []
  | label _ inner | guard inner _ => [inner]
  | either alternatives => alternatives
  | branch destination => destination.toList

/-- The nodes that this one refers to. -/
def children : PatternNode → List PatternId
  | op _ inputs _ => inputs
  | node => node.sameValueChildren

end PatternNode

inductive PatternError where
  | invalidId (id : PatternId)
  | notABranch (id : PatternId)
  | unresolvedBranch (id : PatternId)
  /-- The cycle contains no operation, so a match would come back to the same value. -/
  | unguardedCycle (id : PatternId)
  deriving DecidableEq

def PatternError.message : PatternError → String
  | invalidId id => "pattern node " ++ id.text ++ " does not exist"
  | notABranch id => "pattern node " ++ id.text ++ " is not a branch"
  | unresolvedBranch id => "branch " ++ id.text ++ " has no destination"
  | unguardedCycle id => "cycle through pattern node " ++ id.text ++ " does not contain an op pattern"

structure Pattern where
  nodes : Array PatternNode
  root : PatternId

def Pattern.node? (p : Pattern) (id : PatternId) : Option PatternNode := p.nodes[id.index]?

structure PatternBuilder where
  nodes : Array PatternNode

namespace PatternBuilder

def empty : PatternBuilder := ⟨#[]⟩

def node? (b : PatternBuilder) (id : PatternId) : Option PatternNode := b.nodes[id.index]?

/-- Add a node; it takes the next identifier. -/
def push (b : PatternBuilder) (node : PatternNode) : PatternId × PatternBuilder :=
  (⟨b.nodes.size⟩, ⟨b.nodes.push node⟩)

/-- Say where a branch leads. -/
def setDestination (b : PatternBuilder) (branch destination : PatternId) :
    Except PatternError PatternBuilder :=
  if (b.node? destination).isNone then .error (.invalidId destination)
  else match b.node? branch with
    | some (.branch _) => .ok ⟨b.nodes.setIfInBounds branch.index (.branch (some destination))⟩
    | some _ => .error (.notABranch branch)
    | none => .error (.invalidId branch)

end PatternBuilder

/-- A construction of a pattern, node by node. -/
abbrev Sketch := StateM PatternBuilder

namespace Sketch

def push (node : PatternNode) : Sketch PatternId := fun b => b.push node

def any : Sketch PatternId := push .any

def guard (inner : PatternId) (predicate : Predicate) : Sketch PatternId := push (.guard inner predicate)

/-- Any value for which the predicate holds. -/
def anyWhere (predicate : Predicate) : Sketch PatternId := do guard (← any) predicate

/-- An output of one of the operations, with these inputs and no others. -/
def opOf (types : List OpType) (inputs : List PatternId) : Sketch PatternId :=
  push (.op types inputs false)

/-- An output of the operation, with these inputs and no others. -/
def op (type : OpType) (inputs : List PatternId) : Sketch PatternId := opOf [type] inputs

/-- An output of the operation whose first inputs are these. -/
def opWithLeadingInputs (type : OpType) (inputs : List PatternId) : Sketch PatternId :=
  push (.op [type] inputs true)

def constant : Sketch PatternId := op .constant []

def label (name : String) (inner : PatternId) : Sketch PatternId := push (.label name inner)

def either (alternatives : List PatternId) : Sketch PatternId := push (.either alternatives)

def branch : Sketch PatternId := push (.branch none)

end Sketch
end TensorGraph
