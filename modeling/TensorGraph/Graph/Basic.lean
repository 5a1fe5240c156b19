import TensorGraph.Op.Error
import TensorGraph.Registry
/-!
# Graph — nodes, values and the edges between them

Nodes and values live in slots that are numbered in the order of creation.  A slot whose
node or value was removed stays empty, so no number is ever used twice.

An edge is stored at both ends: a node lists the values it reads, and a value lists its
uses, one per input position, in the order in which they came about.  `verify` says what
the two sides owe each other.
-/
namespace TensorGraph

structure NodeId where
  index : Nat
  deriving DecidableEq, Inhabited

structure ValueId where
  index : Nat
  deriving DecidableEq, Inhabited

/-- Identifiers are 32-bit words, of which the last one is kept free. -/
def idLimit : Nat := 0xFFFFFFFF

namespace NodeId

def ofNat? (n : Nat) : Option NodeId := if n < idLimit then some ⟨n⟩ else none

def text (id : NodeId) : String := toString id.index

def describe (id : NodeId) : String := "NodeId(" ++ id.text ++ ")"

end NodeId

namespace ValueId

def ofNat? (n : Nat) : Option ValueId := if n < idLimit then some ⟨n⟩ else none

def text (id : ValueId) : String := toString id.index

def describe (id : ValueId) : String := "ValueId(" ++ id.text ++ ")"

end ValueId

/-- An input position of a node that reads a value. -/
structure Use where
  node : NodeId
  input : Nat
  deriving DecidableEq

structure Node where
  name : Option String
  op : Op
  inputs : List ValueId
  outputs : List ValueId
  deriving DecidableEq

/-- An output of a node, with the type that was inferred for it. -/
structure Value where
  producer : NodeId
  /-- Position among the outputs of the producer. -/
  index : Nat
  type : TensorType
  uses : List Use
  deriving DecidableEq

/-- The number of distinct nodes that read the value. -/
def Value.consumerCount (v : Value) : Nat := (v.uses.map Use.node).eraseDups.length

structure Graph where
  name : Option String
  registry : Registry
  nodes : Array (Option Node)
  values : Array (Option Value)
  parameters : List ValueId
  results : List ValueId
  deriving DecidableEq

/-- Why a node cannot be added or re-inferred. -/
inductive ValidationError where
  | invalidValue (id : ValueId)
  | invalidNode (id : NodeId)
  /-- An operation refused its inputs; `node` is absent if it was never added. -/
  | op (op : OpType) (node : Option NodeId) (cause : InferError)
  deriving DecidableEq

def ValidationError.message : ValidationError → String
  | invalidValue id => "value " ++ id.text ++ " is not in the graph"
  | invalidNode id => "node " ++ id.text ++ " is not in the graph"
  | op type _ cause => type.name ++ ": " ++ cause.message

namespace Graph

def empty (registry : Registry) : Graph := ⟨none, registry, #[], #[], [], []⟩

def withName (g : Graph) (name : Option String) : Graph := { g with name := name }

/-! ## Reading -/

def node? (g : Graph) (id : NodeId) : Option Node := g.nodes[id.index]?.join

def value? (g : Graph) (id : ValueId) : Option Value := g.values[id.index]?.join

/-- Number of node identifiers given out so far. -/
def nodeSlots (g : Graph) : Nat := g.nodes.size

/-- Number of value identifiers given out so far. -/
def valueSlots (g : Graph) : Nat := g.values.size

def type? (g : Graph) (id : ValueId) : Option TensorType := (g.value? id).map Value.type

def producerId? (g : Graph) (id : ValueId) : Option NodeId := (g.value? id).map Value.producer

def producer? (g : Graph) (id : ValueId) : Option Node := (g.producerId? id).bind g.node?

def inputsOf (g : Graph) (id : NodeId) : List ValueId := ((g.node? id).map Node.inputs).getD []

/-- The nodes that values are outputs of. -/
def producersAmong (g : Graph) (values : List ValueId) : List NodeId := values.filterMap g.producerId?

def producersOf (g : Graph) (id : NodeId) : List NodeId := g.producersAmong (g.inputsOf id)

def usesOf (g : Graph) (id : ValueId) : List Use := ((g.value? id).map Value.uses).getD []

def consumerCount (g : Graph) (id : ValueId) : Nat := ((g.value? id).map Value.consumerCount).getD 0

def isResult (g : Graph) (id : ValueId) : Bool := g.results.contains id

/-- The identifiers of the nodes, in order of creation. -/
def nodeIds (g : Graph) : List NodeId :=
  ((List.range g.nodeSlots).map NodeId.mk).filter (fun id => (g.node? id).isSome)

/-- The identifiers of the values, in order of creation. -/
def valueIds (g : Graph) : List ValueId :=
  ((List.range g.valueSlots).map ValueId.mk).filter (fun id => (g.value? id).isSome)

def nodeCount (g : Graph) : Nat := g.nodeIds.length

/-- The number of input positions of all nodes. -/
def inputCount (g : Graph) : Nat :=
  g.nodes.foldl (fun n slot => n + ((slot.map Node.inputs).getD []).length) 0

/-! ## Writing to single slots -/

def modifyNode (g : Graph) (id : NodeId) (f : Node → Node) : Graph :=
  { g with nodes := g.nodes.modify id.index (Option.map f) }

def modifyValue (g : Graph) (id : ValueId) (f : Value → Value) : Graph :=
  { g with values := g.values.modify id.index (Option.map f) }

def dropNode (g : Graph) (id : NodeId) : Graph :=
  { g with nodes := g.nodes.modify id.index (fun _ => none) }

def dropValue (g : Graph) (id : ValueId) : Graph :=
  { g with values := g.values.modify id.index (fun _ => none) }

def setType (g : Graph) (id : ValueId) (type : TensorType) : Graph :=
  g.modifyValue id (fun v => { v with type := type })

/-- Assign an operation without asking whether it accepts its inputs; `revalidate` does. -/
def setOp (g : Graph) (id : NodeId) (op : Op) : Graph :=
  g.modifyNode id (fun n => { n with op := op })

def setResults (g : Graph) (results : List ValueId) : Except ValidationError Graph :=
  match results.find? (fun id => (g.value? id).isNone) with
  | some missing => .error (.invalidValue missing)
  | none => .ok { g with results := results }

end Graph
end TensorGraph
