import TensorGraph.Graph.Basic
import TensorGraph.Op.Infer
/-!
# Adding nodes

A node enters a graph if its operation is registered, its inputs are values of the graph
and the operation accepts their types and whatever is known of their values.  Otherwise the
graph stays as it is.  The new node and its outputs take the next free slots, and every
input position is entered as a use at the end of the list of uses of its value.

Two operations have outputs whose value is known before the graph runs: a constant, and
the shape of a value whose shape is static.  Types and values are looked up under the types
that the values have, or under others that are to replace some of these.
-/
namespace TensorGraph
namespace Graph

/-- The value of `id`, if it is known before the graph runs; `type?` tells the types to go by. -/
def knownValueUnder? (g : Graph) (type? : ValueId → Option TensorType) (id : ValueId) : Option ConstantData :=
  match g.producer? id with
  | none => none
  | some node =>
    match node.op, node.inputs with
    | .constant c, _ => some c.data
    | .shapeOf output, input :: _ => (type? input).bind (Infer.sizesOf? output)
    | _, _ => none

/-- The value of `id`, if it is known before the graph runs. -/
def knownValue? (g : Graph) (id : ValueId) : Option ConstantData := g.knownValueUnder? g.type? id

/-- The types of `inputs`; `index` is the position of the first of them. -/
def inputTypes (type? : ValueId → Option TensorType) : Nat → List ValueId → Except InferError (List TensorType)
  | _, [] => .ok []
  | index, id :: rest =>
    match type? id with
    | none => .error (.invalidInput index)
    | some type => do
      let types ← inputTypes type? (index + 1) rest
      return type :: types

/-- Output types of an operation on values of the graph; `type?` tells the types to go by. -/
def inferOutputsUnder (g : Graph) (type? : ValueId → Option TensorType) (op : Op) (inputs : List ValueId) :
    Except InferError (List TensorType) := do
  let types ← inputTypes type? 0 inputs
  op.validate types (inputs.map (g.knownValueUnder? type?))

/-- Output types of an operation on values of the graph. -/
def inferOutputs (g : Graph) (op : Op) (inputs : List ValueId) : Except InferError (List TensorType) :=
  g.inferOutputsUnder g.type? op inputs

theorem inferOutputs_eq (g : Graph) (op : Op) (inputs : List ValueId) : g.inferOutputs op inputs = (do
    let types ← inputTypes g.type? 0 inputs
    op.validate types (inputs.map g.knownValue?)) := rfl

def addUse (g : Graph) (id : ValueId) (u : Use) : Graph :=
  g.modifyValue id (fun v => { v with uses := v.uses ++ [u] })

/-- The next `count` free value identifiers. -/
def freshValues (g : Graph) (count : Nat) : List ValueId :=
  (List.range count).map (fun i => ⟨g.valueSlots + i⟩)

/-- The input positions of node `id`, each with the value it reads. -/
def inputUses (id : NodeId) (inputs : List ValueId) : List (ValueId × Use) :=
  inputs.mapIdx (fun i v => (v, ⟨id, i⟩))

/-- Add a node without asking any questions. -/
def appendNode (g : Graph) (name : Option String) (op : Op) (inputs : List ValueId)
    (types : List TensorType) : Graph :=
  let id : NodeId := ⟨g.nodeSlots⟩
  let grown : Graph := { g with
    nodes := g.nodes.push (some ⟨name, op, inputs, g.freshValues types.length⟩)
    values := g.values ++ types.mapIdx (fun i type => some (⟨id, i, type, []⟩ : Value)) }
  (inputUses id inputs).foldl (fun g (v, u) => g.addUse v u) grown

/-- Add a node; the answer names the node and its first output. -/
def insert (g : Graph) (name : Option String) (op : Op) (inputs : List ValueId) :
    Except ValidationError (NodeId × ValueId × Graph) :=
  if !g.registry.contains op.type then .error (.op op.type none (.unsupportedOp op.type))
  else
    match g.inferOutputs op inputs with
    | .error cause => .error (.op op.type none cause)
    | .ok [] => .error (.op op.type none (.outputCountMismatch 1 0))
    | .ok types => .ok (⟨g.nodeSlots⟩, ⟨g.valueSlots⟩, g.appendNode name op inputs types)

def addParameter (g : Graph) (name : Option String) (type : TensorType) :
    Except ValidationError (ValueId × Graph) :=
  match g.insert name (.parameter type) [] with
  | .error e => .error e
  | .ok (_, value, g) => .ok (value, { g with parameters := g.parameters ++ [value] })

def addConstant (g : Graph) (name : Option String) (c : Constant) :
    Except ValidationError (ValueId × Graph) :=
  (g.insert name (.constant c) []).map Prod.snd

def addValue (g : Graph) (name : Option String) (op : Op) (inputs : List ValueId) :
    Except ValidationError (ValueId × Graph) :=
  (g.insert name op inputs).map Prod.snd

end Graph
end TensorGraph
