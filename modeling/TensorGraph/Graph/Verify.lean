import TensorGraph.Graph.Order
/-!
# Structural checks

`verify` refuses a graph in which
- a node reads a value that is not there,
- a value is not the output of its producer at its index, or its uses are not the input
  positions that read it, in any order,
- a result or a parameter is not there,
- or a node depends on itself.

The first fault in this order is reported.
-/
namespace TensorGraph
namespace Graph

/-- The first input position of a node that reads a missing value. -/
def missingInput? (g : Graph) (id : NodeId) : Option GraphError :=
  (g.inputsOf id).zipIdx.findSome? (fun (v, i) =>
    if (g.value? v).isNone then some (.missingInput id i v) else none)

/-- By value slot, the input positions that read the value. -/
def readTable (g : Graph) : Array (List Use) :=
  g.nodeIds.foldl (fun table id =>
      (g.inputsOf id).zipIdx.foldl (fun table (v, i) => table.modify v.index (⟨id, i⟩ :: ·)) table)
    (Array.replicate g.valueSlots [])

/-- The value is an output of its producer, at its index. -/
def isProduced (g : Graph) (id : ValueId) (v : Value) : Bool :=
  ((g.node? v.producer).map (fun n => decide (n.outputs[v.index]? = some id))).getD false

/-- What is wrong with a value. -/
def valueFault? (g : Graph) (reads : Array (List Use)) (id : ValueId) : Option GraphError :=
  match g.value? id with
  | none => none
  | some v =>
    if !g.isProduced id v then some (.missingProducer id)
    else if v.uses.isPerm (reads.getD id.index []) then none
    else some (.inconsistentUses id)

/-- The first structural fault apart from cycles. -/
def fault? (g : Graph) : Option GraphError :=
  let reads := g.readTable
  ((g.nodeIds.findSome? g.missingInput?).or
    (g.valueIds.findSome? (g.valueFault? reads))).or
    ((g.results ++ g.parameters).findSome? (fun id =>
      if (g.value? id).isNone then some (.missingProducer id) else none))

def verify (g : Graph) : Except GraphError Unit :=
  match g.fault? with
  | some e => .error e
  | none => g.dependencyOrder.map (fun _ => ())

end Graph
end TensorGraph
