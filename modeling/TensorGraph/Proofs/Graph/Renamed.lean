import TensorGraph.Proofs.Digraph.Renamed
import TensorGraph.Proofs.Graph.Insert
import TensorGraph.Proofs.Graph.Order
import TensorGraph.Proofs.Graph.Redirect
import TensorGraph.Proofs.Graph.Remove
/-!
# Renamed — the same graph under other numbers

`Renamed s g h` says that `h` is `g` with the numbers of nodes and values changed by `s`, which keeps
their order, and perhaps with empty slots in between.  Whatever is looked up or inferred is the same;
whatever is written keeps the relation; and the next free slots correspond, so it still holds after
nodes were added on both sides.
-/
namespace TensorGraph

/-- New numbers for nodes and values, in the same order. -/
structure Renaming where
  node : Nat → Nat
  value : Nat → Nat
  node_strictMono : StrictMono node
  value_strictMono : StrictMono value

namespace Renaming

variable (s : Renaming)

def onNode (id : NodeId) : NodeId := ⟨s.node id.index⟩

def onValue (v : ValueId) : ValueId := ⟨s.value v.index⟩

def onUse (u : Use) : Use := ⟨s.onNode u.node, u.input⟩

/-- A node that reads and gives the renamed values. -/
def nodeOf (n : Node) : Node := { n with inputs := n.inputs.map s.onValue, outputs := n.outputs.map s.onValue }

/-- A value with renamed producer and readers. -/
def valueOf (val : Value) : Value := { val with producer := s.onNode val.producer, uses := val.uses.map s.onUse }

@[simp] theorem onNode_inj {a b : NodeId} : s.onNode a = s.onNode b ↔ a = b :=
  ⟨fun h => NodeId.ext (s.node_strictMono.injective (congrArg NodeId.index h)), congrArg _⟩

@[simp] theorem onValue_inj {v w : ValueId} : s.onValue v = s.onValue w ↔ v = w :=
  ⟨fun h => ValueId.ext (s.value_strictMono.injective (congrArg ValueId.index h)), congrArg _⟩

@[simp] theorem onUse_inj {u u' : Use} : s.onUse u = s.onUse u' ↔ u = u' := by
  cases u; cases u'
  simp [onUse]

end Renaming

namespace Graph

/-- **The second graph is the first one under other numbers.** -/
structure Renamed (s : Renaming) (g h : Graph) : Prop where
  registry : h.registry = g.registry
  results : h.results = g.results.map s.onValue
  node? : ∀ id, h.node? (s.onNode id) = (g.node? id).map s.nodeOf
  value? : ∀ v, h.value? (s.onValue v) = (g.value? v).map s.valueOf
  node_old : ∀ id, (h.node? id).isSome = true → ∃ old, s.onNode old = id
  nodeSlots : ∀ k, s.node (g.nodeSlots + k) = h.nodeSlots + k
  valueSlots : ∀ k, s.value (g.valueSlots + k) = h.valueSlots + k

namespace Renamed

variable {s : Renaming} {g h : Graph}

/-! ## Looking up -/

theorem node_nodeSlots (hgh : Renamed s g h) : s.node g.nodeSlots = h.nodeSlots := hgh.nodeSlots 0

theorem value_valueSlots (hgh : Renamed s g h) : s.value g.valueSlots = h.valueSlots := hgh.valueSlots 0

theorem lt_nodeSlots (hgh : Renamed s g h) (i : Nat) : s.node i < h.nodeSlots ↔ i < g.nodeSlots := by
  rw [← hgh.node_nodeSlots]
  exact s.node_strictMono.lt_iff_lt

theorem type? (hgh : Renamed s g h) (v : ValueId) : h.type? (s.onValue v) = g.type? v := by
  rw [Graph.type?, Graph.type?, hgh.value?, Option.map_map]
  rfl

theorem producerId? (hgh : Renamed s g h) (v : ValueId) :
    h.producerId? (s.onValue v) = (g.producerId? v).map s.onNode := by
  rw [Graph.producerId?, Graph.producerId?, hgh.value?, Option.map_map, Option.map_map]
  rfl

theorem producer? (hgh : Renamed s g h) (v : ValueId) : h.producer? (s.onValue v) = (g.producer? v).map s.nodeOf := by
  rw [Graph.producer?, Graph.producer?, hgh.producerId?]
  cases g.producerId? v with
  | none => rfl
  | some id => exact hgh.node? id

theorem usesOf (hgh : Renamed s g h) (v : ValueId) : h.usesOf (s.onValue v) = (g.usesOf v).map s.onUse := by
  rw [Graph.usesOf, Graph.usesOf, hgh.value?]
  cases g.value? v <;> rfl

theorem producersAmong (hgh : Renamed s g h) (vs : List ValueId) :
    h.producersAmong (vs.map s.onValue) = (g.producersAmong vs).map s.onNode := by
  rw [Graph.producersAmong, Graph.producersAmong, List.filterMap_map, List.map_filterMap]
  exact List.filterMap_congr (fun v _ => hgh.producerId? v)

theorem producersOf (hgh : Renamed s g h) (id : NodeId) : h.producersOf (s.onNode id) = (g.producersOf id).map s.onNode := by
  rw [Graph.producersOf, Graph.producersOf, ← hgh.producersAmong, inputsOf, inputsOf, hgh.node?]
  cases g.node? id <;> rfl

theorem nodeIds (hgh : Renamed s g h) : h.nodeIds = g.nodeIds.map s.onNode := by
  have hmap : (g.nodeIds.map s.onNode).Pairwise (fun a b => a.index < b.index) :=
    List.pairwise_map.2 (g.nodeIds_ascending.imp (fun hlt => s.node_strictMono hlt))
  refine eq_of_ascending h.nodeIds_ascending hmap (fun id => ?_)
  rw [mem_nodeIds, List.mem_map]
  constructor
  · intro hid
    obtain ⟨old, rfl⟩ := hgh.node_old id hid
    rw [hgh.node?, Option.isSome_map] at hid
    exact ⟨old, mem_nodeIds.2 hid, rfl⟩
  · rintro ⟨old, hold, rfl⟩
    rw [hgh.node?, Option.isSome_map]
    exact mem_nodeIds.1 hold

/-! ## Order and dependencies -/

theorem dependencies (hgh : Renamed s g h) : Digraph.Renamed s.node Set.univ g.dependencies h.dependencies where
  closed _ _ _ _ := Set.mem_univ _
  injective := s.node_strictMono.injective.injOn
  next i _ := by
    have hnext := h.next_dependencies (s.onNode ⟨i⟩)
    rw [hgh.producersOf, List.map_map] at hnext
    rw [show i = (NodeId.mk i).index from rfl, g.next_dependencies, List.map_map]
    exact hnext
  lt_size i _ := by rw [size_dependencies, size_dependencies, hgh.lt_nodeSlots]

theorem walkOrder (hgh : Renamed s g h) : h.walkOrder = g.walkOrder.map s.onNode := by
  have hwalk : (h.dependencies.walkAll ((g.nodeIds.map NodeId.index).map s.node)).order.toList =
      (g.dependencies.walkAll (g.nodeIds.map NodeId.index)).order.toList.map s.node :=
    (hgh.dependencies.walkAll (fun _ _ => Set.mem_univ _)).order
  have hroots : h.nodeIds.map NodeId.index = (g.nodeIds.map NodeId.index).map s.node := by
    rw [hgh.nodeIds, List.map_map, List.map_map]
    rfl
  unfold Graph.walkOrder fullWalk
  rw [hroots, hwalk, List.map_map, List.map_map]
  rfl

theorem dependsOnAny (hgh : Renamed s g h) (v : ValueId) (nodes : List NodeId) :
    h.dependsOnAny (s.onValue v) (nodes.map s.onNode) = g.dependsOnAny v nodes := by
  have hroots : (h.producerId? (s.onValue v)).toList.map NodeId.index =
      ((g.producerId? v).toList.map NodeId.index).map s.node := by
    rw [hgh.producerId?]
    cases g.producerId? v <;> rfl
  unfold Graph.dependsOnAny neededBy
  simp only
  rw [hroots, List.any_map]
  congr 1
  funext id
  exact (hgh.dependencies.reach (fun _ _ => Set.mem_univ _)).contains id.index (Set.mem_univ _)

/-! ## Inference -/

variable {types types' : ValueId → Option TensorType}

theorem knownValueUnder? (hgh : Renamed s g h) (htypes : ∀ v, types' (s.onValue v) = types v) (v : ValueId) :
    h.knownValueUnder? types' (s.onValue v) = g.knownValueUnder? types v := by
  unfold Graph.knownValueUnder?
  rw [hgh.producer?]
  cases g.producer? v with
  | none => rfl
  | some n =>
    simp only [Option.map_some, Renaming.nodeOf]
    cases n.inputs with
    | nil => cases n.op <;> rfl
    | cons x xs =>
      rw [List.map_cons]
      cases n.op with
      | shapeOf output => simp only [htypes]
      | _ => rfl

theorem knownValue? (hgh : Renamed s g h) (v : ValueId) : h.knownValue? (s.onValue v) = g.knownValue? v :=
  hgh.knownValueUnder? hgh.type? v

theorem inputTypes (htypes : ∀ v, types' (s.onValue v) = types v) : ∀ (i : Nat) (vs : List ValueId),
    Graph.inputTypes types' i (vs.map s.onValue) = Graph.inputTypes types i vs
  | _, [] => rfl
  | i, v :: vs => by
    simp only [List.map_cons, Graph.inputTypes, htypes, inputTypes htypes (i + 1) vs]

theorem inferOutputsUnder (hgh : Renamed s g h) (htypes : ∀ v, types' (s.onValue v) = types v) (op : Op)
    (vs : List ValueId) : h.inferOutputsUnder types' op (vs.map s.onValue) = g.inferOutputsUnder types op vs := by
  unfold Graph.inferOutputsUnder
  rw [inputTypes htypes, List.map_map, show h.knownValueUnder? types' ∘ s.onValue = g.knownValueUnder? types from
    funext (hgh.knownValueUnder? htypes)]

theorem inferOutputs (hgh : Renamed s g h) (op : Op) (vs : List ValueId) :
    h.inferOutputs op (vs.map s.onValue) = g.inferOutputs op vs :=
  hgh.inferOutputsUnder hgh.type? op vs

end Renamed
end Graph
end TensorGraph
