import TensorGraph.Proofs.Graph.WellFormed
/-!
# Edges — being well formed is a matter of the edges

`WellFormed` says nothing of operations, types and names, nor of the order in which the uses of a
value are listed.  So it passes from a graph to every other one with the same edges.
-/
namespace TensorGraph

/-- The values that a node is connected to. -/
def Node.ports (n : Node) : List ValueId × List ValueId := (n.inputs, n.outputs)

/-- Where a value comes from. -/
def Value.place (v : Value) : NodeId × Nat := (v.producer, v.index)

namespace Graph

/-- **The graphs have the same edges**, and the same results and parameters. -/
structure SameEdges (g h : Graph) : Prop where
  parameters : h.parameters = g.parameters
  results : h.results = g.results
  ports : ∀ id, (h.node? id).map Node.ports = (g.node? id).map Node.ports
  place : ∀ v, (h.value? v).map Value.place = (g.value? v).map Value.place
  uses : ∀ v, (h.usesOf v).Perm (g.usesOf v)

namespace SameEdges

variable {g h k : Graph}

theorem symm (hgh : SameEdges g h) : SameEdges h g :=
  ⟨hgh.parameters.symm, hgh.results.symm, fun id => (hgh.ports id).symm, fun v => (hgh.place v).symm,
    fun v => (hgh.uses v).symm⟩

theorem node_of (hgh : SameEdges g h) {id : NodeId} {n : Node} (hn : h.node? id = some n) :
    ∃ old, g.node? id = some old ∧ n.inputs = old.inputs ∧ n.outputs = old.outputs := by
  have hports := hgh.ports id
  rw [hn] at hports
  obtain ⟨old, hold, he⟩ := Option.map_eq_some_iff.1 hports.symm
  simp only [Node.ports, Prod.mk.injEq] at he
  exact ⟨old, hold, he.1.symm, he.2.symm⟩

theorem value_of (hgh : SameEdges g h) {v : ValueId} {val : Value} (hv : h.value? v = some val) :
    ∃ old, g.value? v = some old ∧ val.producer = old.producer ∧ val.index = old.index ∧ val.uses.Perm old.uses := by
  have hplace := hgh.place v
  rw [hv] at hplace
  obtain ⟨old, hold, he⟩ := Option.map_eq_some_iff.1 hplace.symm
  simp only [Value.place, Prod.mk.injEq] at he
  have huses := hgh.uses v
  rw [usesOf_eq hv, usesOf_eq hold] at huses
  exact ⟨old, hold, he.1.symm, he.2.symm, huses⟩

theorem value?_isSome (hgh : SameEdges g h) (v : ValueId) : (h.value? v).isSome = (g.value? v).isSome := by
  have hplace := congrArg Option.isSome (hgh.place v)
  simpa using hplace

theorem reads (hgh : SameEdges g h) {u : Use} {v : ValueId} (hu : h.Reads u v) : g.Reads u v := by
  obtain ⟨n, hn, hr⟩ := hu
  obtain ⟨old, hold, hin, -⟩ := hgh.node_of hn
  exact ⟨old, hold, hin ▸ hr⟩

theorem reads_iff (hgh : SameEdges g h) {u : Use} {v : ValueId} : h.Reads u v ↔ g.Reads u v :=
  ⟨hgh.reads, hgh.symm.reads⟩

theorem dependsOn (hgh : SameEdges g h) {a b : NodeId} (hab : h.DependsOn a b) : g.DependsOn a b := by
  obtain ⟨n, v, val, hn, hv, hval, rfl⟩ := dependsOn_iff.1 hab
  obtain ⟨oldn, holdn, hin, -⟩ := hgh.node_of hn
  obtain ⟨old, hold, hp, -, -⟩ := hgh.value_of hval
  exact dependsOn_iff.2 ⟨oldn, v, old, holdn, hin ▸ hv, hold, hp.symm⟩

/-- **Well-formedness depends on the edges alone.** -/
theorem wellFormed (hgh : SameEdges g h) (hg : g.WellFormed) : h.WellFormed where
  input_live {id n v} hn hv := by
    obtain ⟨old, hold, hin, -⟩ := hgh.node_of hn
    rw [hgh.value?_isSome]
    exact hg.input_live hold (hin ▸ hv)
  produced {v val} hv := by
    obtain ⟨old, hold, hp, hi, -⟩ := hgh.value_of hv
    obtain ⟨n, hn, hout⟩ := hg.produced hold
    obtain ⟨n', hn', -, hout'⟩ := hgh.symm.node_of hn
    exact ⟨n', by rw [hp, hn'], by rw [← hout', hi, hout]⟩
  output_live {id n i v} hn hout := by
    obtain ⟨old, hold, -, hout'⟩ := hgh.node_of hn
    obtain ⟨val, hval, hp, hi⟩ := hg.output_live hold (hout' ▸ hout)
    obtain ⟨val', hval', hp', hi', -⟩ := hgh.symm.value_of hval
    exact ⟨val', hval', hp'.symm.trans hp, hi'.symm.trans hi⟩
  uses_nodup {v val} hv := by
    obtain ⟨old, hold, -, -, huses⟩ := hgh.value_of hv
    exact huses.symm.nodup (hg.uses_nodup hold)
  mem_uses {v val} hv u := by
    obtain ⟨old, hold, -, -, huses⟩ := hgh.value_of hv
    rw [huses.mem_iff, hg.mem_uses hold, hgh.reads_iff]
  result_live v hv := by
    rw [hgh.value?_isSome]
    exact hg.result_live v (hgh.results ▸ hv)
  parameter_live v hv := by
    rw [hgh.value?_isSome]
    exact hg.parameter_live v (hgh.parameters ▸ hv)
  acyclic a ha := hg.acyclic a (ha.lift (fun b => b) (fun _ _ => hgh.dependsOn))

/-! ## Writes that leave the edges alone -/

theorem modifyNode (g : Graph) (id : NodeId) {f : Node → Node} (hf : ∀ n, (f n).ports = n.ports) :
    SameEdges g (g.modifyNode id f) := by
  refine ⟨rfl, rfl, fun j => ?_, fun _ => rfl, fun _ => .refl _⟩
  rw [node?_modifyNode]
  split
  · rw [Option.map_map, show Node.ports ∘ f = Node.ports from funext hf]
  · rfl

theorem setOp (g : Graph) (id : NodeId) (op : Op) : SameEdges g (g.setOp id op) := modifyNode g id (fun _ => rfl)

end SameEdges
end Graph
end TensorGraph
