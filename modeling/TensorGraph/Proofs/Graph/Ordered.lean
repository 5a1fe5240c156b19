import TensorGraph.Proofs.Graph.Pruned
/-!
# Ordered — the dependency order of a well-formed graph

The walk starts at the live nodes, and from a live node dependencies lead to live nodes.  So the order
lists the live nodes and no others: each once, and each after the producers of its inputs.  Whether a
value was created before or after the nodes that read it plays no part, nor do empty slots.
-/
namespace TensorGraph
namespace Graph

variable {g : Graph}

/-- Every node of the order is in the graph. -/
theorem exists_node_of_mem_walkOrder (hg : g.WellFormed) {id : NodeId} (hid : id ∈ g.walkOrder) :
    ∃ n, g.node? id = some n := by
  have hlive : ∀ i ∈ g.fullWalk.order.toList, ∃ n, g.node? ⟨i⟩ = some n := by
    refine g.dependencies.of_mem_order_walkAll (fun i j _ hij => ?_) (fun i hi => ?_)
    · exact hg.node_of_dependsOn (a := ⟨i⟩) (b := ⟨j⟩) (edge_dependencies.1 hij)
    · obtain ⟨root, hroot, rfl⟩ := List.mem_map.1 hi
      exact Option.isSome_iff_exists.1 (mem_nodeIds.1 hroot)
  exact hlive id.index (mem_map_mk.1 hid)

/-- **The dependency order lists every live node once and nothing else**, and each node after the producers of its
inputs. -/
theorem dependencyOrder_exact (hg : g.WellFormed) : ∃ order, g.dependencyOrder = .ok order ∧ order.Nodup ∧
    (∀ id, id ∈ order ↔ ∃ n, g.node? id = some n) ∧
    ∀ before id after, order = before ++ id :: after → ∃ n, g.node? id = some n ∧
      ∀ v ∈ n.inputs, ∃ val, g.value? v = some val ∧ val.producer ∈ before := by
  refine ⟨g.walkOrder, dependencyOrder_eq hg, walkOrder_nodup hg,
    fun id => ⟨exists_node_of_mem_walkOrder hg, fun ⟨n, hn⟩ => mem_walkOrder hg hn⟩, fun before id after hsplit => ?_⟩
  obtain ⟨n, hn⟩ := exists_node_of_mem_walkOrder hg (hsplit ▸ List.mem_append_right before List.mem_cons_self)
  refine ⟨n, hn, fun v hv => ?_⟩
  obtain ⟨val, hval⟩ := Option.isSome_iff_exists.1 (hg.input_live hn hv)
  have hdep : g.DependsOn id val.producer := dependsOn_iff.2 ⟨n, v, val, hn, hv, hval, rfl⟩
  exact ⟨val, hval, mem_before_of_dependsOn hg hsplit hdep⟩

/-- A node was removed, and a rewrite has made another one read the value of a node newer than itself. -/
theorem dependencyOrder_exact_detoured : detoured.WellFormed ∧ detoured.node? ⟨1⟩ = none ∧ detoured.DependsOn ⟨2⟩ ⟨3⟩ ∧
    ∃ order, order = [⟨0⟩, ⟨3⟩, ⟨2⟩, ⟨4⟩] ∧ detoured.dependencyOrder = .ok order ∧ order.Nodup ∧
      (∀ id, id ∈ order ↔ ∃ n, detoured.node? id = some n) ∧
      ∀ before id after, order = before ++ id :: after → ∃ n, detoured.node? id = some n ∧
        ∀ v ∈ n.inputs, ∃ val, detoured.value? v = some val ∧ val.producer ∈ before := by
  have hg : detoured.WellFormed := wellFormed_edits _ (wellFormed_empty _)
  have hnewer : (⟨3⟩ : NodeId) ∈ detoured.producersOf ⟨2⟩ := by decide +kernel
  have hvalue : detoured.dependencyOrder = .ok [⟨0⟩, ⟨3⟩, ⟨2⟩, ⟨4⟩] := by decide +kernel
  obtain ⟨order, horder, hexact⟩ := dependencyOrder_exact hg
  exact ⟨hg, by decide +kernel, hnewer, order, Except.ok.inj (horder.symm.trans hvalue), horder, hexact⟩

end Graph
end TensorGraph
