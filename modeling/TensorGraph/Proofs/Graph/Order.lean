import TensorGraph.Proofs.Digraph.Walk
import TensorGraph.Proofs.Graph.WellFormed
/-!
# The order of a well-formed graph

`walkOrder` of a well-formed graph lists every node once, after the producers of its inputs.
`rank` is the position of a node in it; dependencies lead to lower ranks.
-/
namespace TensorGraph
namespace Graph

theorem WellFormed.walking {g : Graph} (h : g.WellFormed) : Digraph.Walking g.dependencies [] g.fullWalk :=
  Digraph.walking_walkAll _ (Or.inl (acyclic_dependencies.2 h.acyclic))

theorem mem_map_mk {l : List Nat} {id : NodeId} : id ∈ l.map NodeId.mk ↔ id.index ∈ l := by
  constructor
  · intro h
    obtain ⟨i, hi, rfl⟩ := List.mem_map.1 h
    exact hi
  · exact fun h => List.mem_map.2 ⟨id.index, h, rfl⟩

theorem walkOrder_nodup {g : Graph} (h : g.WellFormed) : g.walkOrder.Nodup :=
  h.walking.nodup.map (fun _ _ he => congrArg NodeId.index he)

theorem length_walkOrder_le {g : Graph} (h : g.WellFormed) : g.walkOrder.length ≤ g.nodeSlots := by
  simpa [walkOrder, size_dependencies] using h.walking.length_order_le

/-- **The order lists every node.** -/
theorem mem_walkOrder {g : Graph} (h : g.WellFormed) {id : NodeId} {n : Node} (hn : g.node? id = some n) :
    id ∈ g.walkOrder := by
  refine mem_map_mk.2 (Digraph.mem_order_walkAll _ (Or.inl (acyclic_dependencies.2 h.acyclic)) ?_ ?_)
  · exact List.mem_map.2 ⟨id, mem_nodeIds.2 (by rw [hn]; rfl), rfl⟩
  · rw [size_dependencies]
    exact node?_lt hn

theorem WellFormed.node_of_dependsOn {g : Graph} (h : g.WellFormed) {a b : NodeId} (hab : g.DependsOn a b) :
    ∃ n, g.node? b = some n := by
  obtain ⟨_, v, val, -, -, hval, rfl⟩ := dependsOn_iff.1 hab
  obtain ⟨n, hn, -⟩ := h.produced hval
  exact ⟨n, hn⟩

/-- **The order lists a node after those it depends on.** -/
theorem mem_before_of_dependsOn {g : Graph} (h : g.WellFormed) {before after : List NodeId} {a b : NodeId}
    (hsplit : g.walkOrder = before ++ a :: after) (hab : g.DependsOn a b) : b ∈ before := by
  obtain ⟨n, hn⟩ := h.node_of_dependsOn hab
  have horder : g.fullWalk.order.toList = before.map NodeId.index ++ a.index :: after.map NodeId.index := by
    have := congrArg (List.map NodeId.index) hsplit
    simpa [walkOrder, List.map_map, Function.comp_def] using this
  have hlt : b.index < g.dependencies.size := by
    rw [size_dependencies]
    exact node?_lt hn
  have hmem := h.walking.ordered _ _ _ horder b.index (edge_dependencies.2 hab) hlt
  obtain ⟨c, hc, hcb⟩ := List.mem_map.1 hmem
  exact NodeId.ext hcb ▸ hc

theorem dependencyOrder_eq {g : Graph} (h : g.WellFormed) : g.dependencyOrder = .ok g.walkOrder := by
  unfold dependencyOrder
  simp only [h.walking.no_cycle]
  rfl

/-! ## Ranks -/

/-- Position of a node in the order. -/
def rank (g : Graph) (id : NodeId) : Nat := g.walkOrder.idxOf id

theorem rank_lt_length {g : Graph} (h : g.WellFormed) {id : NodeId} {n : Node} (hn : g.node? id = some n) :
    g.rank id < g.walkOrder.length := List.idxOf_lt_length_of_mem (mem_walkOrder h hn)

theorem rank_lt_nodeSlots {g : Graph} (h : g.WellFormed) {id : NodeId} {n : Node} (hn : g.node? id = some n) :
    g.rank id < g.nodeSlots := Nat.lt_of_lt_of_le (rank_lt_length h hn) (length_walkOrder_le h)

/-- **Dependencies lead to lower ranks.** -/
theorem rank_lt_of_dependsOn {g : Graph} (h : g.WellFormed) {a b : NodeId} (hab : g.DependsOn a b) :
    g.rank b < g.rank a := by
  obtain ⟨n, -, -, hn, -⟩ := dependsOn_iff.1 hab
  obtain ⟨before, after, hsplit⟩ := List.append_of_mem (mem_walkOrder h hn)
  exact Digraph.idxOf_lt_of_mem_before hsplit (walkOrder_nodup h) (mem_before_of_dependsOn h hsplit hab)

/-- What a node reads is produced at lower ranks. -/
theorem exists_rank_lt_of_mem_inputs {g : Graph} (h : g.WellFormed) {id : NodeId} {n : Node} (hn : g.node? id = some n)
    {v : ValueId} (hv : v ∈ n.inputs) : ∃ val, g.value? v = some val ∧ g.rank val.producer < g.rank id := by
  obtain ⟨val, hval⟩ := Option.isSome_iff_exists.1 (h.input_live hn hv)
  exact ⟨val, hval, rank_lt_of_dependsOn h (dependsOn_iff.2 ⟨n, v, val, hn, hv, hval, rfl⟩)⟩

theorem rank_lt_of_reads_output {g : Graph} (h : g.WellFormed) {id : NodeId} {n : Node} (hn : g.node? id = some n)
    {v : ValueId} (hv : v ∈ n.outputs) {u : Use} (hu : g.Reads u v) : g.rank id < g.rank u.node := by
  obtain ⟨val, hval, rfl⟩ := h.output_live' hn hv
  exact rank_lt_of_dependsOn h (hu.dependsOn hval)

end Graph
end TensorGraph
