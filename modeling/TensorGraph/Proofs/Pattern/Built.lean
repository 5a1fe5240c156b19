import TensorGraph.Pattern.Match
import TensorGraph.Proofs.Digraph.Reach
import TensorGraph.Proofs.Digraph.Walk
import TensorGraph.Proofs.Information.Answers
/-!
# Built — what a pattern that was accepted is like

Every node that the root refers to is there, and the edges along which the value stays the same
lead down: the walk that looked for a cycle finished each node after those its edges lead to, so
the place of a node in the order of that walk is a height.  Heights are below the number of nodes,
so a match can follow such edges only so far before it moves on to an input.
-/
namespace TensorGraph

open Relation (ReflTransGen)

namespace Pattern

/-- The first node refers to the second. -/
def Refers (p : Pattern) (a b : PatternId) : Prop := ∃ node, p.node? a = some node ∧ b ∈ node.children

/-- The root refers to the node, directly or not. -/
def Reachable (p : Pattern) (id : PatternId) : Prop := ReflTransGen p.Refers p.root id

/-- **What the root refers to is there, and edges along which the value stays the same lead down.** -/
structure Grounded (p : Pattern) (height : PatternId → Nat) : Prop where
  present : ∀ {id : PatternId}, p.Reachable id → ∃ node, p.node? id = some node
  bounded : ∀ {id : PatternId}, p.Reachable id → height id < p.nodes.size
  descends : ∀ {id q : PatternId} {node : PatternNode}, p.Reachable id → p.node? id = some node →
    q ∈ node.sameValueChildren → height q < height id

variable {p : Pattern} {id q : PatternId} {node : PatternNode}

theorem Reachable.child (hid : p.Reachable id) (hnode : p.node? id = some node) (hq : q ∈ node.children) :
    p.Reachable q := hid.tail ⟨node, hnode, hq⟩

theorem mem_children_of_sameValue (hq : q ∈ node.sameValueChildren) : q ∈ node.children := by
  cases node with
  | op => cases hq
  | _ => exact hq

end Pattern

namespace PatternBuilder

variable {b : PatternBuilder} {root : PatternId} {p : Pattern}

theorem mem_map_index {ids : List PatternId} {id : PatternId} : id.index ∈ ids.map PatternId.index ↔ id ∈ ids := by
  constructor
  · intro h
    obtain ⟨⟨i⟩, hmem, rfl⟩ := List.mem_map.1 h
    exact hmem
  · exact List.mem_map_of_mem

/-- The edges of a digraph over the nodes that is made from a list of identifiers for each of them. -/
theorem edge_map_index (b : PatternBuilder) (f : PatternNode → List PatternId) {id q : PatternId} :
    Digraph.Edge ⟨b.nodes.map (fun node => (f node).map PatternId.index)⟩ id.index q.index ↔
      ∃ node, b.node? id = some node ∧ q ∈ f node := by
  unfold Digraph.Edge Digraph.next node?
  rw [Array.getD_eq_getD_getElem?, Array.getElem?_map]
  cases b.nodes[id.index]? with
  | none => simp
  | some node => simp [mem_map_index]

theorem references_path {id : PatternId} (hpath : ReflTransGen (Pattern.mk b.nodes root).Refers root id) :
    ReflTransGen b.references.Edge root.index id.index :=
  hpath.lift PatternId.index (fun _ _ h => (b.edge_map_index PatternNode.children).2 h)

theorem node?_of_fault? {id : PatternId} (h : b.fault? id = none) : ∃ node, b.node? id = some node := by
  unfold fault? at h
  cases hn : b.node? id with
  | none =>
    rw [hn] at h
    cases h
  | some node => exact ⟨node, rfl⟩

/-- **A pattern that was built**: nothing is wrong with what the root refers to, and the walk found no cycle. -/
theorem build_eq_ok : b.build root = .ok p ↔ p = ⟨b.nodes, root⟩ ∧
    (∀ i ∈ (b.references.reach [root.index]).visited.toList, b.fault? ⟨i⟩ = none) ∧
    (b.sameValueEdges.walkAll
      ((List.range b.nodes.size).filter (b.references.reach [root.index]).contains)).cycle = none := by
  rw [← List.findSome?_eq_none_iff]
  unfold build reachable acyclic
  simp only
  cases hfault : (b.references.reach [root.index]).visited.toList.findSome? (fun i => b.fault? ⟨i⟩) with
  | some e => simp [bind_eq_ok]
  | none =>
    cases hcycle : (b.sameValueEdges.walkAll
        ((List.range b.nodes.size).filter (b.references.reach [root.index]).contains)).cycle with
    | some i => simp [bind_eq_ok, hcycle]
    | none => simp [bind_eq_ok, hcycle, pure, Except.pure, eq_comm (b := p)]

/-- **A pattern that was built is grounded.** -/
theorem grounded_of_build (h : b.build root = .ok p) : ∃ height, p.Grounded height := by
  obtain ⟨rfl, hfault, hcycle⟩ := build_eq_ok.1 h
  have hlisted : ∀ {id}, (Pattern.mk b.nodes root).Reachable id → ∃ node, b.node? id = some node := fun hid =>
    node?_of_fault? (hfault _ (b.references.mem_visited_reach List.mem_cons_self (references_path hid)))
  have hlt : ∀ {id : PatternId} {node : PatternNode}, b.node? id = some node → id.index < b.nodes.size := fun hn =>
    (Array.getElem?_eq_some_iff.1 hn).1
  have hsize : b.sameValueEdges.size = b.nodes.size := by simp [sameValueEdges, Digraph.size]
  have hwalk := b.sameValueEdges.walking_walkAll (Or.inr hcycle)
  -- every node that the root refers to is a root of the walk, so it has a place in its order
  have hplace : ∀ {id}, (Pattern.mk b.nodes root).Reachable id → id.index ∈ (b.sameValueEdges.walkAll
      ((List.range b.nodes.size).filter (b.references.reach [root.index]).contains)).order.toList := fun {id} hid => by
    obtain ⟨node, hn⟩ := hlisted hid
    have hcontains : (b.references.reach [root.index]).contains id.index = true := by
      refine (b.references.contains_reach_iff _ _).2 ⟨?_, root.index, List.mem_cons_self, references_path hid⟩
      simpa [references, Digraph.size] using hlt hn
    exact Digraph.mem_order_walkAll _ (Or.inr hcycle)
      (List.mem_filter.2 ⟨List.mem_range.2 (hlt hn), hcontains⟩) (hsize ▸ hlt hn)
  refine ⟨fun id => (b.sameValueEdges.walkAll
    ((List.range b.nodes.size).filter (b.references.reach [root.index]).contains)).order.toList.idxOf id.index,
    hlisted, fun {id} hid => ?_, fun {id q node} hid hnode hq => ?_⟩
  · exact Nat.lt_of_lt_of_le (List.idxOf_lt_length_of_mem (hplace hid)) (hsize ▸ hwalk.length_order_le)
  · have hedge : b.sameValueEdges.Edge id.index q.index :=
      (b.edge_map_index PatternNode.sameValueChildren).2 ⟨node, hnode, hq⟩
    obtain ⟨m, hm⟩ := hlisted (hid.child hnode (Pattern.mem_children_of_sameValue hq))
    exact hwalk.idxOf_lt_of_edge (hplace hid) hedge (hsize ▸ hlt hm)

end PatternBuilder
end TensorGraph
