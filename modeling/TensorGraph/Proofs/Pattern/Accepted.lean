import TensorGraph.Proofs.Digraph.Cycle
import TensorGraph.Proofs.Digraph.Renamed
import TensorGraph.Proofs.Pattern.Built
/-!
# Accepted — which patterns can be built

A pattern is well-formed if everything that its root refers to is there, no branch among it is without
a destination, and no cycle of edges along which the value stays the same runs through it.  The search
from the root lists what the root refers to and nothing else, and the walk from there reports a node of
a cycle if it leads to one, so `build` accepts exactly the well-formed patterns and blames a node that
the root refers to.  Both make the same steps in any builder that has the same nodes where the root
leads; the others cannot matter.
-/
namespace TensorGraph

open Relation (ReflTransGen TransGen)

namespace Pattern

/-- An edge along which the value stays the same, between nodes that the root refers to. -/
def Unguarded (p : Pattern) (a b : PatternId) : Prop :=
  p.Reachable a ∧ ∃ node, p.node? a = some node ∧ b ∈ node.sameValueChildren

/-- **What the root refers to is there and leads somewhere, and a cycle among it contains an operation.** -/
structure WellFormed (p : Pattern) : Prop where
  present : ∀ id, p.Reachable id → p.node? id ≠ none
  resolved : ∀ id, p.Reachable id → p.node? id ≠ some (.branch none)
  guarded : ∀ id, ¬ TransGen p.Unguarded id id

/-- What an error says of the pattern that was refused. -/
def Blames (p : Pattern) : PatternError → Prop
  | .invalidId id => p.Reachable id ∧ p.node? id = none
  | .unresolvedBranch id => p.Reachable id ∧ p.node? id = some (.branch none)
  | .unguardedCycle id => p.Reachable id ∧ TransGen p.Unguarded id id
  | .notABranch _ => False

theorem WellFormed.not_blames {p : Pattern} (h : p.WellFormed) {e : PatternError} : ¬ p.Blames e := by
  intro he
  cases e with
  | invalidId id => exact h.present id he.1 he.2
  | unresolvedBranch id => exact h.resolved id he.1 he.2
  | unguardedCycle id => exact h.guarded id he.2
  | notABranch id => exact he

end Pattern

namespace PatternBuilder

variable {b b' : PatternBuilder} {root q : PatternId}

/-! ## Paths in the tables -/

theorem edge_references {i j : Nat} :
    b.references.Edge i j ↔ (Pattern.mk b.nodes root).Refers ⟨i⟩ ⟨j⟩ :=
  b.edge_map_index PatternNode.children

theorem edge_sameValueEdges {i j : Nat} :
    b.sameValueEdges.Edge i j ↔ ∃ node, b.node? ⟨i⟩ = some node ∧ PatternId.mk j ∈ node.sameValueChildren :=
  b.edge_map_index PatternNode.sameValueChildren

theorem reachable_iff {i : Nat} :
    (Pattern.mk b.nodes root).Reachable ⟨i⟩ ↔ ReflTransGen b.references.Edge root.index i :=
  ⟨references_path, fun hpath => hpath.lift PatternId.mk (fun _ _ h => edge_references.1 h)⟩

theorem reachable_of_path {i j : Nat} (hi : (Pattern.mk b.nodes root).Reachable ⟨i⟩)
    (hpath : ReflTransGen b.sameValueEdges.Edge i j) : (Pattern.mk b.nodes root).Reachable ⟨j⟩ := by
  induction hpath with
  | refl => exact hi
  | tail _ hedge ih =>
    obtain ⟨node, hnode, hmem⟩ := edge_sameValueEdges.1 hedge
    exact ih.child hnode (Pattern.mem_children_of_sameValue hmem)

/-- Where the root leads, paths along which the value stays the same are the paths of the table. -/
theorem unguarded_path_iff {i j : Nat} (hi : (Pattern.mk b.nodes root).Reachable ⟨i⟩) :
    TransGen (Pattern.mk b.nodes root).Unguarded ⟨i⟩ ⟨j⟩ ↔ TransGen b.sameValueEdges.Edge i j := by
  constructor
  · exact fun h => h.lift PatternId.index (fun _ _ hab => edge_sameValueEdges.2 hab.2)
  · intro h
    induction h with
    | single hij => exact .single ⟨hi, edge_sameValueEdges.1 hij⟩
    | tail hpath hedge ih =>
      exact ih.tail ⟨reachable_of_path hi hpath.to_reflTransGen, edge_sameValueEdges.1 hedge⟩

/-! ## What `build` looks at -/

theorem mem_visited_iff {i : Nat} :
    i ∈ (b.references.reach [root.index]).visited.toList ↔ (Pattern.mk b.nodes root).Reachable ⟨i⟩ := by
  rw [Digraph.mem_visited_reach_iff, reachable_iff]
  simp

/-- The nodes that the walk along same-value edges starts from. -/
def starts (b : PatternBuilder) (root : PatternId) : List Nat :=
  (List.range b.nodes.size).filter (b.references.reach [root.index]).contains

theorem mem_starts_iff {i : Nat} :
    i ∈ b.starts root ↔ i < b.nodes.size ∧ (Pattern.mk b.nodes root).Reachable ⟨i⟩ := by
  rw [starts, List.mem_filter, List.mem_range, Digraph.contains_reach_iff, reachable_iff]
  simp +contextual [references, Digraph.size]

theorem build_eq (b : PatternBuilder) (root : PatternId) : b.build root =
    match (b.references.reach [root.index]).visited.toList.findSome? (fun i => b.fault? ⟨i⟩) with
    | some e => .error e
    | none => match (b.sameValueEdges.walkAll (b.starts root)).cycle with
      | some i => .error (.unguardedCycle ⟨i⟩)
      | none => .ok ⟨b.nodes, root⟩ := by
  unfold build reachable acyclic starts
  simp only
  cases (b.references.reach [root.index]).visited.toList.findSome? (fun i => b.fault? ⟨i⟩) with
  | some e => rfl
  | none =>
    simp only [bind, Except.bind]
    cases (b.sameValueEdges.walkAll
      ((List.range b.nodes.size).filter (b.references.reach [root.index]).contains)).cycle <;> rfl

theorem fault?_eq_some {e : PatternError} (h : b.fault? q = some e) :
    b.node? q = none ∧ e = .invalidId q ∨ b.node? q = some (.branch none) ∧ e = .unresolvedBranch q := by
  unfold fault? at h
  split at h
  · exact .inl ⟨‹_›, by simpa using h.symm⟩
  · exact .inr ⟨‹_›, by simpa using h.symm⟩
  · cases h

theorem fault?_eq_none (h : b.fault? q = none) : b.node? q ≠ none ∧ b.node? q ≠ some (.branch none) := by
  constructor
  all_goals
    intro hn
    simp [fault?, hn] at h

/-- **A pattern is built if it is well-formed; if it is not, the error blames a node that the root refers to.** -/
theorem build_cases (b : PatternBuilder) (root : PatternId) :
    (Pattern.mk b.nodes root).WellFormed ∧ b.build root = .ok ⟨b.nodes, root⟩ ∨
      ∃ e, (Pattern.mk b.nodes root).Blames e ∧ b.build root = .error e := by
  rw [build_eq]
  cases hfault : (b.references.reach [root.index]).visited.toList.findSome? (fun i => b.fault? ⟨i⟩) with
  | some e =>
    obtain ⟨i, hi, he⟩ := List.exists_of_findSome?_eq_some hfault
    refine .inr ⟨e, ?_, rfl⟩
    rcases fault?_eq_some he with ⟨hnode, rfl⟩ | ⟨hnode, rfl⟩
    · exact ⟨mem_visited_iff.1 hi, hnode⟩
    · exact ⟨mem_visited_iff.1 hi, hnode⟩
  | none =>
    cases hcycle : (b.sameValueEdges.walkAll (b.starts root)).cycle with
    | some i =>
      obtain ⟨hloop, start, hstart, hpath⟩ := b.sameValueEdges.cycleFrom_walkAll hcycle
      have hi := reachable_of_path (mem_starts_iff.1 hstart).2 hpath
      exact .inr ⟨.unguardedCycle ⟨i⟩, ⟨hi, (unguarded_path_iff hi).2 hloop⟩, rfl⟩
    | none =>
      have hsound : ∀ id, (Pattern.mk b.nodes root).Reachable id → b.node? id ≠ none ∧ b.node? id ≠ some (.branch none) :=
        fun id hid => fault?_eq_none (List.findSome?_eq_none_iff.1 hfault _ (mem_visited_iff.2 hid))
      refine .inl ⟨⟨fun id hid => (hsound id hid).1, fun id hid => (hsound id hid).2, fun id hloop => ?_⟩, rfl⟩
      -- a node of a cycle is reachable and has a place in the table, so the walk starts from it
      obtain ⟨q, ⟨hid, node, hnode, -⟩, -⟩ := TransGen.head'_iff.1 hloop
      have hstart : id.index ∈ b.starts root := mem_starts_iff.2 ⟨(Array.getElem?_eq_some_iff.1 hnode).1, hid⟩
      exact (b.sameValueEdges.cycle_walkAll_eq_none_iff.1 hcycle) id.index
        ⟨(unguarded_path_iff hid).1 hloop, id.index, hstart, .refl⟩

/-! ## Other nodes do not matter -/

/-- **Where the root leads, the second builder has the same nodes.** -/
def AgreesFrom (root : PatternId) (b b' : PatternBuilder) : Prop :=
  ∀ id, (Pattern.mk b.nodes root).Reachable id → b'.node? id = b.node? id

theorem next_map_index (b : PatternBuilder) (f : PatternNode → List PatternId) (i : Nat) :
    Digraph.next ⟨b.nodes.map (fun node => (f node).map PatternId.index)⟩ i =
      ((b.node? ⟨i⟩).map (fun node => (f node).map PatternId.index)).getD [] := by
  rw [Digraph.next, Array.getD_eq_getD_getElem?, Array.getElem?_map]
  rfl

theorem lt_size_iff {i : Nat} : i < b.nodes.size ↔ (b.node? ⟨i⟩).isSome := by
  rw [node?, isSome_getElem?]

/-- A table that is made from some of the children of each node is the same where the root leads. -/
theorem AgreesFrom.renamed (h : AgreesFrom root b b') {f : PatternNode → List PatternId}
    (hf : ∀ node, ∀ q ∈ f node, q ∈ node.children) :
    Digraph.Renamed id {i | (Pattern.mk b.nodes root).Reachable ⟨i⟩}
      ⟨b.nodes.map (fun node => (f node).map PatternId.index)⟩
      ⟨b'.nodes.map (fun node => (f node).map PatternId.index)⟩ where
  closed i hi j hij := by
    obtain ⟨node, hnode, hj⟩ := (b.edge_map_index f).1 (show Digraph.Edge _ (PatternId.mk i).index (PatternId.mk j).index from hij)
    exact hi.child hnode (hf node _ hj)
  injective := Set.injOn_id _
  next i hi := by rw [id, List.map_id, next_map_index, next_map_index, h ⟨i⟩ hi]
  lt_size i hi := by
    simp only [Digraph.size, Array.size_map, id]
    rw [lt_size_iff, lt_size_iff, h ⟨i⟩ hi]

theorem AgreesFrom.visited (h : AgreesFrom root b b') :
    (b'.references.reach [root.index]).visited.toList = (b.references.reach [root.index]).visited.toList := by
  have hroot : ∀ i ∈ [root.index], (Pattern.mk b.nodes root).Reachable ⟨i⟩ := fun i hi =>
    List.mem_singleton.1 hi ▸ .refl
  have hsame : Digraph.Renamed id _ b.references b'.references := h.renamed (fun _ _ hq => hq)
  simpa using (hsame.reach hroot).visited

theorem AgreesFrom.reachable_iff (h : AgreesFrom root b b') :
    (Pattern.mk b'.nodes root).Reachable q ↔ (Pattern.mk b.nodes root).Reachable q := by
  rw [← mem_visited_iff (i := q.index), ← mem_visited_iff (i := q.index), h.visited]

theorem AgreesFrom.starts_eq (h : AgreesFrom root b b') : b'.starts root = b.starts root := by
  have hsorted : ∀ c : PatternBuilder, (c.starts root).Pairwise (· < ·) := fun c => List.pairwise_lt_range.filter _
  refine (hsorted b').eq_of_mem_iff (hsorted b) (fun i => ?_)
  rw [mem_starts_iff, mem_starts_iff, h.reachable_iff]
  refine and_congr_left (fun hi => ?_)
  rw [lt_size_iff, lt_size_iff, h ⟨i⟩ hi]

/-- **Nodes that the root does not lead to do not matter.** -/
theorem AgreesFrom.build_eq (h : AgreesFrom root b b') :
    b'.build root = (b.build root).map (fun _ => ⟨b'.nodes, root⟩) := by
  have hfault : (b.references.reach [root.index]).visited.toList.filterMap (fun i => b'.fault? ⟨i⟩) =
      (b.references.reach [root.index]).visited.toList.filterMap (fun i => b.fault? ⟨i⟩) :=
    List.filterMap_congr (fun i hi => by simp only [fault?, h ⟨i⟩ (mem_visited_iff.1 hi)])
  have hcycle : (b'.sameValueEdges.walkAll (b.starts root)).cycle = (b.sameValueEdges.walkAll (b.starts root)).cycle := by
    have hsame : Digraph.Renamed id _ b.sameValueEdges b'.sameValueEdges :=
      h.renamed (fun _ _ => Pattern.mem_children_of_sameValue)
    simpa using (hsame.walkAll (fun i hi => (mem_starts_iff.1 hi).2)).cycle
  rw [PatternBuilder.build_eq, PatternBuilder.build_eq, h.visited, h.starts_eq, hcycle, ← List.head?_filterMap,
    ← List.head?_filterMap, hfault]
  cases ((b.references.reach [root.index]).visited.toList.filterMap (fun i => b.fault? ⟨i⟩)).head? with
  | some e => rfl
  | none => cases (b.sameValueEdges.walkAll (b.starts root)).cycle <;> rfl

/-- **`build` accepts exactly the well-formed patterns**, and keeps the nodes as they are; a refusal blames a node that the
root refers to; and nodes that it does not refer to, in any number, change nothing. -/
theorem build_exact (b : PatternBuilder) (root : PatternId) :
    ((∃ p, b.build root = .ok p) ↔ (Pattern.mk b.nodes root).WellFormed) ∧
    (∀ p, b.build root = .ok p → p = ⟨b.nodes, root⟩) ∧
    (∀ e, b.build root = .error e → (Pattern.mk b.nodes root).Blames e) ∧
    ∀ b', AgreesFrom root b b' → b'.build root = (b.build root).map (fun _ => ⟨b'.nodes, root⟩) := by
  refine ⟨?_, ?_, ?_, fun b' h => h.build_eq⟩
  all_goals rcases b.build_cases root with ⟨hwf, hok⟩ | ⟨e, he, herror⟩
  · exact ⟨fun _ => hwf, fun _ => ⟨_, hok⟩⟩
  · refine ⟨fun ⟨p, hp⟩ => ?_, fun hwf => absurd he hwf.not_blames⟩
    rw [herror] at hp
    cases hp
  · intro p hp
    rw [hok] at hp
    exact (Except.ok.inj hp).symm
  · intro p hp
    rw [herror] at hp
    cases hp
  · intro e he
    rw [hok] at he
    cases he
  · intro e' he'
    rw [herror] at he'
    exact Except.error.inj he' ▸ he

/-- The square root of a choice that comes back to itself through a label and a branch, or is any value; and the same
choice below an operation of its own, which it may come back through. -/
def looping : PatternBuilder :=
  ⟨#[.op [.unary .sqrt] [⟨1⟩] false, .either [⟨2⟩, ⟨4⟩], .label "inner" ⟨3⟩, .branch (some ⟨1⟩), .any,
    .either [⟨6⟩, ⟨4⟩], .op [.unary .sqrt] [⟨7⟩] false, .branch (some ⟨5⟩), .branch none]⟩

/-- The same without the second choice, which the first square root does not refer to. -/
def loopingAlone : PatternBuilder := ⟨looping.nodes.take 5 ++ #[.branch (some ⟨5⟩)]⟩

/-- The first choice is refused with either builder, for the cycle through it, and the second one is accepted: an
operation stands between the rounds. -/
theorem build_exact_looping : AgreesFrom ⟨0⟩ looping loopingAlone ∧
    looping.build ⟨0⟩ = .error (.unguardedCycle ⟨1⟩) ∧ loopingAlone.build ⟨0⟩ = .error (.unguardedCycle ⟨1⟩) ∧
    (Pattern.mk looping.nodes ⟨0⟩).Blames (.unguardedCycle ⟨1⟩) ∧ (Pattern.mk looping.nodes ⟨5⟩).WellFormed := by
  have hagrees : AgreesFrom ⟨0⟩ looping loopingAlone := fun ⟨i⟩ hi => by
    have hvisited : (looping.references.reach [0]).visited.toList = [0, 1, 4, 2, 3] := by decide +kernel
    have hmem : i ∈ [0, 1, 4, 2, 3] := hvisited ▸ mem_visited_iff.2 hi
    simp only [List.mem_cons, List.not_mem_nil, or_false] at hmem
    rcases hmem with rfl | rfl | rfl | rfl | rfl <;> rfl
  have hrefused : looping.build ⟨0⟩ = .error (.unguardedCycle ⟨1⟩) := by
    have hfault : (looping.references.reach [0]).visited.toList.findSome? (fun i => looping.fault? ⟨i⟩) = none := by
      decide +kernel
    have hcycle : (looping.sameValueEdges.walkAll (looping.starts ⟨0⟩)).cycle = some 1 := by decide +kernel
    rw [build_eq, hfault, hcycle]
  have haccepted : looping.build ⟨5⟩ = .ok ⟨looping.nodes, ⟨5⟩⟩ :=
    build_eq_ok.2 ⟨rfl, by decide +kernel, by decide +kernel⟩
  refine ⟨hagrees, hrefused, ?_, (build_exact looping ⟨0⟩).2.2.1 _ hrefused, (build_exact looping ⟨5⟩).1.1 ⟨_, haccepted⟩⟩
  rw [(build_exact looping ⟨0⟩).2.2.2 _ hagrees, hrefused]
  rfl

end PatternBuilder
end TensorGraph
