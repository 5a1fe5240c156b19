import TensorGraph.Proofs.Digraph.Walk
/-!
# Cycle — a walk reports a node of a cycle, if its roots lead to one

The first report ends the account of `Walking`, and is about a node that is on the stack and that an
edge leads back to from the top: the stack is a path from the one to the other, so the edge closes a
cycle.  Later reports do not count.  If nothing is reported, every node that the roots lead to has its
place in the order, and places fall along edges, so no path comes back.
-/
namespace TensorGraph
namespace Digraph

open Relation (ReflTransGen TransGen)

/-! ## It is about a cycle -/

/-- The node lies on a cycle that a path leads to from one of the others. -/
def CycleFrom (d : Digraph) (starts : List Nat) (k : Nat) : Prop :=
  TransGen d.Edge k k ∧ ∃ i ∈ starts, ReflTransGen d.Edge i k

theorem cycleFrom_walk (d : Digraph) {k : Nat} : ∀ (fuel : Nat) (stack : List (Nat × List Nat)) (w : Walk),
    Walking d stack w → (d.walk fuel stack w).cycle = some k → d.CycleFrom (stack.map Prod.fst) k
  | 0, _, w, h, hk => by
    rw [walk, h.no_cycle] at hk
    cases hk
  | _ + 1, [], w, h, hk => by
    simp [walk, h.no_cycle] at hk
  | fuel + 1, (i, []) :: stack, w, h, hk => by
    rw [walk] at hk
    obtain ⟨hcycle, a, ha, hpath⟩ := cycleFrom_walk d fuel stack _ h.finish hk
    exact ⟨hcycle, a, List.mem_cons_of_mem _ ha, hpath⟩
  | fuel + 1, (i, j :: rest) :: stack, w, h, hk => by
    rw [walk] at hk
    have hedge : d.Edge i j := h.followed.2.1 List.mem_cons_self
    cases hj : w.mark j with
    | unvisited =>
      rw [hj] at hk
      obtain ⟨hcycle, a, ha, hpath⟩ := cycleFrom_walk d fuel _ _ (h.enter hj) hk
      rcases List.mem_cons.1 ha with rfl | ha
      · exact ⟨hcycle, i, List.mem_cons_self, .head hedge hpath⟩
      · exact ⟨hcycle, a, ha, hpath⟩
    | entered =>
      -- the node is on the stack, which leads from it to the top and from there back to it
      rw [hj] at hk
      have hreport : (w.reportCycle j).cycle = some j := by simp [Walk.reportCycle, h.no_cycle]
      rw [d.cycle_walk_eq_some fuel _ _ hreport] at hk
      obtain rfl : j = k := by simpa using hk
      have hback : ReflTransGen d.Edge j i := h.linked.path j ((h.entered j).1 hj)
      exact ⟨TransGen.tail' hback hedge, i, List.mem_cons_self, .single hedge⟩
    | finished =>
      rw [hj] at hk
      exact cycleFrom_walk d fuel ((i, rest) :: stack) w (h.skip hj) hk

theorem cycleFrom_foldl_walkFrom (d : Digraph) {k : Nat} : ∀ (roots : List Nat) (w : Walk), Walking d [] w →
    (roots.foldl (d.walkFrom d.steps) w).cycle = some k → d.CycleFrom roots k
  | [], w, h, hk => by
    rw [List.foldl_nil, h.no_cycle] at hk
    cases hk
  | root :: roots, w, h, hk => by
    rw [List.foldl_cons] at hk
    cases hroot : (d.walkFrom d.steps w root).cycle with
    | none =>
      obtain ⟨hcycle, a, ha, hpath⟩ := cycleFrom_foldl_walkFrom d roots _ (d.walkFrom_spec w root h (Or.inr hroot)) hk
      exact ⟨hcycle, a, List.mem_cons_of_mem _ ha, hpath⟩
    | some j =>
      rw [d.cycle_foldl_walkFrom_eq_some d.steps roots _ hroot] at hk
      obtain rfl : j = k := by simpa using hk
      unfold walkFrom at hroot
      split at hroot
      · rename_i hnew
        obtain ⟨hcycle, a, ha, hpath⟩ := d.cycleFrom_walk _ _ _ (h.enterRoot hnew) hroot
        obtain rfl : a = root := by simpa using ha
        exact ⟨hcycle, a, List.mem_cons_self, hpath⟩
      · rw [h.no_cycle] at hroot
        cases hroot

/-- **What a walk reports lies on a cycle that a root leads to.** -/
theorem cycleFrom_walkAll (d : Digraph) {roots : List Nat} {k : Nat} (hk : (d.walkAll roots).cycle = some k) :
    d.CycleFrom roots k :=
  d.cycleFrom_foldl_walkFrom roots _ d.walking_start hk

/-! ## Where nothing is reported there is no cycle -/

namespace Walking

variable {d : Digraph} {w : Walk} {i j : Nat}

theorem mem_order_of_path (h : Walking d [] w) (hi : i ∈ w.order.toList) (hpath : ReflTransGen d.Edge i j)
    (hj : j < d.size) : j ∈ w.order.toList := by
  induction hpath with
  | refl => exact hi
  | @tail a b _ hab ih =>
    obtain ⟨before, after, hsplit⟩ := List.append_of_mem (ih hab.lt_size)
    rw [hsplit]
    exact List.mem_append_left _ (h.ordered before a after hsplit b hab hj)

theorem idxOf_lt_of_path (h : Walking d [] w) (hi : i ∈ w.order.toList) (hpath : TransGen d.Edge i j) (hj : j < d.size) :
    w.order.toList.idxOf j < w.order.toList.idxOf i := by
  induction hpath with
  | single hij => exact h.idxOf_lt_of_edge hi hij hj
  | @tail a b hia hab ih =>
    have ha : a ∈ w.order.toList := h.mem_order_of_path hi hia.to_reflTransGen hab.lt_size
    exact (h.idxOf_lt_of_edge ha hab hj).trans (ih hab.lt_size)

end Walking

/-- **A walk reports a cycle if and only if one of its roots leads to one.** -/
theorem cycle_walkAll_eq_none_iff (d : Digraph) {roots : List Nat} :
    (d.walkAll roots).cycle = none ↔ ∀ k, ¬ d.CycleFrom roots k := by
  constructor
  · rintro hnone k ⟨hcycle, root, hroot, hpath⟩
    have hk : k < d.size := by
      obtain ⟨j, hkj, -⟩ := TransGen.head'_iff.1 hcycle
      exact hkj.lt_size
    have hlt : root < d.size := by
      rcases ReflTransGen.cases_head hpath with rfl | ⟨j, hrj, -⟩
      · exact hk
      · exact hrj.lt_size
    have h := d.walking_walkAll (Or.inr hnone)
    have hplace := h.mem_order_of_path (d.mem_order_walkAll (Or.inr hnone) hroot hlt) hpath hk
    exact Nat.lt_irrefl _ (h.idxOf_lt_of_path hplace hcycle hk)
  · intro hnone
    rw [Option.eq_none_iff_forall_not_mem]
    exact fun k hk => hnone k (d.cycleFrom_walkAll hk)

end Digraph
end TensorGraph
