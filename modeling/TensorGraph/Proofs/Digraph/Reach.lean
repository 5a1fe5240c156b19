import TensorGraph.Digraph
import TensorGraph.Proofs.Digraph.Paths
/-!
# `reach` visits exactly what paths from the roots lead to

Half of it is that nothing else is visited.  The other half has two parts: every node that an
edge leads to is visited or waits on the stack, and the steps suffice to empty the stack.

Numbers past the nodes are listed too when a root or an edge leads there, although the table has
no place for them; so whoever goes through the list finds them.
-/
namespace TensorGraph

namespace Reach

theorem contains_visit (r : Reach) (i j : Nat) :
    (r.visit i).contains j = (r.contains j || (decide (i = j) && decide (j < r.seen.size))) := by
  simp only [contains, visit, Array.getD_eq_getD_getElem?, Array.getElem?_setIfInBounds]
  by_cases hij : i = j
  · subst hij
    by_cases hi : i < r.seen.size <;> simp [hi]
  · simp [hij]

theorem size_visit (r : Reach) (i : Nat) : (r.visit i).seen.size = r.seen.size := by simp [visit]

theorem mem_visited_visit {r : Reach} {i j : Nat} :
    j ∈ (r.visit i).visited.toList ↔ j ∈ r.visited.toList ∨ j = i := by simp [visit]

theorem lt_size_of_contains {r : Reach} {i : Nat} (h : r.contains i = true) : i < r.seen.size := by
  by_contra hi
  simp [contains, Array.getD_eq_getD_getElem?, Array.getElem?_eq_none (Nat.le_of_not_lt hi)] at h

theorem not_contains_start (size i : Nat) : (start size).contains i = false := by
  simp [start, contains, Array.getD_eq_getD_getElem?, Array.getElem?_replicate]
  split <;> rfl

end Reach

namespace Digraph

open Relation (ReflTransGen)

/-- **What holds while the stack is emptied.** -/
structure Reaching (d : Digraph) (roots stack : List Nat) (r : Reach) : Prop where
  size : r.seen.size = d.size
  visited_from : ∀ i, r.contains i = true → ∃ root ∈ roots, ReflTransGen d.Edge root i
  stacked_from : ∀ i ∈ stack, ∃ root ∈ roots, ReflTransGen d.Edge root i
  root_met : ∀ i ∈ roots, i < d.size → r.contains i = true ∨ i ∈ stack
  next_met : ∀ i j, r.contains i = true → d.Edge i j → j < d.size → r.contains j = true ∨ j ∈ stack
  listed : ∀ i, r.contains i = true → i ∈ r.visited.toList
  root_listed : ∀ i ∈ roots, i ∈ r.visited.toList ∨ i ∈ stack
  next_listed : ∀ i ∈ r.visited.toList, ∀ j, d.Edge i j → j ∈ r.visited.toList ∨ j ∈ stack

/-- The nodes that were not visited. -/
def unseen (d : Digraph) (r : Reach) : Finset Nat := (Finset.range d.size).filter (fun i => r.contains i = false)

theorem unseen_visit (d : Digraph) (r : Reach) (i : Nat) (hs : r.seen.size = d.size) :
    d.unseen (r.visit i) = (d.unseen r).erase i := by
  ext j
  simp only [unseen, Finset.mem_filter, Finset.mem_range, Finset.mem_erase, Reach.contains_visit, hs]
  by_cases hij : i = j
  · subst hij
    constructor
    · rintro ⟨hlt, h⟩
      simp [hlt] at h
    · rintro ⟨h, -⟩
      exact absurd rfl h
  · have hji : j ≠ i := fun h => hij h.symm
    simp [hij, hji]

namespace Reaching

variable {d : Digraph} {roots stack : List Nat} {r : Reach} {i : Nat}

theorem drop (h : Reaching d roots (i :: stack) r) (hi : r.contains i = true) : Reaching d roots stack r where
  size := h.size
  visited_from := h.visited_from
  stacked_from j hj := h.stacked_from j (List.mem_cons_of_mem _ hj)
  root_met j hj hlt := by
    rcases h.root_met j hj hlt with hc | hc
    · exact Or.inl hc
    · rcases List.mem_cons.1 hc with rfl | hc
      · exact Or.inl hi
      · exact Or.inr hc
  next_met j k hj hjk hlt := by
    rcases h.next_met j k hj hjk hlt with hc | hc
    · exact Or.inl hc
    · rcases List.mem_cons.1 hc with rfl | hc
      · exact Or.inl hi
      · exact Or.inr hc
  listed := h.listed
  root_listed j hj := by
    rcases h.root_listed j hj with hc | hc
    · exact Or.inl hc
    · rcases List.mem_cons.1 hc with rfl | hc
      · exact Or.inl (h.listed j hi)
      · exact Or.inr hc
  next_listed j hj k hjk := by
    rcases h.next_listed j hj k hjk with hc | hc
    · exact Or.inl hc
    · rcases List.mem_cons.1 hc with rfl | hc
      · exact Or.inl (h.listed k hi)
      · exact Or.inr hc

theorem visit (h : Reaching d roots (i :: stack) r) :
    Reaching d roots ((d.next i).reverse ++ stack) (r.visit i) := by
  have hfrom := h.stacked_from i List.mem_cons_self
  have hvisit : ∀ j, j < d.size → (r.contains j = true ∨ j ∈ i :: stack) →
      (r.visit i).contains j = true ∨ j ∈ (d.next i).reverse ++ stack := by
    intro j hlt hj
    rw [Reach.contains_visit, h.size]
    rcases hj with hj | hj
    · exact Or.inl (by simp [hj])
    · rcases List.mem_cons.1 hj with rfl | hj
      · exact Or.inl (by simp [hlt])
      · exact Or.inr (List.mem_append_right _ hj)
  have hlist : ∀ j, (j ∈ r.visited.toList ∨ j ∈ i :: stack) →
      j ∈ (r.visit i).visited.toList ∨ j ∈ (d.next i).reverse ++ stack := by
    intro j hj
    rw [Reach.mem_visited_visit]
    rcases hj with hj | hj
    · exact Or.inl (Or.inl hj)
    · rcases List.mem_cons.1 hj with rfl | hj
      · exact Or.inl (Or.inr rfl)
      · exact Or.inr (List.mem_append_right _ hj)
  refine ⟨by rw [Reach.size_visit, h.size], ?_, ?_, fun j hj hlt => hvisit j hlt (h.root_met j hj hlt), ?_, ?_,
    fun j hj => hlist j (h.root_listed j hj), ?_⟩
  · intro j hj
    rw [Reach.contains_visit] at hj
    by_cases hij : i = j
    · exact hij ▸ hfrom
    · exact h.visited_from j (by simpa [hij] using hj)
  · intro j hj
    rcases List.mem_append.1 hj with hj | hj
    · obtain ⟨root, hroot, hpath⟩ := hfrom
      exact ⟨root, hroot, hpath.tail (List.mem_reverse.1 hj)⟩
    · exact h.stacked_from j (List.mem_cons_of_mem _ hj)
  · intro j k hj hjk hlt
    by_cases hij : i = j
    · subst hij
      exact Or.inr (List.mem_append_left _ (List.mem_reverse.2 hjk))
    · rw [Reach.contains_visit] at hj
      exact hvisit k hlt (h.next_met j k (by simpa [hij] using hj) hjk hlt)
  · intro j hj
    rw [Reach.mem_visited_visit]
    by_cases hij : i = j
    · exact Or.inr hij.symm
    · rw [Reach.contains_visit] at hj
      exact Or.inl (h.listed j (by simpa [hij] using hj))
  · intro j hj k hjk
    rw [Reach.mem_visited_visit] at hj
    rcases hj with hj | rfl
    · exact hlist k (h.next_listed j hj k hjk)
    · exact Or.inr (List.mem_append_left _ (List.mem_reverse.2 hjk))

end Reaching

/-- The weight of a node, now off the unseen ones, pays for the edges it puts on the stack. -/
theorem weightOn_unseen_visit (d : Digraph) (r : Reach) (hs : r.seen.size = d.size) {i : Nat} {stack : List Nat}
    (hi : r.contains i ≠ true) :
    d.weightOn (d.unseen (r.visit i)) + ((d.next i).reverse ++ stack).length <
      d.weightOn (d.unseen r) + (i :: stack).length := by
  rw [d.unseen_visit r i hs, List.length_append, List.length_reverse, List.length_cons]
  by_cases hlt : i < d.size
  · have hw := d.weightOn_erase (d.unseen r) (show i ∈ d.unseen r by simpa [unseen, hlt] using hi)
    unfold weight at hw
    omega
  · have he : i ∉ d.unseen r := by simp [unseen, hlt]
    rw [Finset.erase_eq_of_notMem he, d.next_of_size_le (Nat.le_of_not_lt hlt)]
    simp

/-- **With enough steps the stack is emptied.** -/
theorem reachFrom_spec (d : Digraph) (roots : List Nat) : ∀ (fuel : Nat) (stack : List Nat) (r : Reach),
    d.weightOn (d.unseen r) + stack.length ≤ fuel → Reaching d roots stack r →
      Reaching d roots [] (d.reachFrom fuel stack r)
  | 0, [], r, _, h => by simpa [reachFrom] using h
  | 0, _ :: _, _, hf, _ => by simp at hf
  | _ + 1, [], r, _, h => by simpa [reachFrom] using h
  | fuel + 1, i :: stack, r, hf, h => by
    rw [reachFrom]
    by_cases hi : r.contains i = true
    · rw [if_pos hi]
      exact reachFrom_spec d roots fuel stack r (Nat.le_of_succ_le_succ hf) (h.drop hi)
    · rw [if_neg hi]
      exact reachFrom_spec d roots fuel _ _
        (Nat.le_of_lt_succ ((d.weightOn_unseen_visit r h.size hi).trans_le hf)) h.visit

/-- Further steps change nothing. -/
theorem reachFrom_of_le (d : Digraph) : ∀ (fuel more : Nat) (stack : List Nat) (r : Reach),
    r.seen.size = d.size → d.weightOn (d.unseen r) + stack.length ≤ fuel → fuel ≤ more →
      d.reachFrom more stack r = d.reachFrom fuel stack r
  | 0, 0, _, _, _, _, _ => rfl
  | 0, _ + 1, [], r, _, _, _ => by simp [reachFrom]
  | 0, _ + 1, _ :: _, _, _, hf, _ => by simp at hf
  | _ + 1, _ + 1, [], r, _, _, _ => by simp [reachFrom]
  | fuel + 1, more + 1, i :: stack, r, hs, hf, hle => by
    rw [reachFrom, reachFrom]
    by_cases hi : r.contains i = true
    · rw [if_pos hi, if_pos hi]
      exact reachFrom_of_le d fuel more stack r hs (Nat.le_of_succ_le_succ hf) (Nat.le_of_succ_le_succ hle)
    · rw [if_neg hi, if_neg hi]
      exact reachFrom_of_le d fuel more _ _ ((r.size_visit i).trans hs)
        (Nat.le_of_lt_succ ((d.weightOn_unseen_visit r hs hi).trans_le hf)) (Nat.le_of_succ_le_succ hle)

theorem reaching_start (d : Digraph) (roots : List Nat) : Reaching d roots roots.reverse (.start d.size) := by
  have hempty : ∀ i, i ∉ (Reach.start d.size).visited.toList := by simp [Reach.start]
  refine ⟨by simp [Reach.start], fun j hj => ?_, fun j hj => ⟨j, List.mem_reverse.1 hj, .refl⟩,
    fun j hj _ => Or.inr (List.mem_reverse.2 hj), fun j k hj => ?_, fun j hj => ?_,
    fun j hj => Or.inr (List.mem_reverse.2 hj), fun j hj => absurd hj (hempty j)⟩
  all_goals
    rw [Reach.not_contains_start] at hj
    cases hj

theorem weightOn_unseen_start_le (d : Digraph) (roots : List Nat) :
    d.weightOn (d.unseen (.start d.size)) + roots.reverse.length ≤ d.steps + roots.length := by
  have := d.weightOn_le_steps (d.unseen (.start d.size)) (Finset.filter_subset _ _)
  rw [List.length_reverse]
  omega

theorem reaching_reach (d : Digraph) (roots : List Nat) : Reaching d roots [] (d.reach roots) :=
  d.reachFrom_spec roots _ _ _ (d.weightOn_unseen_start_le roots) (d.reaching_start roots)

/-- **A search that is allowed more steps is the same search.** -/
theorem reach_of_le (d : Digraph) {roots : List Nat} {bound : Nat} (hle : d.steps + roots.length ≤ bound) :
    d.reach roots = d.reachFrom bound roots.reverse (.start d.size) :=
  (d.reachFrom_of_le _ _ _ _ (by simp [Reach.start]) (d.weightOn_unseen_start_le roots) hle).symm

/-- **`reach` visits the nodes that a path from a root leads to, and no others.** -/
theorem contains_reach_iff (d : Digraph) (roots : List Nat) (i : Nat) :
    (d.reach roots).contains i = true ↔ i < d.size ∧ ∃ root ∈ roots, ReflTransGen d.Edge root i := by
  have hdone := d.reaching_reach roots
  constructor
  · intro hi
    exact ⟨hdone.size ▸ Reach.lt_size_of_contains hi, hdone.visited_from i hi⟩
  · rintro ⟨hlt, root, hroot, hpath⟩
    -- every node of the path is visited; the last one has to be a node of the digraph
    induction hpath with
    | refl => exact (hdone.root_met root hroot hlt).resolve_right List.not_mem_nil
    | tail _ hjk ih => exact (hdone.next_met _ _ (ih hjk.lt_size) hjk hlt).resolve_right List.not_mem_nil

/-- The list has every number that a path from a root leads to. -/
theorem mem_visited_reach (d : Digraph) {roots : List Nat} {root i : Nat} (hroot : root ∈ roots)
    (hpath : ReflTransGen d.Edge root i) : i ∈ (d.reach roots).visited.toList := by
  have hdone := d.reaching_reach roots
  induction hpath with
  | refl => exact (hdone.root_listed root hroot).resolve_right List.not_mem_nil
  | tail _ hjk ih => exact (hdone.next_listed _ ih _ hjk).resolve_right List.not_mem_nil

theorem mem_visited_reachFrom (d : Digraph) {P : Nat → Prop} (hnext : ∀ i j, P i → d.Edge i j → P j) {k : Nat} :
    ∀ (fuel : Nat) (stack : List Nat) (r : Reach), (∀ i ∈ stack, P i) → (∀ i ∈ r.visited.toList, P i) →
      k ∈ (d.reachFrom fuel stack r).visited.toList → P k
  | 0, _, _, _, hr, hk => hr k (by simpa [reachFrom] using hk)
  | _ + 1, [], _, _, hr, hk => hr k (by simpa [reachFrom] using hk)
  | fuel + 1, i :: stack, r, hstack, hr, hk => by
    have hi := hstack i List.mem_cons_self
    have hrest : ∀ j ∈ stack, P j := fun j hj => hstack j (List.mem_cons_of_mem _ hj)
    rw [reachFrom] at hk
    split at hk
    · exact mem_visited_reachFrom d hnext fuel stack r hrest hr hk
    · refine mem_visited_reachFrom d hnext fuel _ _ (fun j hj => ?_) (fun j hj => ?_) hk
      · rcases List.mem_append.1 hj with hj | hj
        · exact hnext i j hi (List.mem_reverse.1 hj)
        · exact hrest j hj
      · rcases Reach.mem_visited_visit.1 hj with hj | rfl
        · exact hr j hj
        · exact hi

/-- **The list has exactly the numbers that a path from a root leads to.** -/
theorem mem_visited_reach_iff (d : Digraph) {roots : List Nat} {i : Nat} :
    i ∈ (d.reach roots).visited.toList ↔ ∃ root ∈ roots, ReflTransGen d.Edge root i := by
  constructor
  · refine d.mem_visited_reachFrom (P := fun j => ∃ root ∈ roots, ReflTransGen d.Edge root j) ?_ _ _ (.start d.size)
      (fun j hj => ⟨j, List.mem_reverse.1 hj, .refl⟩) (by simp [Reach.start])
    rintro j k ⟨root, hroot, hpath⟩ hjk
    exact ⟨root, hroot, hpath.tail hjk⟩
  · rintro ⟨root, hroot, hpath⟩
    exact d.mem_visited_reach hroot hpath

end Digraph
end TensorGraph
