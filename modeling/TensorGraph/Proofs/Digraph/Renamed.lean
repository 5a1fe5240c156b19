import Mathlib.Data.Set.Function
import TensorGraph.Proofs.Digraph.Reach
import TensorGraph.Proofs.Digraph.Walk
/-!
# Renamed — searches and walks do not mind the numbers of the nodes, nor what they do not meet

`Renamed s inside d d'` says that a part of `d` that no edge leaves is in `d'` too, under the numbers
that `s` gives.  Searches and walks from roots in that part make the same steps in both: they list the
renamed nodes in the renamed order, and report the renamed cycle.  What else there is in either digraph
only adds to the steps allowed, and fewer would have sufficed; so both sides are given the larger bound.
-/
namespace TensorGraph

variable {s : Nat → Nat} {inside : Set Nat}

/-- **Inside a part that no edge leaves, the second digraph is the first one with other numbers.** -/
structure Digraph.Renamed (s : Nat → Nat) (inside : Set Nat) (d d' : Digraph) : Prop where
  closed : ∀ i ∈ inside, ∀ j, d.Edge i j → j ∈ inside
  injective : Set.InjOn s inside
  next : ∀ i ∈ inside, d'.next (s i) = (d.next i).map s
  lt_size : ∀ i ∈ inside, (s i < d'.size ↔ i < d.size)

/-- Inside, the second search is the first one with other numbers. -/
structure Reach.Renamed (s : Nat → Nat) (inside : Set Nat) (r r' : Reach) : Prop where
  contains : ∀ i ∈ inside, r'.contains (s i) = r.contains i
  lt_size : ∀ i ∈ inside, (s i < r'.seen.size ↔ i < r.seen.size)
  visited : r'.visited.toList = r.visited.toList.map s

/-- Inside, the second walk is the first one with other numbers. -/
structure Walk.Renamed (s : Nat → Nat) (inside : Set Nat) (w w' : Walk) : Prop where
  mark : ∀ i ∈ inside, w'.mark (s i) = w.mark i
  lt_size : ∀ i ∈ inside, (s i < w'.marks.size ↔ i < w.marks.size)
  order : w'.order.toList = w.order.toList.map s
  cycle : w'.cycle = w.cycle.map s

/-! ## What can be reached -/

namespace Reach.Renamed

variable {r r' : Reach}

theorem visit (hs : Set.InjOn s inside) (h : r.Renamed s inside r') {i : Nat} (hi : i ∈ inside) :
    (r.visit i).Renamed s inside (r'.visit (s i)) := by
  refine ⟨fun j hj => ?_, fun j hj => ?_, ?_⟩
  · simp only [contains_visit, h.contains j hj, hs.eq_iff hi hj, h.lt_size j hj]
  · rw [size_visit, size_visit, h.lt_size j hj]
  · simp [Reach.visit, h.visited]

theorem start {size size' : Nat} (hlt : ∀ i ∈ inside, (s i < size' ↔ i < size)) :
    (Reach.start size).Renamed s inside (Reach.start size') := by
  refine ⟨fun i _ => ?_, fun i hi => by simpa [Reach.start] using hlt i hi, by simp [Reach.start]⟩
  rw [not_contains_start, not_contains_start]

end Reach.Renamed

namespace Digraph

variable {d d' : Digraph}

theorem Renamed.reachFrom (h : Renamed s inside d d') : ∀ (fuel : Nat) (stack : List Nat) (r r' : Reach),
    (∀ i ∈ stack, i ∈ inside) → r.Renamed s inside r' →
      (d.reachFrom fuel stack r).Renamed s inside (d'.reachFrom fuel (stack.map s) r')
  | 0, _, _, _, _, hr => by simpa [Digraph.reachFrom] using hr
  | _ + 1, [], _, _, _, hr => by simpa [Digraph.reachFrom] using hr
  | fuel + 1, i :: stack, r, r', hstack, hr => by
    have hi := hstack i List.mem_cons_self
    have hrest : ∀ j ∈ stack, j ∈ inside := fun j hj => hstack j (List.mem_cons_of_mem _ hj)
    rw [List.map_cons, Digraph.reachFrom, Digraph.reachFrom, hr.contains i hi]
    split
    · exact h.reachFrom fuel stack r r' hrest hr
    · have hrec := h.reachFrom fuel ((d.next i).reverse ++ stack) (r.visit i) (r'.visit (s i)) (fun j hj => by
        rcases List.mem_append.1 hj with hj | hj
        · exact h.closed i hi j (List.mem_reverse.1 hj)
        · exact hrest j hj) (hr.visit h.injective hi)
      rwa [List.map_append, List.map_reverse, ← h.next i hi] at hrec

/-- **A search from renamed roots visits the renamed nodes in the same order.** -/
theorem Renamed.reach (h : Renamed s inside d d') {roots : List Nat} (hroots : ∀ i ∈ roots, i ∈ inside) :
    (d.reach roots).Renamed s inside (d'.reach (roots.map s)) := by
  rw [d.reach_of_le (Nat.le_max_left _ (d'.steps + (roots.map s).length)),
    d'.reach_of_le (Nat.le_max_right (d.steps + roots.length) _), ← List.map_reverse]
  exact h.reachFrom _ _ _ _ (fun i hi => hroots i (List.mem_reverse.1 hi)) (.start h.lt_size)

end Digraph

/-! ## Walks -/

namespace Walk.Renamed

variable {w w' : Walk}

theorem setMark (hs : Set.InjOn s inside) (h : w.Renamed s inside w') {i : Nat} (hi : i ∈ inside) (m : Mark) :
    (w.setMark i m).Renamed s inside (w'.setMark (s i) m) := by
  refine ⟨fun j hj => ?_, fun j hj => ?_, h.order, h.cycle⟩
  · simp only [mark_setMark, hs.eq_iff hi hj, h.lt_size j hj, h.mark j hj]
  · simpa [Walk.setMark] using h.lt_size j hj

theorem finish (hs : Set.InjOn s inside) (h : w.Renamed s inside w') {i : Nat} (hi : i ∈ inside) :
    (w.finish i).Renamed s inside (w'.finish (s i)) := by
  obtain ⟨hmark, hlt, -, hcycle⟩ := h.setMark hs hi .finished
  refine ⟨hmark, hlt, ?_, hcycle⟩
  simp [Walk.finish, Walk.setMark, h.order]

theorem reportCycle (h : w.Renamed s inside w') (i : Nat) :
    (w.reportCycle i).Renamed s inside (w'.reportCycle (s i)) := by
  refine ⟨h.mark, h.lt_size, h.order, ?_⟩
  rw [Walk.reportCycle, Walk.reportCycle, h.cycle]
  cases w.cycle <;> rfl

theorem start {size size' : Nat} (hlt : ∀ i ∈ inside, (s i < size' ↔ i < size)) :
    (Walk.start size).Renamed s inside (Walk.start size') := by
  refine ⟨fun i hi => ?_, fun i hi => by simpa [Walk.start] using hlt i hi, by simp [Walk.start], rfl⟩
  by_cases hin : i < size
  · rw [mark_start hin, mark_start ((hlt i hi).2 hin)]
  · have hout : ∀ {n k : Nat}, ¬ k < n → (Walk.start n).mark k = .finished := fun {n k} hk => by
      by_contra hne
      exact hk (by simpa [Walk.start] using lt_size_of_mark hne)
    rw [hout hin, hout (fun hs => hin ((hlt i hi).1 hs))]

end Walk.Renamed

namespace Digraph

variable {d d' : Digraph}

theorem Renamed.walk (h : Renamed s inside d d') : ∀ (fuel : Nat) (stack : List (Nat × List Nat)) (w w' : Walk),
    (∀ e ∈ stack, e.1 ∈ inside ∧ ∀ j ∈ e.2, j ∈ inside) → w.Renamed s inside w' →
      (d.walk fuel stack w).Renamed s inside (d'.walk fuel (stack.map (fun e => (s e.1, e.2.map s))) w')
  | 0, _, _, _, _, hw => by simpa [Digraph.walk] using hw
  | _ + 1, [], _, _, _, hw => by simpa [Digraph.walk] using hw
  | fuel + 1, (i, []) :: stack, w, w', hstack, hw => by
    obtain ⟨⟨hi, -⟩, hbelow⟩ := List.forall_mem_cons.1 hstack
    rw [Digraph.walk, List.map_cons, List.map_nil, Digraph.walk]
    exact h.walk fuel stack _ _ hbelow (hw.finish h.injective hi)
  | fuel + 1, (i, j :: rest) :: stack, w, w', hstack, hw => by
    obtain ⟨⟨hi, hrest⟩, hbelow⟩ := List.forall_mem_cons.1 hstack
    have hin : j ∈ inside := hrest j List.mem_cons_self
    have hstack' : ∀ e ∈ (i, rest) :: stack, e.1 ∈ inside ∧ ∀ k ∈ e.2, k ∈ inside :=
      List.forall_mem_cons.2 ⟨⟨hi, fun k hk => hrest k (List.mem_cons_of_mem _ hk)⟩, hbelow⟩
    rw [Digraph.walk, List.map_cons, List.map_cons, Digraph.walk, hw.mark j hin]
    cases w.mark j with
    | unvisited =>
      have hrec := h.walk fuel ((j, d.next j) :: (i, rest) :: stack) (w.enter j) (w'.enter (s j))
        (List.forall_mem_cons.2 ⟨⟨hin, fun k hk => h.closed j hin k hk⟩, hstack'⟩) (hw.setMark h.injective hin .entered)
      simpa [h.next j hin] using hrec
    | entered => exact h.walk fuel ((i, rest) :: stack) _ _ hstack' (hw.reportCycle j)
    | finished => exact h.walk fuel ((i, rest) :: stack) _ _ hstack' hw

theorem Renamed.walkFrom (h : Renamed s inside d d') (bound : Nat) {w w' : Walk} (hw : w.Renamed s inside w')
    {root : Nat} (hroot : root ∈ inside) :
    (d.walkFrom bound w root).Renamed s inside (d'.walkFrom bound w' (s root)) := by
  unfold Digraph.walkFrom
  rw [hw.mark root hroot]
  split
  · have hrec := h.walk bound [(root, d.next root)] (w.enter root) (w'.enter (s root))
      (List.forall_mem_singleton.2 ⟨hroot, fun k hk => h.closed root hroot k hk⟩) (hw.setMark h.injective hroot .entered)
    simpa [h.next root hroot] using hrec
  · exact hw

theorem Renamed.foldl_walkFrom (h : Renamed s inside d d') (bound : Nat) : ∀ (roots : List Nat) {w w' : Walk},
    (∀ i ∈ roots, i ∈ inside) → w.Renamed s inside w' →
      (roots.foldl (d.walkFrom bound) w).Renamed s inside ((roots.map s).foldl (d'.walkFrom bound) w')
  | [], _, _, _, hw => hw
  | root :: roots, w, w', hroots, hw => by
    rw [List.foldl_cons, List.map_cons, List.foldl_cons]
    exact h.foldl_walkFrom bound roots (fun i hi => hroots i (List.mem_cons_of_mem _ hi))
      (h.walkFrom bound hw (hroots root List.mem_cons_self))

/-- **Walks from renamed roots finish the renamed nodes in the same order**, and report the renamed cycle. -/
theorem Renamed.walkAll (h : Renamed s inside d d') {roots : List Nat} (hroots : ∀ i ∈ roots, i ∈ inside) :
    (d.walkAll roots).Renamed s inside (d'.walkAll (roots.map s)) := by
  rw [d.walkAll_of_le (Nat.le_max_left _ d'.steps), d'.walkAll_of_le (Nat.le_max_right d.steps _)]
  exact h.foldl_walkFrom _ roots hroots (.start h.lt_size)

end Digraph
end TensorGraph
