import TensorGraph.Digraph
import TensorGraph.Proofs.Digraph.Paths
/-!
# A walk finishes every node after those its edges lead to

`Walking` is what holds while the stack is emptied.  The nodes on the stack are the entered
ones, each reached by an edge from the one below it, so an edge back to an entered node would
close a cycle; and of the edges that a node on the stack has followed, all but the last lead
to finished nodes.  So it holds to the end of a walk through an acyclic digraph, and of every
walk that reports no cycle.
-/
namespace TensorGraph

namespace Walk

theorem mark_setMark (w : Walk) (i j : Nat) (m : Mark) :
    (w.setMark i m).mark j = if i = j ∧ j < w.marks.size then m else w.mark j := by
  simp only [mark, setMark, Array.getD_eq_getD_getElem?, Array.getElem?_setIfInBounds]
  by_cases hij : i = j
  · subst hij
    by_cases hi : i < w.marks.size <;> simp [hi]
  · simp [hij]

theorem mark_enter (w : Walk) (i j : Nat) :
    (w.enter i).mark j = if i = j ∧ j < w.marks.size then .entered else w.mark j := w.mark_setMark i j .entered

theorem mark_finish (w : Walk) (i j : Nat) :
    (w.finish i).mark j = if i = j ∧ j < w.marks.size then .finished else w.mark j := w.mark_setMark i j .finished

theorem toList_order_finish (w : Walk) (i : Nat) : (w.finish i).order.toList = w.order.toList ++ [i] := by
  simp [finish, setMark]

theorem lt_size_of_mark {w : Walk} {i : Nat} (h : w.mark i ≠ .finished) : i < w.marks.size := by
  by_contra hi
  exact h (by simp [mark, Array.getD_eq_getD_getElem?, Array.getElem?_eq_none (Nat.le_of_not_lt hi)])

theorem cycle_reportCycle_ne_none (w : Walk) (i : Nat) : (w.reportCycle i).cycle ≠ none := by
  unfold reportCycle
  cases w.cycle <;> simp

theorem mark_start {size i : Nat} (h : i < size) : (start size).mark i = .unvisited := by
  simp [start, mark, Array.getD_eq_getD_getElem?, h]

end Walk

namespace Digraph

open Relation (ReflTransGen TransGen)

/-- Each node on the stack was entered along an edge from the one below it. -/
def Linked (d : Digraph) : List (Nat × List Nat) → Prop
  | [] => True
  | [_] => True
  | top :: below :: stack => d.Edge below.1 top.1 ∧ Linked d (below :: stack)

/-- The edges of a node that were followed lead to finished nodes, or to a node above it. -/
def Followed (d : Digraph) (w : Walk) : List Nat → List (Nat × List Nat) → Prop
  | _, [] => True
  | above, (i, rest) :: stack =>
    (∀ j ∈ d.next i, j ∈ rest ∨ w.mark j = .finished ∨ j ∈ above) ∧ rest ⊆ d.next i
      ∧ Followed d w (i :: above) stack

/-- **What holds while the stack is emptied.** -/
structure Walking (d : Digraph) (stack : List (Nat × List Nat)) (w : Walk) : Prop where
  size : w.marks.size = d.size
  no_cycle : w.cycle = none
  nodup : w.order.toList.Nodup
  mem_order : ∀ i, i ∈ w.order.toList ↔ i < d.size ∧ w.mark i = .finished
  /-- Where a node was finished, the nodes that its edges lead to had been. -/
  ordered : ∀ before i after, w.order.toList = before ++ i :: after → ∀ j ∈ d.next i, j < d.size → j ∈ before
  entered : ∀ i, w.mark i = .entered ↔ i ∈ stack.map Prod.fst
  stack_nodup : (stack.map Prod.fst).Nodup
  linked : d.Linked stack
  followed : d.Followed w [] stack

theorem Linked.path {d : Digraph} : ∀ {stack : List (Nat × List Nat)} {top : Nat × List Nat},
    d.Linked (top :: stack) → ∀ i ∈ (top :: stack).map Prod.fst, ReflTransGen d.Edge i top.1
  | [], top, _, i, hi => by
    obtain rfl : i = top.1 := by simpa using hi
    exact .refl
  | below :: stack, top, h, i, hi => by
    rw [List.map_cons] at hi
    rcases List.mem_cons.1 hi with rfl | hi
    · exact .refl
    · exact (Linked.path h.2 i hi).tail h.1

theorem Followed.mono {d : Digraph} {w w' : Walk} (hw : ∀ j, w.mark j = .finished → w'.mark j = .finished) :
    ∀ {stack : List (Nat × List Nat)} {above above' : List Nat},
      (∀ j ∈ above, j ∈ above' ∨ w'.mark j = .finished) → d.Followed w above stack → d.Followed w' above' stack
  | [], _, _, _, _ => trivial
  | (i, rest) :: stack, above, above', ha, h => by
    refine ⟨fun j hj => ?_, h.2.1, Followed.mono hw (fun j hj => ?_) h.2.2⟩
    · rcases h.1 j hj with hr | hf | hm
      · exact Or.inl hr
      · exact Or.inr (Or.inl (hw j hf))
      · exact Or.inr ((ha j hm).symm)
    · rcases List.mem_cons.1 hj with rfl | hj
      · exact Or.inl List.mem_cons_self
      · exact (ha j hj).imp_left (List.mem_cons_of_mem _)

namespace Walking

variable {d : Digraph} {stack : List (Nat × List Nat)} {w : Walk} {i j : Nat} {rest : List Nat}

theorem lt_size (h : Walking d stack w) (hi : w.mark i ≠ .finished) : i < d.size := by
  rw [← h.size]
  exact Walk.lt_size_of_mark hi

theorem enterRoot (h : Walking d [] w) (hi : w.mark i = .unvisited) :
    Walking d [(i, d.next i)] (w.enter i) := by
  have hlt : i < d.size := h.lt_size (by rw [hi]; decide)
  have hmark : ∀ k, (w.enter i).mark k = if i = k ∧ k < d.size then .entered else w.mark k := fun k => by
    rw [Walk.mark_enter, h.size]
  refine ⟨by simp [Walk.enter, Walk.setMark, h.size], h.no_cycle, h.nodup, fun k => ?_, h.ordered, fun k => ?_,
    by simp, trivial, fun k hk => Or.inl hk, fun _ hk => hk, trivial⟩
  · rw [hmark k, show (w.enter i).order = w.order from rfl, h.mem_order k]
    by_cases hk : i = k
    · subst hk; simp [hlt, hi]
    · simp [hk]
  · have he := h.entered k
    rw [hmark k]
    by_cases hk : i = k
    · subst hk; simp [hlt]
    · have hk' : k ≠ i := fun e => hk e.symm
      simpa [hk, hk'] using he

theorem enter (h : Walking d ((i, j :: rest) :: stack) w) (hj : w.mark j = .unvisited) :
    Walking d ((j, d.next j) :: (i, rest) :: stack) (w.enter j) := by
  have hlt : j < d.size := h.lt_size (by rw [hj]; decide)
  have hedge : d.Edge i j := h.followed.2.1 List.mem_cons_self
  have hnot : j ∉ ((i, rest) :: stack).map Prod.fst := fun hm => by
    rw [(h.entered j).2 hm] at hj
    cases hj
  have hmark : ∀ k, (w.enter j).mark k = if j = k ∧ k < d.size then .entered else w.mark k := fun k => by
    rw [Walk.mark_enter, h.size]
  have hmono : ∀ k, w.mark k = .finished → (w.enter j).mark k = .finished := fun k hk => by
    rw [hmark k, if_neg, hk]
    rintro ⟨rfl, -⟩
    rw [hj] at hk
    cases hk
  refine ⟨by simp [Walk.enter, Walk.setMark, h.size], h.no_cycle, h.nodup, fun k => ?_, h.ordered, fun k => ?_,
    List.nodup_cons.2 ⟨hnot, h.stack_nodup⟩, ⟨hedge, ?_⟩, fun k hk => Or.inl hk, fun _ hk => hk, fun k hk => ?_,
    fun k hk => h.followed.2.1 (List.mem_cons_of_mem _ hk), ?_⟩
  · rw [hmark k, show (w.enter j).order = w.order from rfl, h.mem_order k]
    by_cases hk : j = k
    · subst hk; simp [hlt, hj]
    · simp [hk]
  · have he := h.entered k
    rw [hmark k, List.map_cons, List.mem_cons]
    by_cases hk : j = k
    · subst hk; simp [hlt]
    · have hk' : k ≠ j := fun e => hk e.symm
      simpa [hk, hk'] using he
  · cases stack with
    | nil => trivial
    | cons below stack => exact h.linked
  · rcases h.followed.1 k hk with hr | hf | hm
    · rcases List.mem_cons.1 hr with rfl | hr
      · exact Or.inr (Or.inr List.mem_cons_self)
      · exact Or.inl hr
    · exact Or.inr (Or.inl (hmono k hf))
    · cases hm
  · exact h.followed.2.2.mono hmono (fun k hk => Or.inl (by
      rw [List.mem_singleton.1 hk]
      exact List.mem_cons_self))

theorem skip (h : Walking d ((i, j :: rest) :: stack) w) (hj : w.mark j = .finished) :
    Walking d ((i, rest) :: stack) w := by
  refine ⟨h.size, h.no_cycle, h.nodup, h.mem_order, h.ordered, h.entered, h.stack_nodup, ?_, fun k hk => ?_,
    fun k hk => h.followed.2.1 (List.mem_cons_of_mem _ hk), h.followed.2.2⟩
  · cases stack with
    | nil => trivial
    | cons below stack => exact h.linked
  · rcases h.followed.1 k hk with hr | hf
    · rcases List.mem_cons.1 hr with rfl | hr
      · exact Or.inr (Or.inl hj)
      · exact Or.inl hr
    · exact Or.inr hf

/-- No edge leads back to an entered node: it would close a cycle. -/
theorem mark_ne_entered (hd : d.Acyclic) (h : Walking d ((i, j :: rest) :: stack) w) : w.mark j ≠ .entered := by
  intro hj
  have hpath : ReflTransGen d.Edge j i := h.linked.path j ((h.entered j).1 hj)
  have hedge : d.Edge i j := h.followed.2.1 List.mem_cons_self
  exact hd i (TransGen.head' hedge hpath)

theorem finish (h : Walking d ((i, []) :: stack) w) : Walking d stack (w.finish i) := by
  have hin : w.mark i = .entered := (h.entered i).2 List.mem_cons_self
  have hlt : i < d.size := h.lt_size (by rw [hin]; decide)
  have hfresh : i ∉ w.order.toList := fun hm => by
    rw [((h.mem_order i).1 hm).2] at hin
    cases hin
  have hnot : i ∉ stack.map Prod.fst := (List.nodup_cons.1 h.stack_nodup).1
  have horder := w.toList_order_finish i
  have hmark : ∀ k, (w.finish i).mark k = if i = k ∧ k < d.size then .finished else w.mark k := fun k => by
    rw [Walk.mark_finish, h.size]
  refine ⟨by simp [Walk.finish, Walk.setMark, h.size], h.no_cycle, ?_, fun k => ?_, ?_, fun k => ?_,
    (List.nodup_cons.1 h.stack_nodup).2, ?_, ?_⟩
  · rw [horder, List.nodup_append]
    refine ⟨h.nodup, by simp, fun a ha b hb => ?_⟩
    rw [List.mem_singleton.1 hb]
    exact fun he => hfresh (he ▸ ha)
  · rw [horder, List.mem_append, h.mem_order k, hmark k]
    by_cases hk : i = k
    · subst hk; simp [hlt]
    · have hk' : k ≠ i := fun e => hk e.symm
      simp [hk, hk']
  · intro before k after hsplit j hjk hj
    rw [horder] at hsplit
    rcases List.eq_nil_or_concat after with rfl | ⟨after', z, rfl⟩
    · -- the node just finished: its edges were all followed, and nothing is above it
      obtain ⟨rfl, hki⟩ := List.append_inj' hsplit rfl
      obtain rfl : i = k := by simpa using hki
      rcases h.followed.1 j hjk with hr | hf | hm
      · cases hr
      · exact (h.mem_order j).2 ⟨hj, hf⟩
      · cases hm
    · rw [List.concat_eq_append, ← List.cons_append, ← List.append_assoc] at hsplit
      exact h.ordered before k after' (List.append_inj' hsplit rfl).1 j hjk hj
  · have he := h.entered k
    rw [hmark k]
    rw [List.map_cons, List.mem_cons] at he
    by_cases hk : i = k
    · subst hk; simp [hlt, hnot]
    · have hk' : k ≠ i := fun e => hk e.symm
      simpa [hk, hk'] using he
  · cases stack with
    | nil => trivial
    | cons below stack => exact h.linked.2
  · refine h.followed.2.2.mono (fun k hk => ?_) (fun k hk => Or.inr ?_)
    · rw [hmark k, hk, ite_self]
    · rw [List.mem_singleton.1 hk, hmark i, if_pos ⟨rfl, hlt⟩]

end Walking

/-! ## The steps suffice -/

/-- The nodes that were not entered. -/
def untouched (d : Digraph) (w : Walk) : Finset Nat :=
  (Finset.range d.size).filter (fun i => w.mark i = .unvisited)

/-- What the nodes on the stack have yet to pay. -/
def owed (stack : List (Nat × List Nat)) : Nat := (stack.map (fun entry => 1 + entry.2.length)).sum

theorem weightOn_untouched_enter (d : Digraph) (w : Walk) (hs : w.marks.size = d.size) {j : Nat}
    (hj : w.mark j = .unvisited) :
    d.weightOn (d.untouched (w.enter j)) + d.weight j = d.weightOn (d.untouched w) := by
  have hlt : j < d.size := hs ▸ Walk.lt_size_of_mark (by rw [hj]; decide)
  have hmem : j ∈ d.untouched w := by simp [untouched, hlt, hj]
  rw [← d.weightOn_erase _ hmem]
  congr 2
  ext k
  simp only [untouched, Finset.mem_filter, Finset.mem_range, Finset.mem_erase, Walk.mark_enter, hs]
  by_cases hk : j = k
  · subst hk; simp [hlt]
  · have hk' : k ≠ j := fun e => hk e.symm
    simp [hk, hk']

theorem untouched_finish_subset (d : Digraph) (w : Walk) (i : Nat) : d.untouched (w.finish i) ⊆ d.untouched w := by
  intro k
  simp only [untouched, Finset.mem_filter, Finset.mem_range, Walk.mark_finish]
  rintro ⟨hk, hm⟩
  refine ⟨hk, ?_⟩
  split at hm
  · cases hm
  · exact hm

/-- What the walk has yet to pay: the nodes that were not entered, and the stack. -/
def cost (d : Digraph) (w : Walk) (stack : List (Nat × List Nat)) : Nat := d.weightOn (d.untouched w) + owed stack

theorem cost_finish (d : Digraph) (w : Walk) (i : Nat) (stack : List (Nat × List Nat)) :
    d.cost (w.finish i) stack < d.cost w ((i, []) :: stack) := by
  have hle : d.weightOn (d.untouched (w.finish i)) ≤ d.weightOn (d.untouched w) :=
    Finset.sum_le_sum_of_subset (d.untouched_finish_subset w i)
  simp only [cost, owed, List.map_cons, List.sum_cons, List.length_nil]
  omega

/-- The weight of a node pays for its edges and for the step that leaves it. -/
theorem cost_enter (d : Digraph) (w : Walk) (hs : w.marks.size = d.size) {i j : Nat} {rest : List Nat}
    {stack : List (Nat × List Nat)} (hj : w.mark j = .unvisited) :
    d.cost (w.enter j) ((j, d.next j) :: (i, rest) :: stack) < d.cost w ((i, j :: rest) :: stack) := by
  have hw := d.weightOn_untouched_enter w hs hj
  unfold weight at hw
  simp only [cost, owed, List.map_cons, List.sum_cons, List.length_cons]
  omega

theorem cost_follow (d : Digraph) (w : Walk) (i j : Nat) (rest : List Nat) (stack : List (Nat × List Nat)) :
    d.cost w ((i, rest) :: stack) < d.cost w ((i, j :: rest) :: stack) := by
  simp only [cost, owed, List.map_cons, List.sum_cons, List.length_cons]
  omega

/-- All the nodes and edges pay for the walk from a root. -/
theorem cost_enterRoot_le (d : Digraph) (w : Walk) (hs : w.marks.size = d.size) {root : Nat}
    (hroot : w.mark root = .unvisited) : d.cost (w.enter root) [(root, d.next root)] ≤ d.steps := by
  have hw := d.weightOn_untouched_enter w hs hroot
  have hle := d.weightOn_le_steps (d.untouched w) (Finset.filter_subset _ _)
  unfold weight at hw
  simp only [cost, owed, List.map_cons, List.map_nil, List.sum_cons, List.sum_nil]
  omega

theorem cost_cons_pos (d : Digraph) (w : Walk) (entry : Nat × List Nat) (stack : List (Nat × List Nat)) :
    0 < d.cost w (entry :: stack) := by
  simp only [cost, owed, List.map_cons, List.sum_cons]
  omega

/-- The first report of a cycle stays. -/
theorem cycle_walk_eq_some (d : Digraph) {k : Nat} : ∀ (fuel : Nat) (stack : List (Nat × List Nat)) (w : Walk),
    w.cycle = some k → (d.walk fuel stack w).cycle = some k
  | 0, _, _, h => by simpa [walk] using h
  | _ + 1, [], _, h => by simpa [walk] using h
  | fuel + 1, (i, []) :: stack, w, h => by
    rw [walk]
    exact cycle_walk_eq_some d fuel stack _ h
  | fuel + 1, (i, j :: rest) :: stack, w, h => by
    rw [walk]
    cases w.mark j with
    | unvisited => exact cycle_walk_eq_some d fuel _ _ h
    | entered => exact cycle_walk_eq_some d fuel _ _ (by simp [Walk.reportCycle, h])
    | finished => exact cycle_walk_eq_some d fuel _ _ h

theorem cycle_walk_ne_none (d : Digraph) (fuel : Nat) (stack : List (Nat × List Nat)) (w : Walk)
    (h : w.cycle ≠ none) : (d.walk fuel stack w).cycle ≠ none := by
  obtain ⟨k, hk⟩ := Option.ne_none_iff_exists'.1 h
  rw [d.cycle_walk_eq_some fuel stack w hk]
  exact Option.some_ne_none k

/-- **With enough steps the stack is emptied**, if there is no cycle or none is reported. -/
theorem walk_spec (d : Digraph) : ∀ (fuel : Nat) (stack : List (Nat × List Nat)) (w : Walk),
    d.cost w stack ≤ fuel → Walking d stack w →
      d.Acyclic ∨ (d.walk fuel stack w).cycle = none → Walking d [] (d.walk fuel stack w)
  | 0, [], w, _, h, _ => by simpa [walk] using h
  | 0, entry :: stack, w, hf, _, _ => absurd (d.cost_cons_pos w entry stack) (Nat.not_lt.2 hf)
  | _ + 1, [], w, _, h, _ => by simpa [walk] using h
  | fuel + 1, (i, []) :: stack, w, hf, h, hd => by
    rw [walk] at hd ⊢
    exact walk_spec d fuel stack _ (Nat.le_of_lt_succ ((d.cost_finish w i stack).trans_le hf)) h.finish hd
  | fuel + 1, (i, j :: rest) :: stack, w, hf, h, hd => by
    have hrest : d.cost w ((i, rest) :: stack) ≤ fuel := Nat.le_of_lt_succ ((d.cost_follow w i j rest stack).trans_le hf)
    rw [walk] at hd ⊢
    cases hj : w.mark j with
    | unvisited =>
      rw [hj] at hd
      exact walk_spec d fuel _ _ (Nat.le_of_lt_succ ((d.cost_enter w h.size hj).trans_le hf)) (h.enter hj) hd
    | entered =>
      rw [hj] at hd
      rcases hd with hd | hd
      · exact absurd hj (h.mark_ne_entered hd)
      · exact absurd hd (d.cycle_walk_ne_none fuel _ _ (w.cycle_reportCycle_ne_none j))
    | finished =>
      rw [hj] at hd
      exact walk_spec d fuel _ _ hrest (h.skip hj) hd

theorem walking_start (d : Digraph) : Walking d [] (.start d.size) := by
  refine ⟨by simp [Walk.start], rfl, by simp [Walk.start], fun i => ?_, fun before i after h => ?_, fun i => ?_,
    by simp, trivial, trivial⟩
  · constructor
    · intro hi
      simp [Walk.start] at hi
    · rintro ⟨hlt, hi⟩
      rw [Walk.mark_start hlt] at hi
      cases hi
  · simp [Walk.start] at h
  · constructor
    · intro hi
      have hlt := Walk.lt_size_of_mark (show (Walk.start d.size).mark i ≠ .finished by rw [hi]; decide)
      rw [Walk.mark_start (by simpa [Walk.start] using hlt)] at hi
      cases hi
    · intro hi
      cases hi

theorem cycle_walkFrom_eq_some (d : Digraph) (bound : Nat) (w : Walk) (root : Nat) {k : Nat} (h : w.cycle = some k) :
    (d.walkFrom bound w root).cycle = some k := by
  unfold walkFrom
  split
  · exact d.cycle_walk_eq_some bound _ _ h
  · exact h

theorem cycle_foldl_walkFrom_eq_some (d : Digraph) (bound : Nat) {k : Nat} : ∀ (roots : List Nat) (w : Walk),
    w.cycle = some k → (roots.foldl (d.walkFrom bound) w).cycle = some k
  | [], _, h => h
  | root :: roots, w, h => cycle_foldl_walkFrom_eq_some d bound roots _ (d.cycle_walkFrom_eq_some bound w root h)

theorem walkFrom_spec (d : Digraph) (w : Walk) (root : Nat) (h : Walking d [] w)
    (hd : d.Acyclic ∨ (d.walkFrom d.steps w root).cycle = none) : Walking d [] (d.walkFrom d.steps w root) := by
  unfold walkFrom at hd ⊢
  split
  · rename_i hroot
    rw [if_pos hroot] at hd
    exact d.walk_spec _ _ _ (d.cost_enterRoot_le w h.size hroot) (h.enterRoot hroot) hd
  · exact h

/-! ## Further steps change nothing -/

theorem marks_size_walk (d : Digraph) : ∀ (fuel : Nat) (stack : List (Nat × List Nat)) (w : Walk),
    (d.walk fuel stack w).marks.size = w.marks.size
  | 0, _, _ => by simp [walk]
  | _ + 1, [], _ => by simp [walk]
  | fuel + 1, (i, []) :: stack, w => by
    rw [walk, marks_size_walk d fuel]
    simp [Walk.finish, Walk.setMark]
  | fuel + 1, (i, j :: rest) :: stack, w => by
    rw [walk]
    cases w.mark j with
    | unvisited =>
      simp only [marks_size_walk d fuel]
      simp [Walk.enter, Walk.setMark]
    | entered => exact marks_size_walk d fuel _ _
    | finished => exact marks_size_walk d fuel _ _

theorem marks_size_walkFrom (d : Digraph) (bound : Nat) (w : Walk) (root : Nat) :
    (d.walkFrom bound w root).marks.size = w.marks.size := by
  unfold walkFrom
  split
  · rw [marks_size_walk]
    simp [Walk.enter, Walk.setMark]
  · rfl

theorem walk_of_le (d : Digraph) : ∀ (fuel more : Nat) (stack : List (Nat × List Nat)) (w : Walk),
    w.marks.size = d.size → d.cost w stack ≤ fuel → fuel ≤ more → d.walk more stack w = d.walk fuel stack w
  | 0, 0, _, _, _, _, _ => rfl
  | 0, _ + 1, [], w, _, _, _ => by simp [walk]
  | 0, _ + 1, entry :: stack, w, _, hf, _ => absurd (d.cost_cons_pos w entry stack) (Nat.not_lt.2 hf)
  | _ + 1, _ + 1, [], w, _, _, _ => by simp [walk]
  | fuel + 1, more + 1, (i, []) :: stack, w, hs, hf, hle => by
    rw [walk, walk]
    exact walk_of_le d fuel more stack _ (by simpa [Walk.finish, Walk.setMark] using hs)
      (Nat.le_of_lt_succ ((d.cost_finish w i stack).trans_le hf)) (Nat.le_of_succ_le_succ hle)
  | fuel + 1, more + 1, (i, j :: rest) :: stack, w, hs, hf, hle => by
    have hrest : d.cost w ((i, rest) :: stack) ≤ fuel := Nat.le_of_lt_succ ((d.cost_follow w i j rest stack).trans_le hf)
    rw [walk, walk]
    cases hj : w.mark j with
    | unvisited =>
      exact walk_of_le d fuel more _ _ (by simpa [Walk.enter, Walk.setMark] using hs)
        (Nat.le_of_lt_succ ((d.cost_enter w hs hj).trans_le hf)) (Nat.le_of_succ_le_succ hle)
    | entered => exact walk_of_le d fuel more _ (w.reportCycle j) hs hrest (Nat.le_of_succ_le_succ hle)
    | finished => exact walk_of_le d fuel more _ w hs hrest (Nat.le_of_succ_le_succ hle)

theorem walkFrom_of_le (d : Digraph) {bound : Nat} (hle : d.steps ≤ bound) (w : Walk) (hs : w.marks.size = d.size)
    (root : Nat) : d.walkFrom bound w root = d.walkFrom d.steps w root := by
  unfold walkFrom
  split
  · rename_i hroot
    exact d.walk_of_le _ _ _ _ (by simpa [Walk.enter, Walk.setMark] using hs) (d.cost_enterRoot_le w hs hroot) hle
  · rfl

theorem foldl_walkFrom_of_le (d : Digraph) {bound : Nat} (hle : d.steps ≤ bound) : ∀ (roots : List Nat) (w : Walk),
    w.marks.size = d.size → roots.foldl (d.walkFrom bound) w = roots.foldl (d.walkFrom d.steps) w
  | [], _, _ => rfl
  | root :: roots, w, hs => by
    rw [List.foldl_cons, List.foldl_cons, d.walkFrom_of_le hle w hs root]
    exact foldl_walkFrom_of_le d hle roots _ ((d.marks_size_walkFrom d.steps w root).trans hs)

/-- **A walk that is allowed more steps is the same walk.** -/
theorem walkAll_of_le (d : Digraph) {bound : Nat} (hle : d.steps ≤ bound) (roots : List Nat) :
    d.walkAll roots = roots.foldl (d.walkFrom bound) (.start d.size) :=
  (d.foldl_walkFrom_of_le hle roots _ (by simp [Walk.start])).symm

/-! ## Nothing is visited twice, and every root is finished -/

theorem mark_walk_ne_unvisited (d : Digraph) {k : Nat} : ∀ (fuel : Nat) (stack : List (Nat × List Nat)) (w : Walk),
    w.mark k ≠ .unvisited → (d.walk fuel stack w).mark k ≠ .unvisited
  | 0, _, _, h => by simpa [walk] using h
  | _ + 1, [], _, h => by simpa [walk] using h
  | fuel + 1, (i, []) :: stack, w, h => by
    rw [walk]
    refine mark_walk_ne_unvisited d fuel stack _ ?_
    rw [Walk.mark_finish]
    split
    · decide
    · exact h
  | fuel + 1, (i, j :: rest) :: stack, w, h => by
    rw [walk]
    cases w.mark j with
    | unvisited =>
      refine mark_walk_ne_unvisited d fuel _ _ ?_
      rw [Walk.mark_enter]
      split
      · decide
      · exact h
    | entered => exact mark_walk_ne_unvisited d fuel _ _ h
    | finished => exact mark_walk_ne_unvisited d fuel _ _ h

theorem mark_walkFrom_ne_unvisited (d : Digraph) {k : Nat} (bound : Nat) (w : Walk) (root : Nat)
    (h : w.mark k ≠ .unvisited) : (d.walkFrom bound w root).mark k ≠ .unvisited := by
  unfold walkFrom
  split
  · refine d.mark_walk_ne_unvisited _ _ _ ?_
    rw [Walk.mark_enter]
    split
    · decide
    · exact h
  · exact h

theorem mark_walkFrom_root (d : Digraph) (bound : Nat) (w : Walk) (root : Nat) :
    (d.walkFrom bound w root).mark root ≠ .unvisited := by
  unfold walkFrom
  split
  · rename_i hroot
    refine d.mark_walk_ne_unvisited _ _ _ ?_
    rw [Walk.mark_enter, if_pos ⟨rfl, Walk.lt_size_of_mark (by rw [hroot]; decide)⟩]
    decide
  · assumption

theorem mark_foldl_walkFrom (d : Digraph) {k : Nat} (bound : Nat) : ∀ (roots : List Nat) (w : Walk),
    w.mark k ≠ .unvisited ∨ k ∈ roots → (roots.foldl (d.walkFrom bound) w).mark k ≠ .unvisited
  | [], w, h => by simpa using h
  | root :: roots, w, h => by
    rw [List.foldl_cons]
    refine mark_foldl_walkFrom d bound roots _ ?_
    rcases h with h | h
    · exact Or.inl (d.mark_walkFrom_ne_unvisited bound w root h)
    · rcases List.mem_cons.1 h with rfl | h
      · exact Or.inl (d.mark_walkFrom_root bound w k)
      · exact Or.inr h

theorem foldl_walkFrom_spec (d : Digraph) : ∀ (roots : List Nat) (w : Walk), Walking d [] w →
    d.Acyclic ∨ (roots.foldl (d.walkFrom d.steps) w).cycle = none → Walking d [] (roots.foldl (d.walkFrom d.steps) w)
  | [], _, h, _ => h
  | root :: roots, w, h, hd => by
    rw [List.foldl_cons] at hd ⊢
    refine foldl_walkFrom_spec d roots _ (d.walkFrom_spec w root h (hd.imp_right (fun hc => ?_))) hd
    rw [Option.eq_none_iff_forall_not_mem]
    intro k hk
    rw [d.cycle_foldl_walkFrom_eq_some d.steps roots _ hk] at hc
    cases hc

/-- **Where there is no cycle, or the walk reports none, it lists every node after those its edges lead to.** -/
theorem walking_walkAll (d : Digraph) {roots : List Nat} (hd : d.Acyclic ∨ (d.walkAll roots).cycle = none) :
    Walking d [] (d.walkAll roots) :=
  d.foldl_walkFrom_spec roots _ d.walking_start hd

/-- **Every root is finished.** -/
theorem mem_order_walkAll (d : Digraph) {roots : List Nat} (hd : d.Acyclic ∨ (d.walkAll roots).cycle = none)
    {root : Nat} (hroot : root ∈ roots) (hlt : root < d.size) : root ∈ (d.walkAll roots).order.toList := by
  have h := d.walking_walkAll hd
  refine (h.mem_order root).2 ⟨hlt, ?_⟩
  have hvisited : (d.walkAll roots).mark root ≠ .unvisited := d.mark_foldl_walkFrom d.steps roots _ (Or.inr hroot)
  have hleft : (d.walkAll roots).mark root ≠ .entered := fun he => List.not_mem_nil ((h.entered root).1 he)
  cases hm : (d.walkAll roots).mark root with
  | unvisited => exact absurd hm hvisited
  | entered => exact absurd hm hleft
  | finished => rfl

/-! ## Only what the roots lead to is listed -/

section Closed

variable (d : Digraph) {P : Nat → Prop} (hP : ∀ i j, P i → d.Edge i j → P j)

include hP

/-- What holds of the nodes on the stack, and passes along edges, holds of the nodes that are finished. -/
theorem of_mem_order_walk : ∀ (fuel : Nat) (stack : List (Nat × List Nat)) (w : Walk),
    (∀ entry ∈ stack, P entry.1 ∧ entry.2 ⊆ d.next entry.1) → (∀ i ∈ w.order.toList, P i) →
      ∀ i ∈ (d.walk fuel stack w).order.toList, P i
  | 0, _, _, _, hw => by simpa [walk] using hw
  | _ + 1, [], _, _, hw => by simpa [walk] using hw
  | fuel + 1, (i, []) :: stack, w, hs, hw => by
    rw [walk]
    refine of_mem_order_walk fuel stack _ (fun entry he => hs entry (List.mem_cons_of_mem _ he)) (fun k hk => ?_)
    rw [w.toList_order_finish i] at hk
    rcases List.mem_append.1 hk with hk | hk
    · exact hw k hk
    · rw [List.mem_singleton.1 hk]
      exact (hs (i, []) List.mem_cons_self).1
  | fuel + 1, (i, j :: rest) :: stack, w, hs, hw => by
    obtain ⟨hi, hsub⟩ := hs (i, j :: rest) List.mem_cons_self
    have hfollowed : ∀ entry ∈ (i, rest) :: stack, P entry.1 ∧ entry.2 ⊆ d.next entry.1 := fun entry he => by
      rcases List.mem_cons.1 he with rfl | he
      · exact ⟨hi, fun k hk => hsub (List.mem_cons_of_mem _ hk)⟩
      · exact hs entry (List.mem_cons_of_mem _ he)
    rw [walk]
    cases w.mark j with
    | unvisited =>
      refine of_mem_order_walk fuel _ (w.enter j) (fun entry he => ?_) hw
      rcases List.mem_cons.1 he with rfl | he
      · exact ⟨hP i j hi (hsub List.mem_cons_self), List.Subset.refl _⟩
      · exact hfollowed entry he
    | entered => exact of_mem_order_walk fuel _ (w.reportCycle j) hfollowed hw
    | finished => exact of_mem_order_walk fuel _ w hfollowed hw

theorem of_mem_order_foldl_walkFrom (bound : Nat) : ∀ (roots : List Nat) (w : Walk), (∀ root ∈ roots, P root) →
    (∀ i ∈ w.order.toList, P i) → ∀ i ∈ (roots.foldl (d.walkFrom bound) w).order.toList, P i
  | [], _, _, hw => hw
  | root :: roots, w, hroots, hw => by
    rw [List.foldl_cons]
    refine of_mem_order_foldl_walkFrom bound roots _ (fun r hr => hroots r (List.mem_cons_of_mem _ hr)) ?_
    unfold walkFrom
    split
    · refine d.of_mem_order_walk hP bound _ (w.enter root) (fun entry he => ?_) hw
      rw [List.mem_singleton.1 he]
      exact ⟨hroots root List.mem_cons_self, List.Subset.refl _⟩
    · exact hw

/-- **What holds of the roots, and passes along edges, holds of every node that is listed.** -/
theorem of_mem_order_walkAll {roots : List Nat} (hroots : ∀ root ∈ roots, P root) :
    ∀ i ∈ (d.walkAll roots).order.toList, P i :=
  d.of_mem_order_foldl_walkFrom hP d.steps roots _ hroots (by simp [Walk.start])

end Closed

/-! ## The places of the nodes in the order -/

theorem idxOf_lt_of_mem_before {α : Type} [DecidableEq α] {l before after : List α} {a b : α}
    (hsplit : l = before ++ a :: after) (hnodup : l.Nodup) (hb : b ∈ before) : l.idxOf b < l.idxOf a := by
  subst hsplit
  have ha : a ∉ before := fun hm => (List.nodup_append.1 hnodup).2.2 a hm a List.mem_cons_self rfl
  rw [List.idxOf_append_of_mem hb, List.idxOf_append_of_notMem ha, List.idxOf_cons_self, Nat.add_zero]
  exact List.idxOf_lt_length_of_mem hb

namespace Walking

variable {d : Digraph} {w : Walk} {i j : Nat}

theorem length_order_le (h : Walking d [] w) : w.order.toList.length ≤ d.size := by
  have hsub : w.order.toList ⊆ List.range d.size := fun k hk => List.mem_range.2 ((h.mem_order k).1 hk).1
  simpa using (h.nodup.subperm hsub).length_le

/-- **Edges lead to earlier places.** -/
theorem idxOf_lt_of_edge (h : Walking d [] w) (hi : i ∈ w.order.toList) (hedge : d.Edge i j) (hj : j < d.size) :
    w.order.toList.idxOf j < w.order.toList.idxOf i := by
  obtain ⟨before, after, hsplit⟩ := List.append_of_mem hi
  exact idxOf_lt_of_mem_before hsplit h.nodup (h.ordered before i after hsplit j hedge hj)

end Walking
end Digraph
end TensorGraph
