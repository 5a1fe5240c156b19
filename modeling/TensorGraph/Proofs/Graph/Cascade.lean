import Mathlib.Data.Set.Basic
import Mathlib.Order.Bounds.Basic
import TensorGraph.Proofs.Graph.Without
/-!
# Cascade — what the collector removes

An expendable node goes when all its readers have gone, provided that it had any; a node that nobody
read goes if it is a candidate.  The sets that are closed under this rule have a least one, and the
collector removes exactly its members: what it takes out belongs to every closed set, because the
readers of the node belong to it already, and if it stopped short of a closed set it would leave a
dead node that it had reason to look at (`deadAt_of_removeDead`).  Neither the order of the
candidates nor their number of times matters to a least set.
-/
namespace TensorGraph
namespace Graph

/-- **The set is closed under the cascade**: an expendable node is in it once all its readers are, if it has readers
or is a candidate. -/
def CascadeClosed (g : Graph) (candidates : List NodeId) (D : Set NodeId) : Prop :=
  ∀ id, g.Expendable id → (∀ c, g.DependsOn c id → c ∈ D) → ((∃ c, g.DependsOn c id) ∨ id ∈ candidates) → id ∈ D

/-- **A node of the least closed set has been put there by the cascade.** -/
theorem CascadeClosed.of_mem_least {g : Graph} {candidates : List NodeId} {R : Set NodeId}
    (hleast : IsLeast {D | g.CascadeClosed candidates D} R) {id : NodeId} (hid : id ∈ R) :
    g.Expendable id ∧ (∀ c, g.DependsOn c id → c ∈ R) ∧ ((∃ c, g.DependsOn c id) ∨ id ∈ candidates) := by
  have hclosed : g.CascadeClosed candidates {a | g.Expendable a ∧ (∀ c, g.DependsOn c a → c ∈ R) ∧
      ((∃ c, g.DependsOn c a) ∨ a ∈ candidates)} := by
    refine fun a ha hreaders hreason => ⟨ha, fun c hc => ?_, hreason⟩
    obtain ⟨hc, hcreaders, hcreason⟩ := hreaders c hc
    exact hleast.1 c hc hcreaders hcreason
  exact hleast.2 hclosed hid

/-- The invariant of the collector: it has left the graph `h` without the nodes in `removed`, which every closed set has,
and what is on the stack had readers or is a candidate. -/
structure Cascading (g : Graph) (candidates stack removed : List NodeId) (h : Graph) : Prop where
  wellFormed : h.WellFormed
  without : Without g removed h
  nodup : removed.Nodup
  least : ∀ D, g.CascadeClosed candidates D → ∀ id ∈ removed, id ∈ D
  queued : ∀ id ∈ stack, (∃ c, g.DependsOn c id) ∨ id ∈ candidates

namespace Cascading

variable {g h : Graph} {candidates stack removed : List NodeId} {id : NodeId} {n : Node}

theorem start (hg : g.WellFormed) (candidates : List NodeId) : Cascading g candidates candidates.reverse [] g where
  wellFormed := hg
  without := .refl hg
  nodup := .nil
  least _ _ _ hid := absurd hid List.not_mem_nil
  queued _ hid := Or.inr (List.mem_reverse.1 hid)

theorem skip (hs : Cascading g candidates (id :: stack) removed h) : Cascading g candidates stack removed h :=
  { hs with queued := fun a ha => hs.queued a (List.mem_cons_of_mem id ha) }

theorem drop (hs : Cascading g candidates stack removed h) : Cascading g candidates [] removed h :=
  { hs with queued := fun _ ha => absurd ha List.not_mem_nil }

/-- **Taking out a dead node is a step of the cascade.** -/
theorem takeOut (hs : Cascading g candidates (id :: stack) removed h) (hn : h.node? id = some n)
    (hdead : h.isDead n = true) :
    Cascading g candidates ((h.producersAmong n.inputs).reverse ++ stack) (id :: removed) (h.takeOut id n) := by
  obtain ⟨hleft, hexpendable, hreaders⟩ := (hs.without.deadAt_iff hs.wellFormed).1 ⟨n, hn, hdead⟩
  refine ⟨wellFormed_takeOut hs.wellFormed hn (outputs_unused_of_isDead hdead), hs.without.takeOut hs.wellFormed hn,
    List.nodup_cons.2 ⟨hleft, hs.nodup⟩, fun D hD a ha => ?_, fun a ha => ?_⟩
  · rcases List.mem_cons.1 ha with rfl | ha
    · exact hD a hexpendable (fun c hc => hs.least D hD c (hreaders c hc)) (hs.queued a List.mem_cons_self)
    · exact hs.least D hD a ha
  · rcases List.mem_append.1 ha with ha | ha
    · -- the node that goes has read an output of this one
      have hdep : h.DependsOn id a := by
        rw [DependsOn, producersOf, inputsOf, hn]
        exact List.mem_reverse.1 ha
      exact Or.inl ⟨id, (hs.without.dependsOn_iff.1 hdep).1⟩
    · exact hs.queued a (List.mem_cons_of_mem id ha)

theorem removeDeadFrom : ∀ (fuel : Nat) (stack removed : List NodeId) (h : Graph), Cascading g candidates stack removed h →
    Cascading g candidates [] (Graph.removeDeadFrom fuel stack (h, removed)).2
      (Graph.removeDeadFrom fuel stack (h, removed)).1
  | 0, _, _, _, hs => hs.drop
  | _ + 1, [], _, _, hs => hs
  | fuel + 1, id :: stack, removed, h, hs => by
    rw [Graph.removeDeadFrom]
    cases hn : h.node? id with
    | none => exact removeDeadFrom fuel stack removed h hs.skip
    | some n =>
      simp only
      split
      · rename_i hdead
        exact removeDeadFrom fuel _ _ _ (hs.takeOut hn hdead)
      · exact removeDeadFrom fuel stack removed h hs.skip

end Cascading

variable {g : Graph}

theorem cascading_removeDead (hg : g.WellFormed) (candidates : List NodeId) :
    Cascading g candidates [] (g.removeDead candidates).2.reverse (g.removeDead candidates).1 := by
  have hend := Cascading.removeDeadFrom (g.inputCount + candidates.length) _ _ _ (Cascading.start hg candidates)
  rwa [← List.reverse_reverse (removeDeadFrom _ _ _).2] at hend

/-- **The collector takes nodes out and does nothing else.** -/
theorem without_removeDead (hg : g.WellFormed) (candidates : List NodeId) :
    Without g (g.removeDead candidates).2 (g.removeDead candidates).1 :=
  (cascading_removeDead hg candidates).without.of_mem_iff (fun _ => List.mem_reverse.symm)

theorem nodup_removeDead (hg : g.WellFormed) (candidates : List NodeId) : (g.removeDead candidates).2.Nodup :=
  List.nodup_reverse.1 (cascading_removeDead hg candidates).nodup

/-- **The collector removes the least set that is closed under the cascade.** -/
theorem isLeast_removeDead (hg : g.WellFormed) (candidates : List NodeId) :
    IsLeast {D | g.CascadeClosed candidates D} {id | id ∈ (g.removeDead candidates).2} := by
  refine ⟨fun id hexpendable hreaders hreason => ?_, fun D hD id hid => ?_⟩
  · by_contra hleft
    have hdead : (g.removeDead candidates).1.DeadAt id :=
      ((without_removeDead hg candidates).deadAt_iff (wellFormed_removeDead hg candidates)).2
        ⟨hleft, hexpendable, hreaders⟩
    obtain ⟨hbefore, hcandidate⟩ := deadAt_of_removeDead hg hdead
    rcases hreason with ⟨c, hc⟩ | hmem
    · exact ((deadAt_iff hg).1 hbefore).2 c hc
    · exact hcandidate hmem
  · exact (cascading_removeDead hg candidates).least D hD id (List.mem_reverse.2 hid)

/-- Parameters and nodes with an output among the results are not removed. -/
theorem expendable_of_removed (hg : g.WellFormed) {candidates : List NodeId} {id : NodeId}
    (hid : id ∈ (g.removeDead candidates).2) : g.Expendable id :=
  (CascadeClosed.of_mem_least (isLeast_removeDead hg candidates) hid).1

/-- **Only what the candidates are matters**, not their order or how often they are named. -/
theorem removeDead_congr (hg : g.WellFormed) {candidates candidates' : List NodeId}
    (hmem : ∀ id, id ∈ candidates' ↔ id ∈ candidates) :
    (g.removeDead candidates').1 = (g.removeDead candidates).1 ∧
      (g.removeDead candidates').2.Perm (g.removeDead candidates).2 := by
  have hclosed : {D | g.CascadeClosed candidates' D} = {D | g.CascadeClosed candidates D} := by
    simp only [CascadeClosed, hmem]
  have hleast := isLeast_removeDead hg candidates'
  rw [hclosed] at hleast
  have hsame : ∀ id, id ∈ (g.removeDead candidates').2 ↔ id ∈ (g.removeDead candidates).2 :=
    Set.ext_iff.1 (hleast.unique (isLeast_removeDead hg candidates))
  refine ⟨(without_removeDead hg candidates).unique ((without_removeDead hg candidates').of_mem_iff ?_), ?_⟩
  · exact fun id => (hsame id).symm
  · exact (List.perm_ext_iff_of_nodup (nodup_removeDead hg candidates') (nodup_removeDead hg candidates)).2 hsame

end Graph
end TensorGraph
