import TensorGraph.Proofs.Graph.Settle
/-!
# Downstream — how far a propagation can reach

A visit makes readers of the visited node pending and nobody else.  So if a set of nodes has the
readers of all its members, a run that starts inside the set stays there, and the outputs of other
nodes keep their types.  The smallest such set is what is downstream of the seeds.
-/
namespace TensorGraph

open TensorGraph.Graph
open Relation (ReflTransGen)

namespace Graph

/-- The node is one of the seeds, or it depends on one, directly or not. -/
def Downstream (g : Graph) (seeds : List NodeId) (id : NodeId) : Prop := ∃ s ∈ seeds, ReflTransGen g.DependsOn id s

theorem Downstream.of_dependsOn {g : Graph} {seeds : List NodeId} {a b : NodeId} (h : g.Downstream seeds b)
    (hab : g.DependsOn a b) : g.Downstream seeds a := by
  obtain ⟨s, hs, hpath⟩ := h
  exact ⟨s, hs, hpath.head hab⟩

end Graph

/-- **A run that starts in a set of nodes stays there**, if the set has the readers of its nodes: other types are kept. -/
theorem Ascending.type?_run {g : Graph} (hg : g.WellFormed) {rank? : NodeId → Option Nat}
    (hrank : ∀ {id : NodeId} {n : Node}, g.node? id = some n → rank? id = some (g.rank id)) {K : NodeId → Prop}
    (hreaders : ∀ {a b : NodeId}, g.DependsOn a b → K b → K a) {id : NodeId} {n : Node} (hn : g.node? id = some n)
    (hid : ¬ K id) {v : ValueId} (hv : v ∈ n.outputs) : ∀ (fuel : Nat) {bound : Nat} {p q : Propagation},
      Ascending g bound p → (∀ {j : NodeId} {m : Node}, g.node? j = some m → g.rank j ∈ p.pending → K j) →
        Propagation.run g.walkOrder.toArray rank? fuel p = .ok q → q.type? v = p.type? v
  | 0, _, _, _, _, _, hrun => by rw [Except.ok.inj hrun]
  | fuel + 1, bound, p, q, h, hpending, hrun => by
    rcases h.run_succ hg hrun with ⟨-, rfl⟩ | ⟨j, rest, next, hp, -, hvisit, hrun⟩
    · rfl
    have hrest : ∀ {k : NodeId} {m : Node}, g.node? k = some m → g.rank k ∈ rest → K k := fun hk hmem =>
      hpending hk (hp ▸ List.mem_cons_of_mem _ hmem)
    have hnext := h.of_visit hg hrank hp hvisit
    rcases Visit.of_visit (p := { p with pending := rest }) hg hrank h.graph_eq hvisit with ⟨-, rfl⟩ | ⟨m, types, hvis⟩
    · exact Ascending.type?_run hg hrank hreaders hn hid hv fuel (p := { p with pending := rest }) hnext hrest hrun
    have hj : K j := hpending hvis.node (hp ▸ List.mem_cons_self)
    rw [Ascending.type?_run hg hrank hreaders hn hid hv fuel hnext (fun hk hmem => ?_) hrun]
    · exact hvis.type?_eq (hg.outputs_disjoint hn hvis.node (fun he => hid (he ▸ hj)) hv)
    · rcases hvis.pending_readers hmem with hmem | ⟨w, hw, u, hread, hr⟩
      · exact hrest hk hmem
      · obtain rfl := rank_inj hg hk hr
        obtain ⟨val, hval, rfl⟩ := hg.output_live' hvis.node hw
        exact hreaders (hread.dependsOn hval) hj

namespace Graph

/-- **Propagation changes types downstream of the seeds only.** -/
theorem type?_propagate {g h : Graph} (hg : g.WellFormed) {seeds : List NodeId}
    (hseeds : ∀ id ∈ seeds, (g.node? id).isSome = true) (hprop : g.propagate seeds = .ok h) {v : ValueId} {val : Value}
    (hv : g.value? v = some val) (hdown : ¬ g.Downstream seeds val.producer) : h.type? v = g.type? v := by
  obtain ⟨n, hn, hout⟩ := hg.produced hv
  obtain ⟨q, hrun, -, rfl⟩ := propagate_eq_ok hprop
  have hstart := Ascending.start hg (rankTable_eq hg) hseeds
  obtain ⟨_, hend⟩ := hstart.run hg (rankTable_eq hg) _ hrun
  rw [Propagation.type?_commit hend.live]
  refine Ascending.type?_run hg (rankTable_eq hg) (K := g.Downstream seeds) (fun hab hb => hb.of_dependsOn hab) hn hdown
    (List.mem_of_getElem? hout) _ hstart (fun {j m} hj hmem => ?_) hrun
  obtain ⟨s, hs, k, hk, hr⟩ := exists_seed (rankTable_eq hg) hseeds hmem
  exact ⟨s, hs, rank_inj hg hj hr ▸ .refl⟩

end Graph
end TensorGraph
