import TensorGraph.Proofs.Graph.Stage
import TensorGraph.Proofs.Graph.Typing
/-!
# Settle — propagation brings every type up to date

While a propagation runs, a node that is not typed is pending, or it reads a value that is known
before the graph runs and the producer of that value is pending.  A visit takes the lowest rank
and adds higher ranks only, so no node is visited twice and nothing is pending at the end.  Then
every node is typed.
-/
namespace TensorGraph

open TensorGraph.Graph

/-- The node reads a value that is known before the graph runs, and the rank of its producer is pending. -/
def Graph.Shadowed (g : Graph) (pending : List Nat) (n : Node) : Prop :=
  ∃ v ∈ n.inputs, ∃ id p, g.producerId? v = some id ∧ g.node? id = some p ∧ p.op.hasKnownValue = true ∧
    g.rank id ∈ pending

/-- A propagation that is done with the ranks below `bound`: what is pending lies above, in ascending order. -/
structure Ascending (g : Graph) (bound : Nat) (p : Propagation) : Prop where
  graph_eq : p.graph = g
  live : p.Live
  sorted : p.pending.Pairwise (· < ·)
  bounds : ∀ r ∈ p.pending, bound ≤ r ∧ r < g.walkOrder.length

/-- **The invariant of a propagation**: ranks below `bound` are done with, and every node is typed, pending, or
waits for a pending node whose value is known. -/
structure Settling (g : Graph) (bound : Nat) (p : Propagation) : Prop extends Ascending g bound p where
  settled : ∀ {id : NodeId} {n : Node}, g.node? id = some n →
    g.rank id ∈ p.pending ∨ g.Shadowed p.pending n ∨ g.TypedUnder p.type? n

section

variable {g : Graph} {bound r : Nat} {rest : List Nat} {p : Propagation}

theorem Ascending.drop (h : Ascending g bound p) (hp : p.pending = r :: rest) :
    Ascending g (r + 1) { p with pending := rest } := by
  have hsorted := h.sorted
  rw [hp] at hsorted
  refine ⟨h.graph_eq, h.live, (List.pairwise_cons.1 hsorted).2, fun s hs => ?_⟩
  refine ⟨(List.pairwise_cons.1 hsorted).1 s hs, (h.bounds s ?_).2⟩
  rw [hp]
  exact List.mem_cons_of_mem r hs

theorem Settling.drop (h : Settling g bound p) (hp : p.pending = r :: rest)
    (hr : ∀ id n, g.node? id = some n → g.rank id ≠ r) : Settling g (r + 1) { p with pending := rest } := by
  have hmem : ∀ {id : NodeId} {n : Node}, g.node? id = some n → g.rank id ∈ p.pending → g.rank id ∈ rest := by
    intro id n hn hin
    rw [hp] at hin
    exact (List.mem_cons.1 hin).resolve_left (hr id n hn)
  refine ⟨h.toAscending.drop hp, fun {id n} hn => ?_⟩
  rcases h.settled hn with hin | ⟨v, hv, j, m, hj, hm, hknown, hin⟩ | htyped
  · exact Or.inl (hmem hn hin)
  · exact Or.inr (Or.inl ⟨v, hv, j, m, hj, hm, hknown, hmem hm hin⟩)
  · exact Or.inr (Or.inr htyped)

end

/-- The values that are known once the staged types are written are those that were looked up. -/
theorem Propagation.knownValue?_commit {p : Propagation} (hp : p.Live) (v : ValueId) :
    p.commit.knownValue? v = p.graph.knownValueUnder? p.type? v :=
  knownValueUnder?_congr (p.commit_retyped.producer? v) (fun _ _ _ _ _ _ _ => type?_commit hp _)

/-! ## One visit -/

/-- A visit of node `id` of `g` leads from `p` to `q`. -/
structure Visit (g : Graph) (rank? : NodeId → Option Nat) (id : NodeId) (n : Node) (types : List TensorType)
    (p q : Propagation) : Prop where
  wellFormed : g.WellFormed
  ranks : ∀ {id : NodeId} {n : Node}, g.node? id = some n → rank? id = some (g.rank id)
  graph_eq : p.graph = g
  node : g.node? id = some n
  inferred : g.inferOutputsUnder p.type? n.op n.inputs = .ok types
  length_eq : types.length = n.outputs.length
  staged : Propagation.Staged rank? n.op.hasKnownValue (n.outputs.zip types) p q

namespace Visit

variable {g : Graph} {rank? : NodeId → Option Nat} {id : NodeId} {n : Node} {types : List TensorType}
  {p q : Propagation}

theorem map_fst (h : Visit g rank? id n types p q) : (n.outputs.zip types).map Prod.fst = n.outputs :=
  List.map_fst_zip (Nat.le_of_eq h.length_eq.symm)

theorem exists_staged (h : Visit g rank? id n types p q) {v : ValueId} (hv : v ∈ n.outputs) :
    ∃ e ∈ n.outputs.zip types, e.1 = v := by
  rw [← h.map_fst] at hv
  exact List.mem_map.1 hv

theorem type?_eq (h : Visit g rank? id n types p q) {v : ValueId} (hv : v ∉ n.outputs) :
    q.type? v = p.type? v := by
  rw [← h.map_fst] at hv
  exact h.staged.type?_other v hv

/-- **What a visit by the propagation comes to**: the node is gone, or its outputs are staged. -/
theorem of_visit (hg : g.WellFormed)
    (hrank : ∀ {id : NodeId} {n : Node}, g.node? id = some n → rank? id = some (g.rank id))
    (hgraph : p.graph = g) (hvisit : Propagation.visit rank? p id = .ok q) :
    (g.node? id = none ∧ q = p) ∨ ∃ n types, Visit g rank? id n types { p with visited := id :: p.visited } q := by
  subst hgraph
  rcases Propagation.visit_eq_ok hvisit with ⟨hdead, rfl⟩ | ⟨n, types, hn, hinf, hlen, rfl⟩
  · exact Or.inl ⟨hdead, rfl⟩
  · have hfst : (n.outputs.zip types).map Prod.fst = n.outputs := List.map_fst_zip (Nat.le_of_eq hlen.symm)
    have hnodup : ((n.outputs.zip types).map Prod.fst).Nodup := by
      rw [hfst]
      exact hg.outputs_nodup hn
    refine Or.inr ⟨n, types, hg, hrank, rfl, hn, hinf, hlen,
      Propagation.foldl_stage_spec rank? n.op.hasKnownValue (n.outputs.zip types) _ hnodup (fun e he => ?_)⟩
    obtain ⟨val, hval, -⟩ := hg.output_live' hn (hfst ▸ List.mem_map_of_mem he)
    exact Option.isSome_iff_exists.2 ⟨val, hval⟩

/-- The readers of an output become pending if its type changed or its value is known. -/
theorem reader_pending (h : Visit g rank? id n types p q) {v : ValueId} (hv : v ∈ n.outputs)
    (hchanged : n.op.hasKnownValue = true ∨ q.type? v ≠ p.type? v) {u : Use} (hu : g.Reads u v) :
    g.rank u.node ∈ q.pending := by
  obtain ⟨e, he, rfl⟩ := h.exists_staged hv
  obtain ⟨m, hm⟩ := hu.exists_node
  refine h.staged.readers e he hchanged u ?_ _ (h.ranks hm)
  rw [h.graph_eq]
  exact h.wellFormed.mem_usesOf.2 hu

/-- What becomes pending reads an output of the node. -/
theorem pending_readers (h : Visit g rank? id n types p q) {r : Nat} (hr : r ∈ q.pending) :
    r ∈ p.pending ∨ ∃ v ∈ n.outputs, ∃ u, g.Reads u v ∧ r = g.rank u.node := by
  rcases h.staged.pending_new r hr with hr | ⟨e, he, u, hu, hur⟩
  · exact Or.inl hr
  · have hout : e.1 ∈ n.outputs := by
      rw [← h.map_fst]
      exact List.mem_map_of_mem he
    rw [h.graph_eq] at hu
    have hreads := h.wellFormed.mem_usesOf.1 hu
    obtain ⟨m, hm⟩ := hreads.exists_node
    rw [h.ranks hm] at hur
    exact Or.inr ⟨e.1, hout, u, hreads, (Option.some.inj hur).symm⟩

/-- What becomes pending comes after the node. -/
theorem pending_after (h : Visit g rank? id n types p q) {r : Nat} (hr : r ∈ q.pending) :
    r ∈ p.pending ∨ (g.rank id < r ∧ r < g.walkOrder.length) := by
  rcases h.pending_readers hr with hr | ⟨v, hv, u, hreads, rfl⟩
  · exact Or.inl hr
  · obtain ⟨m, hm⟩ := hreads.exists_node
    exact Or.inr ⟨rank_lt_of_reads_output h.wellFormed h.node hv hreads, rank_lt_length h.wellFormed hm⟩

/-- **The visited node is typed**: nothing it looks at is among its outputs. -/
theorem typed_self (h : Visit g rank? id n types p q) : g.TypedUnder q.type? n := by
  have hinput : ∀ v ∈ n.inputs, v ∉ n.outputs := fun v hv hout => by
    obtain ⟨i, hreads⟩ := reads_of_mem_inputs h.node hv
    exact Nat.lt_irrefl _ (rank_lt_of_reads_output h.wellFormed h.node hout hreads)
  refine ⟨types, ?_, ?_⟩
  · rw [← h.inferred]
    refine inferOutputsUnder_congr n.op (fun v hv => h.type?_eq (hinput v hv))
      (fun v hv => knownValueUnder?_congr rfl (fun m input rest output hm _ hin => h.type?_eq (fun hout => ?_)))
    -- a cycle: the node reads `v`, its producer reads `input`, and that is an output of the node
    obtain ⟨val, hval, hnode⟩ := producer?_eq_some hm
    have hreads : g.Reads ⟨val.producer, 0⟩ input := ⟨m, hnode, by rw [hin]; rfl⟩
    have hup := rank_lt_of_reads_output h.wellFormed h.node hout hreads
    have hdown := rank_lt_of_dependsOn h.wellFormed (dependsOn_iff.2 ⟨n, v, val, h.node, hv, hval, rfl⟩)
    exact Nat.lt_asymm hup hdown
  · refine List.ext_getElem? (fun i => ?_)
    rw [List.getElem?_map, List.getElem?_map]
    by_cases hi : i < n.outputs.length
    · have ht : i < types.length := h.length_eq ▸ hi
      have he : (n.outputs[i], types[i]) ∈ n.outputs.zip types :=
        List.mem_of_getElem? (List.getElem?_zip_eq_some.2 ⟨List.getElem?_eq_getElem hi, List.getElem?_eq_getElem ht⟩)
      rw [List.getElem?_eq_getElem hi, List.getElem?_eq_getElem ht]
      exact congrArg some (h.staged.type?_staged _ he)
    · have ht : ¬ i < types.length := h.length_eq ▸ hi
      rw [List.getElem?_eq_none (Nat.le_of_not_lt hi), List.getElem?_eq_none (Nat.le_of_not_lt ht)]
      rfl

/-- **A node that was typed stays so, or it is pending now or waits for one that is.** -/
theorem settled_other (h : Visit g rank? id n types p q) {j : NodeId} {m : Node} (hm : g.node? j = some m)
    (hne : j ≠ id) (htyped : g.TypedUnder p.type? m) :
    g.rank j ∈ q.pending ∨ g.Shadowed q.pending m ∨ g.TypedUnder q.type? m := by
  -- it may read a value whose type changed, or a shape of one
  by_cases hdirect : ∃ v ∈ m.inputs, q.type? v ≠ p.type? v
  · obtain ⟨v, hv, hchanged⟩ := hdirect
    have hout : v ∈ n.outputs := by
      by_contra hout
      exact hchanged (h.type?_eq hout)
    obtain ⟨i, hreads⟩ := reads_of_mem_inputs hm hv
    exact Or.inl (h.reader_pending hout (Or.inr hchanged) hreads)
  have hdirect : ∀ v ∈ m.inputs, q.type? v = p.type? v := fun v hv => by
    by_contra hchanged
    exact hdirect ⟨v, hv, hchanged⟩
  refine Or.inr ?_
  by_cases hshape : ∃ v ∈ m.inputs, ∃ s input rest output, g.producer? v = some s ∧ s.op = .shapeOf output ∧
      s.inputs = input :: rest ∧ q.type? input ≠ p.type? input
  · obtain ⟨v, hv, s, input, rest, output, hs, hop, hin, hchanged⟩ := hshape
    obtain ⟨val, hval, hnode⟩ := producer?_eq_some hs
    have hout : input ∈ n.outputs := by
      by_contra hout
      exact hchanged (h.type?_eq hout)
    have hreads : g.Reads ⟨val.producer, 0⟩ input := ⟨s, hnode, by rw [hin]; rfl⟩
    exact Or.inl ⟨v, hv, val.producer, s, producerId?_eq_some hval, hnode, by rw [hop]; rfl,
      h.reader_pending hout (Or.inr hchanged) hreads⟩
  · refine Or.inr (htyped.congr hdirect (fun v hv => knownValueUnder?_congr rfl ?_)
      (fun v hv => h.type?_eq (h.wellFormed.outputs_disjoint hm h.node hne hv)))
    intro s input rest output hs hop hin
    by_contra hchanged
    exact hshape ⟨v, hv, s, input, rest, output, hs, hop, hin, hchanged⟩

end Visit

section

variable {g : Graph} {bound : Nat} {rest : List Nat} {p q : Propagation} {rank? : NodeId → Option Nat} {id : NodeId}
  {n : Node} {types : List TensorType}

theorem Ascending.visit (h : Ascending g bound p) (hp : p.pending = g.rank id :: rest)
    (hv : Visit g rank? id n types ⟨p.graph, p.staged, rest, id :: p.visited⟩ q) : Ascending g (g.rank id + 1) q := by
  have hrest := h.drop hp
  refine ⟨hv.staged.graph_eq.trans h.graph_eq, hv.staged.live h.live, hv.staged.sorted hrest.sorted, fun r hr => ?_⟩
  rcases hv.pending_after hr with hr | hr
  · exact hrest.bounds r hr
  · exact hr

theorem Ascending.of_visit (hg : g.WellFormed)
    (hrank : ∀ {id : NodeId} {n : Node}, g.node? id = some n → rank? id = some (g.rank id))
    (h : Ascending g bound p) (hp : p.pending = g.rank id :: rest)
    (hvisit : Propagation.visit rank? { p with pending := rest } id = .ok q) : Ascending g (g.rank id + 1) q := by
  rcases Visit.of_visit (p := { p with pending := rest }) hg hrank h.graph_eq hvisit with ⟨-, rfl⟩ | ⟨n, types, hv⟩
  · exact h.drop hp
  · exact h.visit hp hv

/-- **One step of a run**: nothing is pending, or the node of the lowest rank is visited. -/
theorem Ascending.run_succ (hg : g.WellFormed) (h : Ascending g bound p) {fuel : Nat}
    (hrun : Propagation.run g.walkOrder.toArray rank? (fuel + 1) p = .ok q) :
    (p.pending = [] ∧ q = p) ∨ ∃ id rest next, p.pending = g.rank id :: rest ∧ bound ≤ g.rank id ∧
      Propagation.visit rank? { p with pending := rest } id = .ok next ∧
      Propagation.run g.walkOrder.toArray rank? fuel next = .ok q := by
  rcases Propagation.run_succ_eq_ok hrun with hnil | ⟨r, rest, hp, hstep⟩
  · exact Or.inl hnil
  have hr := h.bounds r (by rw [hp]; exact List.mem_cons_self)
  rcases hstep with ⟨hnone, -⟩ | ⟨id, next, hid, hvisit, hrun⟩
  · rw [List.getElem?_toArray, List.getElem?_eq_none_iff] at hnone
    exact absurd hr.2 (Nat.not_lt.2 hnone)
  rw [List.getElem?_toArray] at hid
  obtain rfl : g.rank id = r := rank_of_getElem? hg hid
  exact Or.inr ⟨id, rest, next, hp, hr.1, hvisit, hrun⟩

theorem Ascending.run (hg : g.WellFormed)
    (hrank : ∀ {id : NodeId} {n : Node}, g.node? id = some n → rank? id = some (g.rank id)) :
    ∀ (fuel : Nat) {bound : Nat} {p q : Propagation}, Ascending g bound p →
      Propagation.run g.walkOrder.toArray rank? fuel p = .ok q → ∃ bound', Ascending g bound' q
  | 0, bound, p, q, h, hrun => ⟨bound, Except.ok.inj hrun ▸ h⟩
  | fuel + 1, bound, p, q, h, hrun => by
    rcases h.run_succ hg hrun with ⟨-, rfl⟩ | ⟨id, rest, next, hp, -, hvisit, hrun⟩
    · exact ⟨bound, h⟩
    · exact run hg hrank fuel (h.of_visit hg hrank hp hvisit) hrun

/-- At the start only seeds are pending. -/
theorem exists_seed (hrank : ∀ {id : NodeId} {n : Node}, g.node? id = some n → rank? id = some (g.rank id))
    {seeds : List NodeId} (hseeds : ∀ id ∈ seeds, (g.node? id).isSome = true) {r : Nat}
    (hr : r ∈ (seeds.filterMap rank?).foldr insertRank []) : ∃ id ∈ seeds, ∃ n, g.node? id = some n ∧ r = g.rank id := by
  rcases mem_foldr_insertRank.1 hr with hr | hr
  · obtain ⟨id, hid, hr⟩ := List.mem_filterMap.1 hr
    obtain ⟨n, hn⟩ := Option.isSome_iff_exists.1 (hseeds id hid)
    rw [hrank hn] at hr
    exact ⟨id, hid, n, hn, (Option.some.inj hr).symm⟩
  · cases hr

theorem Ascending.start (hg : g.WellFormed)
    (hrank : ∀ {id : NodeId} {n : Node}, g.node? id = some n → rank? id = some (g.rank id)) {seeds : List NodeId}
    (hseeds : ∀ id ∈ seeds, (g.node? id).isSome = true) :
    Ascending g 0 ⟨g, [], (seeds.filterMap rank?).foldr insertRank [], []⟩ := by
  refine ⟨rfl, List.forall_mem_nil _, sorted_foldr_insertRank .nil _, fun r hr => ⟨Nat.zero_le r, ?_⟩⟩
  obtain ⟨id, -, n, hn, rfl⟩ := exists_seed hrank hseeds hr
  exact rank_lt_length hg hn

end

namespace Settling

variable {g : Graph} {bound : Nat} {rest : List Nat} {p q : Propagation} {rank? : NodeId → Option Nat} {id : NodeId}
  {n : Node} {types : List TensorType}

/-- **A visit of the lowest rank keeps the invariant.** -/
theorem visit (h : Settling g bound p) (hp : p.pending = g.rank id :: rest)
    (hv : Visit g rank? id n types ⟨p.graph, p.staged, rest, id :: p.visited⟩ q) : Settling g (g.rank id + 1) q := by
  refine ⟨h.toAscending.visit hp hv, fun {j m} hm => ?_⟩
  by_cases hj : j = id
  · subst hj
    obtain rfl : n = m := Option.some.inj (hv.node.symm.trans hm)
    exact Or.inr (Or.inr hv.typed_self)
  have hrank : ∀ {k : NodeId} {s : Node}, g.node? k = some s → k ≠ id → g.rank k ∈ p.pending →
      g.rank k ∈ q.pending := by
    intro k s hk hne hin
    rw [hp] at hin
    exact hv.staged.pending_old _ ((List.mem_cons.1 hin).resolve_left (fun he => hne (rank_inj hv.wellFormed hk he)))
  rcases h.settled hm with hin | ⟨v, hin, k, s, hk, hs, hknown, hpending⟩ | htyped
  · exact Or.inl (hrank hm hj hin)
  · by_cases hkid : k = id
    · -- the known value was an output of the visited node
      subst hkid
      obtain rfl : n = s := Option.some.inj (hv.node.symm.trans hs)
      obtain ⟨val, hval, hprod⟩ := Option.map_eq_some_iff.1 hk
      have hout : v ∈ n.outputs := (hv.wellFormed.mem_outputs_iff hs hval).2 hprod
      obtain ⟨i, hreads⟩ := reads_of_mem_inputs hm hin
      exact Or.inl (hv.reader_pending hout (Or.inl hknown) hreads)
    · exact Or.inr (Or.inl ⟨v, hin, k, s, hk, hs, hknown, hrank hs hkid hpending⟩)
  · exact hv.settled_other hm hj htyped

/-- **A visit by the propagation**, of a node that is there or of one that is gone. -/
theorem of_visit (hg : g.WellFormed)
    (hrank : ∀ {id : NodeId} {n : Node}, g.node? id = some n → rank? id = some (g.rank id))
    (h : Settling g bound p) (hp : p.pending = g.rank id :: rest)
    (hvisit : Propagation.visit rank? { p with pending := rest } id = .ok q) : Settling g (g.rank id + 1) q := by
  rcases Visit.of_visit (p := { p with pending := rest }) hg hrank h.graph_eq hvisit with ⟨hdead, rfl⟩ | ⟨n, types, hv⟩
  · refine h.drop hp (fun j n hn he => ?_)
    obtain rfl := rank_inj hg hn he
    rw [hn] at hdead
    cases hdead
  · exact h.visit hp hv

/-- **A run keeps the invariant, and nothing is pending at its end.** -/
theorem run (hg : g.WellFormed)
    (hrank : ∀ {id : NodeId} {n : Node}, g.node? id = some n → rank? id = some (g.rank id)) :
    ∀ (fuel : Nat) {bound : Nat} {p q : Propagation}, Settling g bound p → g.walkOrder.length ≤ fuel + bound →
      Propagation.run g.walkOrder.toArray rank? fuel p = .ok q → ∃ bound', Settling g bound' q ∧ q.pending = []
  | 0, bound, p, q, h, hfuel, hrun => by
    obtain rfl := Except.ok.inj hrun
    refine ⟨bound, h, List.eq_nil_iff_forall_not_mem.2 (fun r hr => ?_)⟩
    have := h.bounds r hr
    omega
  | fuel + 1, bound, p, q, h, hfuel, hrun => by
    rcases h.run_succ hg hrun with ⟨hp, rfl⟩ | ⟨id, rest, next, hp, hle, hvisit, hrun⟩
    · exact ⟨bound, h, hp⟩
    -- every rank that is pending from now on is above that of `id`, which pays for the fuel
    exact run hg hrank fuel (h.of_visit hg hrank hp hvisit) (by omega) hrun

/-- A propagation starts in order if the seeds account for every node that is not typed. -/
theorem start (hg : g.WellFormed)
    (hrank : ∀ {id : NodeId} {n : Node}, g.node? id = some n → rank? id = some (g.rank id))
    {seeds : List NodeId} (hseeds : ∀ id ∈ seeds, (g.node? id).isSome = true)
    (hrest : ∀ {id : NodeId} {n : Node}, g.node? id = some n → id ∉ seeds → g.Typed n ∨
      ∃ v ∈ n.inputs, ∃ p s, g.producerId? v = some p ∧ g.node? p = some s ∧ s.op.hasKnownValue = true ∧ p ∈ seeds) :
    Settling g 0 ⟨g, [], (seeds.filterMap rank?).foldr insertRank [], []⟩ := by
  have hpending : ∀ {id : NodeId} {n : Node}, g.node? id = some n → id ∈ seeds →
      g.rank id ∈ (seeds.filterMap rank?).foldr insertRank [] := fun hn hid =>
    mem_foldr_insertRank.2 (Or.inl (List.mem_filterMap.2 ⟨_, hid, hrank hn⟩))
  refine ⟨Ascending.start hg hrank hseeds, fun {id n} hn => ?_⟩
  by_cases hid : id ∈ seeds
  · exact Or.inl (hpending hn hid)
  · rcases hrest hn hid with htyped | ⟨v, hv, p, s, hpv, hs, hknown, hin⟩
    · exact Or.inr (Or.inr htyped)
    · exact Or.inr (Or.inl ⟨v, hv, p, s, hpv, hs, hknown, hpending hs hin⟩)

/-- **When nothing is pending, all types are up to date once they are written.** -/
theorem typeConsistent (hg : g.WellFormed) (h : Settling g bound p) (hp : p.pending = []) : p.commit.TypeConsistent := by
  obtain rfl := h.graph_eq
  refine ⟨p.commit_retyped.wellFormed hg, fun {id n} hn => ?_⟩
  rw [p.commit_retyped.node?_eq] at hn
  rcases h.settled hn with hin | ⟨v, -, k, s, -, -, -, hin⟩ | htyped
  · rw [hp] at hin
    cases hin
  · rw [hp] at hin
    cases hin
  · exact htyped.congr (fun v _ => Propagation.type?_commit h.live v)
      (fun v _ => Propagation.knownValue?_commit h.live v) (fun v _ => Propagation.type?_commit h.live v)

end Settling

namespace Graph

/-- **Propagation brings all types up to date** if it starts from every node that is not typed, save those that
read a known value whose producer it starts from. -/
theorem typeConsistent_propagate {g h : Graph} {seeds : List NodeId} (hg : g.WellFormed)
    (hseeds : ∀ id ∈ seeds, (g.node? id).isSome = true)
    (hrest : ∀ {id : NodeId} {n : Node}, g.node? id = some n → id ∉ seeds → g.Typed n ∨
      ∃ v ∈ n.inputs, ∃ p s, g.producerId? v = some p ∧ g.node? p = some s ∧ s.op.hasKnownValue = true ∧ p ∈ seeds)
    (hprop : g.propagate seeds = .ok h) : h.TypeConsistent := by
  obtain ⟨q, hrun, -, rfl⟩ := propagate_eq_ok hprop
  have hstart := Settling.start hg (rankTable_eq hg) hseeds hrest
  obtain ⟨bound, hend, hnil⟩ := Settling.run hg (rankTable_eq hg) _ hstart (Nat.le_refl _) hrun
  exact hend.typeConsistent hg hnil

end Graph
end TensorGraph
