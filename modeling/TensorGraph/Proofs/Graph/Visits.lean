import TensorGraph.Proofs.Graph.Ordered
import TensorGraph.Proofs.Graph.Settle
/-!
# Visits — a propagation infers each node at most once

`Runs` is the loop of a propagation as it is, with no fuel to end it, beside the trace of its turns:
the states that it goes through, each with the node that is inferred there.  A turn takes the lowest
rank that is pending and adds higher ones only (`Ascending.of_visit`), so the ranks of the turns
ascend; that bounds their number, and the loop comes to an end with the answer of `propagation`.

When a node has its turn, all lower ranks are done with.  The producers of what the node reads have
lower ranks, and so have the producers of the shapes among it that are known.  No later turn is
theirs, so the types and values that the node reads, staged or not, are final: they are those of the
graph when the run has committed.
-/
namespace TensorGraph

open TensorGraph.Graph

namespace Graph

variable {g : Graph} {id : NodeId}

/-- The rank of a node as a propagation looks it up. -/
def rank? (g : Graph) (id : NodeId) : Option Nat := (g.rankTable g.walkOrder)[id.index]?.join

/-- The state that a propagation starts in. -/
def start (g : Graph) (seeds : List NodeId) : Propagation := ⟨g, [], (seeds.filterMap g.rank?).foldr insertRank [], []⟩

/-- **The nodes of the graph have ranks, and nothing else has.** -/
theorem rank?_eq_some_iff (hg : g.WellFormed) {r : Nat} :
    g.rank? id = some r ↔ (∃ n, g.node? id = some n) ∧ g.rank id = r := by
  by_cases hid : id ∈ g.walkOrder
  · obtain ⟨n, hn⟩ := exists_node_of_mem_walkOrder hg hid
    rw [rank?, rankTable_eq hg hn, Option.some_inj]
    exact (and_iff_right ⟨n, hn⟩).symm
  · have hnone : g.rank? id = none := by
      rw [rank?, rankTable, getElem?_foldl_setIfInbounds id _ _ (by rwa [List.zipIdx_map_fst]),
        Array.getElem?_replicate]
      split <;> rfl
    rw [hnone]
    exact ⟨nofun, fun ⟨⟨n, hn⟩, _⟩ => absurd (mem_walkOrder hg hn) hid⟩

theorem rank?_eq (hg : g.WellFormed) {id : NodeId} {n : Node} (hn : g.node? id = some n) :
    g.rank? id = some (g.rank id) :=
  (rank?_eq_some_iff hg).2 ⟨⟨n, hn⟩, rfl⟩

/-- Seeds that are not in the graph, or come more than once, do no harm. -/
theorem ascending_start (hg : g.WellFormed) (seeds : List NodeId) : Ascending g 0 (g.start seeds) := by
  refine ⟨rfl, List.forall_mem_nil _, sorted_foldr_insertRank .nil _, fun r hr => ⟨Nat.zero_le r, ?_⟩⟩
  obtain ⟨id, -, hid⟩ := List.mem_filterMap.1 ((mem_foldr_insertRank.1 hr).resolve_right List.not_mem_nil)
  obtain ⟨⟨n, hn⟩, rfl⟩ := (rank?_eq_some_iff hg).1 hid
  exact rank_lt_length hg hn

end Graph

theorem Ascending.mono {g : Graph} {bound bound' : Nat} {p : Propagation} (h : Ascending g bound' p)
    (hle : bound ≤ bound') : Ascending g bound p :=
  ⟨h.graph_eq, h.live, h.sorted, fun r hr => ⟨Nat.le_trans hle (h.bounds r hr).1, (h.bounds r hr).2⟩⟩

namespace Propagation

/-! ## The loop and its turns -/

/-- It is the turn of node `id`, whose rank is the lowest that is pending. -/
def Turn (g : Graph) (p : Propagation) (id : NodeId) (rest : List Nat) : Prop :=
  ∃ r, p.pending = r :: rest ∧ g.walkOrder[r]? = some id

/-- **A run of the loop**, its turns, and what it comes to. -/
inductive Runs (g : Graph) : Propagation → List (Propagation × NodeId) → Except ValidationError Propagation → Prop where
  | done {p : Propagation} (hp : p.pending = []) : Runs g p [] (.ok p)
  | refused {p : Propagation} {id : NodeId} {rest : List Nat} {e : ValidationError} (hturn : p.Turn g id rest)
      (hvisit : visit g.rank? { p with pending := rest } id = .error e) : Runs g p [(p, id)] (.error e)
  | step {p q : Propagation} {id : NodeId} {rest : List Nat} {trace : List (Propagation × NodeId)}
      {result : Except ValidationError Propagation} (hturn : p.Turn g id rest)
      (hvisit : visit g.rank? { p with pending := rest } id = .ok q) (hruns : Runs g q trace result) :
      Runs g p ((p, id) :: trace) result

/-- The run is in this state at a turn, or at its end. -/
def InRun (trace : List (Propagation × NodeId)) (result : Except ValidationError Propagation) (q : Propagation) : Prop :=
  q ∈ trace.map Prod.fst ∨ result = .ok q

section

variable {g : Graph} {p q : Propagation} {id id' : NodeId} {rest rest' : List Nat} {bound : Nat}
  {trace trace' before after : List (Propagation × NodeId)} {result result' : Except ValidationError Propagation}

theorem Turn.ne_nil (h : p.Turn g id rest) : p.pending ≠ [] := by
  obtain ⟨r, hp, -⟩ := h
  rw [hp]
  exact List.cons_ne_nil r rest

theorem Turn.unique (h : p.Turn g id rest) (h' : p.Turn g id' rest') : id = id' ∧ rest = rest' := by
  obtain ⟨r, hp, hid⟩ := h
  obtain ⟨r', hp', hid'⟩ := h'
  obtain ⟨rfl, rfl⟩ := List.cons.inj (hp.symm.trans hp')
  exact ⟨Option.some.inj (hid.symm.trans hid'), rfl⟩

theorem Turn.pending_eq (hg : g.WellFormed) (h : p.Turn g id rest) : p.pending = g.rank id :: rest := by
  obtain ⟨r, hp, hid⟩ := h
  rw [hp, rank_of_getElem? hg hid]

theorem Turn.exists_node (hg : g.WellFormed) (h : p.Turn g id rest) : ∃ n, g.node? id = some n := by
  obtain ⟨r, -, hid⟩ := h
  exact exists_node_of_mem_walkOrder hg (List.mem_of_getElem? hid)

/-- **There is one run only.** -/
theorem Runs.unique (h : Runs g p trace result) (h' : Runs g p trace' result') : trace' = trace ∧ result' = result := by
  induction h generalizing trace' result' with
  | done hp =>
    cases h' with
    | done => exact ⟨rfl, rfl⟩
    | refused hturn' => exact absurd hp hturn'.ne_nil
    | step hturn' => exact absurd hp hturn'.ne_nil
  | refused hturn hvisit =>
    cases h' with
    | done hp' => exact absurd hp' hturn.ne_nil
    | refused hturn' hvisit' =>
      obtain ⟨rfl, rfl⟩ := hturn.unique hturn'
      exact ⟨rfl, hvisit'.symm.trans hvisit ▸ rfl⟩
    | step hturn' hvisit' =>
      obtain ⟨rfl, rfl⟩ := hturn.unique hturn'
      cases hvisit.symm.trans hvisit'
  | step hturn hvisit _ ih =>
    cases h' with
    | done hp' => exact absurd hp' hturn.ne_nil
    | refused hturn' hvisit' =>
      obtain ⟨rfl, rfl⟩ := hturn.unique hturn'
      cases hvisit.symm.trans hvisit'
    | step hturn' hvisit' hruns' =>
      obtain ⟨rfl, rfl⟩ := hturn.unique hturn'
      obtain rfl := Except.ok.inj (hvisit.symm.trans hvisit')
      obtain ⟨rfl, rfl⟩ := ih hruns'
      exact ⟨rfl, rfl⟩

/-- What is left of a run at one of its turns is a run from there. -/
theorem Runs.of_append : ∀ {before : List (Propagation × NodeId)} {p : Propagation},
    Runs g p (before ++ (q, id) :: after) result → Runs g q ((q, id) :: after) result
  | [], p, h => by
    cases h with
    | refused hturn hvisit => exact .refused hturn hvisit
    | step hturn hvisit hruns => exact .step hturn hvisit hruns
  | e :: before, p, h => by
    generalize hall : e :: before ++ (q, id) :: after = all at h
    cases h with
    | done => cases hall
    | refused => simp at hall
    | step hturn hvisit hruns =>
      rw [List.cons_append, List.cons.injEq] at hall
      exact of_append (hall.2 ▸ hruns)

theorem Runs.exists_turn (h : Runs g p ((p, id) :: after) result) : ∃ rest, p.Turn g id rest := by
  cases h with
  | refused hturn => exact ⟨_, hturn⟩
  | step hturn => exact ⟨_, hturn⟩

theorem inRun_cons (p : Propagation) (id : NodeId) :
    InRun ((p, id) :: trace) result q ↔ q = p ∨ InRun trace result q := by
  rw [InRun, InRun, List.map_cons, List.mem_cons, or_assoc]

/-! ## Ranks ascend -/

/-- At the turn of a node the lower ranks are done with. -/
theorem Turn.ascending (hg : g.WellFormed) (h : p.Turn g id rest) (hp : Ascending g bound p) :
    Ascending g (g.rank id) p ∧ bound ≤ g.rank id := by
  have hpending := h.pending_eq hg
  refine ⟨⟨hp.graph_eq, hp.live, hp.sorted, fun r hr => ⟨?_, (hp.bounds r hr).2⟩⟩, (hp.bounds _ (hpending ▸ List.mem_cons_self)).1⟩
  have hsorted := hp.sorted
  rw [hpending] at hr hsorted
  rcases List.mem_cons.1 hr with rfl | hr
  · exact Nat.le_refl _
  · exact Nat.le_of_lt ((List.pairwise_cons.1 hsorted).1 r hr)

theorem Turn.ascending_visit (hg : g.WellFormed) (h : p.Turn g id rest) (hp : Ascending g bound p)
    (hvisit : visit g.rank? { p with pending := rest } id = .ok q) : Ascending g (g.rank id + 1) q :=
  Ascending.of_visit hg (rank?_eq hg) hp (h.pending_eq hg) hvisit

/-- **With as much fuel as there are ranks left, the loop comes to its end.** -/
theorem exists_runs (hg : g.WellFormed) : ∀ (fuel : Nat) {bound : Nat} {p : Propagation}, Ascending g bound p →
    g.walkOrder.length ≤ fuel + bound → ∃ trace, Runs g p trace (run g.walkOrder.toArray g.rank? fuel p)
  | 0, bound, p, h, hfuel => by
    refine ⟨[], .done (List.eq_nil_iff_forall_not_mem.2 (fun r hr => ?_))⟩
    have := h.bounds r hr
    omega
  | fuel + 1, bound, p, h, hfuel => by
    cases hp : p.pending with
    | nil =>
      rw [run, hp]
      exact ⟨[], .done hp⟩
    | cons r rest =>
      have hr := h.bounds r (hp ▸ List.mem_cons_self)
      obtain ⟨id, hid⟩ : ∃ id, g.walkOrder[r]? = some id := ⟨_, List.getElem?_eq_getElem hr.2⟩
      have hturn : p.Turn g id rest := ⟨r, hp, hid⟩
      rw [run, hp]
      simp only [List.getElem?_toArray, hid]
      cases hvisit : visit g.rank? { p with pending := rest } id with
      | error e => exact ⟨[(p, id)], .refused hturn hvisit⟩
      | ok q =>
        -- the ranks from now on are above that of `id`, which pays for the fuel
        have hle := (hturn.ascending hg h).2
        obtain ⟨trace, hruns⟩ := exists_runs hg fuel (hturn.ascending_visit hg h hvisit) (by omega)
        exact ⟨(p, id) :: trace, .step hturn hvisit hruns⟩

/-- **The ranks below the bound are done with throughout the run.** -/
theorem Runs.ascending (hg : g.WellFormed) (h : Runs g p trace result) (hp : Ascending g bound p) :
    (∀ q, InRun trace result q → Ascending g bound q) ∧
      ∀ id ∈ trace.map Prod.snd, (∃ n, g.node? id = some n) ∧ bound ≤ g.rank id := by
  induction h generalizing bound with
  | done =>
    refine ⟨fun q hq => ?_, nofun⟩
    rcases hq with hq | hq
    · cases hq
    · exact Except.ok.inj hq ▸ hp
  | refused hturn =>
    refine ⟨fun q hq => ?_, fun id hid => ?_⟩
    · rcases hq with hq | hq
      · exact List.mem_singleton.1 hq ▸ hp
      · cases hq
    · obtain rfl := List.mem_singleton.1 hid
      exact ⟨hturn.exists_node hg, (hturn.ascending hg hp).2⟩
  | step hturn hvisit _ ih =>
    have hle := (hturn.ascending hg hp).2
    obtain ⟨hstates, hids⟩ := ih (hturn.ascending_visit hg hp hvisit)
    refine ⟨fun q hq => ?_, fun id hid => ?_⟩
    · rcases (inRun_cons _ _).1 hq with rfl | hq
      · exact hp
      · exact (hstates q hq).mono (by omega)
    · rcases List.mem_cons.1 hid with rfl | hid
      · exact ⟨hturn.exists_node hg, hle⟩
      · obtain ⟨hlive, hlt⟩ := hids id hid
        exact ⟨hlive, by omega⟩

/-- After the turn of a node, all that is pending and all that has its turn has a higher rank. -/
theorem Runs.ascending_tail (hg : g.WellFormed) (h : Runs g p ((p, id) :: after) result) (hp : Ascending g bound p) :
    (∀ q, InRun after result q → Ascending g (g.rank id + 1) q) ∧
      ∀ j ∈ after.map Prod.snd, g.rank id < g.rank j := by
  cases h with
  | refused =>
    refine ⟨fun q hq => ?_, nofun⟩
    rcases hq with hq | hq <;> cases hq
  | step hturn hvisit hruns =>
    obtain ⟨hstates, hids⟩ := hruns.ascending hg (hturn.ascending_visit hg hp hvisit)
    exact ⟨hstates, fun j hj => (hids j hj).2⟩

/-- A node of lower rank that has a turn has had it. -/
theorem Runs.mem_before (hg : g.WellFormed) (h : Runs g p ((p, id) :: after) result) (hp : Ascending g bound p)
    {j : NodeId} (hlt : g.rank j < g.rank id) (hj : j ∈ (before ++ (p, id) :: after).map Prod.snd) :
    j ∈ before.map Prod.snd := by
  rw [List.map_append, List.map_cons, List.mem_append, List.mem_cons] at hj
  rcases hj with hbefore | rfl | hafter
  · exact hbefore
  · exact absurd hlt (Nat.lt_irrefl _)
  · exact absurd hlt (Nat.lt_asymm ((h.ascending_tail hg hp).2 j hafter))

/-- **The ranks of the turns ascend.** -/
theorem Runs.pairwise (hg : g.WellFormed) (h : Runs g p trace result) (hp : Ascending g bound p) :
    (trace.map Prod.snd).Pairwise (fun a b => g.rank a < g.rank b) := by
  induction h generalizing bound with
  | done => exact .nil
  | refused => exact List.pairwise_singleton _ _
  | step hturn hvisit hruns ih =>
    have hnext := hturn.ascending_visit hg hp hvisit
    exact List.pairwise_cons.2 ⟨fun j hj => ((hruns.ascending hg hnext).2 j hj).2, ih hnext⟩

/-! ## What is final -/

/-- **The type of a value is final once the rank of its producer is done with.** -/
theorem Runs.type?_eq (hg : g.WellFormed) (h : Runs g p trace result) (hp : Ascending g bound p) {v : ValueId}
    {val : Value} (hv : g.value? v = some val) (hlt : g.rank val.producer < bound) :
    ∀ q, InRun trace result q → q.type? v = p.type? v := by
  induction h generalizing bound with
  | done =>
    rintro q (hq | hq)
    · cases hq
    · rw [← Except.ok.inj hq]
  | refused =>
    rintro q (hq | hq)
    · rw [List.mem_singleton.1 hq]
    · cases hq
  | @step p next id rest _ _ hturn hvisit _ ih =>
    have hnext := hturn.ascending_visit hg hp hvisit
    have hle := (hturn.ascending hg hp).2
    intro q hq
    rcases (inRun_cons _ _).1 hq with rfl | hq
    · rfl
    rw [ih hnext (by omega) q hq]
    rcases Visit.of_visit (p := { p with pending := rest }) hg (rank?_eq hg) hp.graph_eq hvisit with
      ⟨-, rfl⟩ | ⟨n, types, hvis⟩
    · rfl
    · refine hvis.type?_eq (fun hout => ?_)
      obtain ⟨val', hval', hid⟩ := hg.output_live' hvis.node hout
      obtain rfl := Option.some.inj (hv.symm.trans hval')
      rw [hid] at hlt
      omega

/-- A value that is known is final, too. -/
theorem Runs.knownValueUnder?_eq (hg : g.WellFormed) (h : Runs g p trace result) (hp : Ascending g bound p) {v : ValueId}
    {val : Value} (hv : g.value? v = some val) (hlt : g.rank val.producer < bound) :
    ∀ q, InRun trace result q → g.knownValueUnder? q.type? v = g.knownValueUnder? p.type? v := by
  intro q hq
  refine knownValueUnder?_congr rfl (fun s input rest output hs _ hin => ?_)
  -- a shape depends on the producer of what it reads, whose rank is lower still
  rw [producer?_eq hv] at hs
  obtain ⟨val', hval', hlower⟩ := exists_rank_lt_of_mem_inputs hg hs (hin ▸ List.mem_cons_self)
  exact h.type?_eq hg hp hval' (Nat.lt_trans hlower hlt) q hq

/-- **What a node reads at its turn is final.** -/
theorem Runs.input_final (hg : g.WellFormed) (h : Runs g p ((p, id) :: after) result) (hp : Ascending g bound p) {n : Node}
    (hn : g.node? id = some n) {v : ValueId} (hv : v ∈ n.inputs) (hq : InRun after result q) :
    q.type? v = p.type? v ∧ g.knownValueUnder? q.type? v = g.knownValueUnder? p.type? v := by
  obtain ⟨val, hval, hlt⟩ := exists_rank_lt_of_mem_inputs hg hn hv
  obtain ⟨rest, hturn⟩ := h.exists_turn
  have hdone := (hturn.ascending hg hp).1
  have hinRun := (inRun_cons p id).2 (Or.inr hq)
  exact ⟨h.type?_eq hg hdone hval hlt q hinRun, h.knownValueUnder?_eq hg hdone hval hlt q hinRun⟩

/-! ## What is recorded -/

theorem visited_foldl_stage (rank? : NodeId → Option Nat) (always : Bool) :
    ∀ (outs : List (ValueId × TensorType)) (p : Propagation), (outs.foldl (stage rank? always) p).visited = p.visited
  | [], _ => rfl
  | e :: outs, p => by
    rw [List.foldl_cons, visited_foldl_stage rank? always outs, stage]
    split <;> rfl

/-- **The nodes that are recorded are those that had their turn.** -/
theorem Runs.visited_eq (hg : g.WellFormed) (h : Runs g p trace result) (hp : Ascending g bound p)
    (hq : result = .ok q) : q.visited = (trace.map Prod.snd).reverse ++ p.visited := by
  induction h generalizing bound with
  | done => rw [← Except.ok.inj hq, List.map_nil, List.reverse_nil, List.nil_append]
  | refused => cases hq
  | @step p next id rest _ _ hturn hvisit _ ih =>
    have hnext : next.visited = id :: p.visited := by
      obtain ⟨n, hn⟩ := hturn.exists_node hg
      rw [← hp.graph_eq] at hn
      rcases visit_eq_ok hvisit with ⟨hdead, -⟩ | ⟨_, _, -, -, -, rfl⟩
      · cases hn.symm.trans hdead
      · exact visited_foldl_stage _ _ _ _
    rw [ih (hturn.ascending_visit hg hp hvisit) hq, hnext, List.map_cons, List.reverse_cons, List.append_assoc]
    rfl

end

end Propagation

namespace Graph

open Propagation (Runs InRun)

/-- **A propagation answers as its loop does**, and the loop runs in one way. -/
theorem exists_runs_propagation (hg : g.WellFormed) (seeds : List NodeId) : ∃ trace,
    Runs g (g.start seeds) trace (g.propagation seeds) ∧
    ∀ trace' result, Runs g (g.start seeds) trace' result → trace' = trace ∧ result = g.propagation seeds := by
  obtain ⟨trace, hruns⟩ := Propagation.exists_runs hg _ (ascending_start hg seeds) (Nat.le_refl _)
  change Runs g (g.start seeds) trace (g.propagation seeds) at hruns
  exact ⟨trace, hruns, fun _ _ => hruns.unique⟩

/-- **A propagation infers each node at most once, in dependency order.**  From any seeds its loop comes to an end, in
one way only.  The ranks of the nodes that it infers ascend.  When a node is inferred:
- the producers of its inputs that have a turn at all have had it;
- only higher ranks are pending from then on;
- the types and the known values of its inputs stay as they are then, to the end of the run, and the graph has them
when the staged types are written. -/
theorem propagation_visits (hg : g.WellFormed) (seeds : List NodeId) : ∃ trace,
    Runs g (g.start seeds) trace (g.propagation seeds) ∧
    (∀ trace' result, Runs g (g.start seeds) trace' result → trace' = trace ∧ result = g.propagation seeds) ∧
    (trace.map Prod.snd).Pairwise (fun a b => g.rank a < g.rank b) ∧
    (trace.map Prod.snd).Nodup ∧ trace.length ≤ g.nodeIds.length ∧
    (∀ q, g.propagation seeds = .ok q → q.visited.reverse = trace.map Prod.snd) ∧
    ∀ before p id after, trace = before ++ (p, id) :: after → ∃ n, g.node? id = some n ∧
      (∀ v ∈ n.inputs, ∃ val, g.value? v = some val ∧
        (val.producer ∈ trace.map Prod.snd → val.producer ∈ before.map Prod.snd)) ∧
      (∀ q, InRun after (g.propagation seeds) q → ∀ r ∈ q.pending, g.rank id < r) ∧
      ∀ v ∈ n.inputs,
        (∀ q, InRun after (g.propagation seeds) q →
          q.type? v = p.type? v ∧ g.knownValueUnder? q.type? v = g.knownValueUnder? p.type? v) ∧
        ∀ h, g.propagate seeds = .ok h →
          h.type? v = p.type? v ∧ h.knownValue? v = g.knownValueUnder? p.type? v := by
  have hstart := ascending_start hg seeds
  obtain ⟨trace, hruns, hunique⟩ := exists_runs_propagation hg seeds
  have hpairwise := hruns.pairwise hg hstart
  have hnodup : (trace.map Prod.snd).Nodup := hpairwise.imp (fun hlt he => by rw [he] at hlt; exact Nat.lt_irrefl _ hlt)
  refine ⟨trace, hruns, hunique, hpairwise, hnodup, ?_, fun q hq => ?_, ?_⟩
  · rw [← List.length_map (f := Prod.snd)]
    refine (List.subperm_of_subset hnodup (fun id hid => ?_)).length_le
    obtain ⟨n, hn⟩ := ((hruns.ascending hg hstart).2 id hid).1
    exact mem_nodeIds.2 (by rw [hn]; rfl)
  · rw [hruns.visited_eq hg hstart hq, List.reverse_append, List.reverse_reverse]
    rfl
  rintro before p id after rfl
  have hrest := hruns.of_append
  have hp : Ascending g 0 p := (hruns.ascending hg hstart).1 p (Or.inl (by simp))
  obtain ⟨rest, hturn⟩ := hrest.exists_turn
  obtain ⟨n, hn⟩ := hturn.exists_node hg
  have hfinal : ∀ v ∈ n.inputs, ∀ q, InRun after (g.propagation seeds) q →
      q.type? v = p.type? v ∧ g.knownValueUnder? q.type? v = g.knownValueUnder? p.type? v :=
    fun v hv q hq => hrest.input_final hg hp hn hv hq
  refine ⟨n, hn, fun v hv => ?_, fun q hq r hr => (((hrest.ascending_tail hg hp).1 q hq).bounds r hr).1,
    fun v hv => ⟨hfinal v hv, fun h hprop => ?_⟩⟩
  · obtain ⟨val, hval, hlt⟩ := exists_rank_lt_of_mem_inputs hg hn hv
    exact ⟨val, hval, hrest.mem_before hg hp hlt⟩
  · obtain ⟨q, hq, hgraph, rfl⟩ := propagate_eq_ok hprop
    have hlive := ((hruns.ascending hg hstart).1 q (Or.inr hq)).live
    rw [Propagation.type?_commit hlive, Propagation.knownValue?_commit hlive, hgraph]
    exact hfinal v hv q (Or.inr hq)

/-- The parameter is given another size, and no type has been brought up to date yet. -/
def resized : Graph := detoured.setOp ⟨0⟩ (.parameter ⟨.f32, .ofSizes [4]⟩)

/-- Of the seeds one comes twice and one has been removed.  Node 2 has its turn after the newer node that it reads, and
finds the type that is staged for this, which the graph has at the end. -/
theorem propagation_visits_resized : resized.WellFormed ∧ resized.node? ⟨1⟩ = none ∧
    resized.type? ⟨3⟩ = some ⟨.f32, .ofSizes [3]⟩ ∧ ∃ trace q,
      Runs resized (resized.start [⟨4⟩, ⟨0⟩, ⟨1⟩, ⟨0⟩]) trace (.ok q) ∧ trace.map Prod.snd = [⟨0⟩, ⟨3⟩, ⟨2⟩, ⟨4⟩] ∧
      (trace.map Prod.snd).Pairwise (fun a b => resized.rank a < resized.rank b) ∧
      resized.propagate [⟨4⟩, ⟨0⟩, ⟨1⟩, ⟨0⟩] = .ok q.commit ∧ q.commit.type? ⟨3⟩ = some ⟨.f32, .ofSizes [4]⟩ ∧
      ∀ before p after, trace = before ++ (p, ⟨2⟩) :: after → p.type? ⟨3⟩ = some ⟨.f32, .ofSizes [4]⟩ := by
  have hg : resized.WellFormed :=
    (SameEdges.setOp detoured ⟨0⟩ _).wellFormed (wellFormed_edits _ (wellFormed_empty _))
  have hnode : resized.node? ⟨2⟩ = some ⟨none, .unary .abs, [⟨3⟩], [⟨2⟩]⟩ := by decide +kernel
  have hend : (resized.propagation [⟨4⟩, ⟨0⟩, ⟨1⟩, ⟨0⟩]).map (fun q => (q.visited.reverse, q.commit.type? ⟨3⟩)) =
      .ok ([⟨0⟩, ⟨3⟩, ⟨2⟩, ⟨4⟩], some ⟨.f32, .ofSizes [4]⟩) := by decide +kernel
  obtain ⟨trace, hruns, -, hpairwise, -, -, hvisited, hturns⟩ := propagation_visits hg [⟨4⟩, ⟨0⟩, ⟨1⟩, ⟨0⟩]
  refine ⟨hg, by decide +kernel, by decide +kernel, trace, ?_⟩
  cases hprop : resized.propagation [⟨4⟩, ⟨0⟩, ⟨1⟩, ⟨0⟩] with
  | error e =>
    rw [hprop] at hend
    cases hend
  | ok q =>
    rw [hprop] at hruns hend
    obtain ⟨horder, htype⟩ := Prod.mk.inj (Except.ok.inj hend)
    have hcommit : resized.propagate [⟨4⟩, ⟨0⟩, ⟨1⟩, ⟨0⟩] = .ok q.commit := by
      rw [propagate, hprop]
      rfl
    refine ⟨q, hruns, (hvisited q hprop).symm.trans horder, hpairwise, hcommit, htype, fun before p after hsplit => ?_⟩
    obtain ⟨n, hn, -, -, hfinal⟩ := hturns before p ⟨2⟩ after hsplit
    obtain rfl := Option.some.inj (hnode.symm.trans hn)
    exact ((hfinal ⟨3⟩ List.mem_cons_self).2 q.commit hcommit).1.symm.trans htype

end Graph
end TensorGraph
