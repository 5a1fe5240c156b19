import TensorGraph.Proofs.Graph.Downstream
import TensorGraph.Proofs.Rewrite.Typing
/-!
# Revalidate — inferring again after an operation was assigned

Assigning an operation may leave its node untyped, and with it the readers of a value that the node
used to make known.  `revalidate` visits the node first, so all types are up to date afterwards if
those readers are visited too: because the new operation has a known value as well, or because the
type of the output changed.  Where neither is so the readers keep types that the lost value had
sharpened.

Inferring all types of a graph that is up to date gives the graph back.
-/
namespace TensorGraph

open TensorGraph.Graph

/-! ## Where there is nothing to do -/

theorem Graph.setType_self {g : Graph} {v : ValueId} {type : TensorType} (h : g.type? v = some type) :
    g.setType v type = g := by
  refine eq_of_lookups (SameFrame.modifyValue g v _) (fun _ => rfl) (fun w => ?_)
  rw [setType, value?_modifyValue]
  split
  · rename_i hv
    subst hv
    obtain ⟨val, hval, rfl⟩ := Option.map_eq_some_iff.1 h
    rw [hval]
    rfl
  · rfl

namespace Propagation

/-- The propagation has staged nothing but types that the graph has already. -/
structure Idle (g : Graph) (p : Propagation) : Prop where
  graph_eq : p.graph = g
  staged : ∀ e ∈ p.staged, g.type? e.1 = some e.2

namespace Idle

variable {g : Graph} {p : Propagation}

theorem type?_eq (h : Idle g p) (v : ValueId) : p.type? v = g.type? v := by
  obtain ⟨k, staged, pending, visited⟩ := p
  obtain ⟨rfl, hstaged⟩ := h
  induction staged with
  | nil => rfl
  | cons e staged ih =>
    obtain ⟨he, hrest⟩ := List.forall_mem_cons.1 hstaged
    rw [type?_cons, ih hrest]
    split
    · rename_i hv
      exact hv ▸ he.symm
    · rfl

/-- To write types that are there already leaves the graph as it is. -/
theorem commit_eq (h : Idle g p) : p.commit = g := by
  obtain ⟨k, staged, pending, visited⟩ := p
  obtain ⟨rfl, hstaged⟩ := h
  induction staged with
  | nil => rfl
  | cons e staged ih =>
    obtain ⟨he, hrest⟩ := List.forall_mem_cons.1 hstaged
    show (commit ⟨k, staged, pending, visited⟩).setType e.1 e.2 = k
    rw [ih hrest, setType_self he]

theorem stage (rank? : NodeId → Option Nat) (always : Bool) (h : Idle g p) {e : ValueId × TensorType}
    (he : g.type? e.1 = some e.2) : Idle g (p.stage rank? always e) := by
  unfold Propagation.stage
  split
  · exact h
  · exact ⟨h.graph_eq, List.forall_mem_cons.2 ⟨he, h.staged⟩⟩

theorem foldl_stage (rank? : NodeId → Option Nat) (always : Bool) : ∀ {outs : List (ValueId × TensorType)}
    {p : Propagation}, Idle g p → (∀ e ∈ outs, g.type? e.1 = some e.2) →
      Idle g (outs.foldl (Propagation.stage rank? always) p)
  | [], _, h, _ => h
  | e :: outs, p, h, houts => by
    obtain ⟨he, hrest⟩ := List.forall_mem_cons.1 houts
    rw [List.foldl_cons]
    exact foldl_stage rank? always (h.stage rank? always he) hrest

/-- **A visit of a typed node succeeds and finds nothing new.** -/
theorem visit (rank? : NodeId → Option Nat) (hg : g.TypeConsistent) (h : Idle g p) (id : NodeId) :
    ∃ q, p.visit rank? id = .ok q ∧ Idle g q := by
  unfold Propagation.visit
  rw [h.graph_eq, show p.type? = g.type? from funext h.type?_eq]
  cases hn : g.node? id with
  | none => exact ⟨p, rfl, h⟩
  | some n =>
    obtain ⟨types, hinf, hcached⟩ := hg.typed hn
    have hlen : types.length = n.outputs.length := by
      have := congrArg List.length hcached
      rw [List.length_map, List.length_map] at this
      exact this.symm
    have hinf : g.inferOutputsUnder g.type? n.op n.inputs = .ok types := hinf
    simp only [hinf, hlen, ne_eq, not_true_eq_false, if_false]
    refine ⟨_, rfl, foldl_stage rank? _ ⟨rfl, h.staged⟩ (fun e he => ?_)⟩
    obtain ⟨i, hi⟩ := List.mem_iff_getElem?.1 he
    obtain ⟨hout, htype⟩ := List.getElem?_zip_eq_some.1 hi
    have hi := congrArg (fun l => l[i]?) hcached
    simp only [List.getElem?_map, hout, htype, Option.map_some] at hi
    exact Option.some.inj hi

theorem run (rank? : NodeId → Option Nat) (order : Array NodeId) (hg : g.TypeConsistent) : ∀ (fuel : Nat)
    {p : Propagation}, Idle g p → ∃ q, Propagation.run order rank? fuel p = .ok q ∧ Idle g q
  | 0, p, h => ⟨p, rfl, h⟩
  | fuel + 1, p, h => by
    rw [Propagation.run]
    split
    · exact ⟨p, rfl, h⟩
    · rename_i rank rest _
      have hrest : Idle g { p with pending := rest } := ⟨h.graph_eq, h.staged⟩
      split
      · exact run rank? order hg fuel hrest
      · rename_i id _
        obtain ⟨next, hvisit, hnext⟩ := hrest.visit rank? hg id
        rw [hvisit]
        exact run rank? order hg fuel hnext

end Idle
end Propagation

namespace Graph

/-- **Propagation has nothing to do in a graph whose types are up to date.** -/
theorem propagate_of_typeConsistent {g : Graph} (hg : g.TypeConsistent) (seeds : List NodeId) :
    g.propagate seeds = .ok g := by
  have hstart : Propagation.Idle g (g.start seeds) := ⟨rfl, List.forall_mem_nil _⟩
  obtain ⟨q, hrun, hq⟩ := hstart.run g.rank? g.walkOrder.toArray hg g.walkOrder.length
  have hprop : g.propagation seeds = .ok q := hrun
  rw [propagate, hprop]
  exact congrArg Except.ok hq.commit_eq

end Graph

/-! ## After an assignment -/

namespace Graph

variable {g : Graph} {id : NodeId} {op : Op} {old : Node}

theorem node?_setOp (hold : g.node? id = some old) (j : NodeId) :
    (g.setOp id op).node? j = if j = id then some { old with op := op } else g.node? j := by
  rw [setOp, node?_modifyNode]
  by_cases hj : j = id
  · rw [if_pos hj.symm, if_pos hj, hj, hold]
    rfl
  · rw [if_neg (Ne.symm hj), if_neg hj]

/-- A value stays known, and as what, unless the node whose operation is assigned produces it. -/
theorem knownValue?_setOp (hg : g.WellFormed) (hold : g.node? id = some old) {v : ValueId} (hv : v ∉ old.outputs) :
    (g.setOp id op).knownValue? v = g.knownValue? v := by
  refine knownValue?_congr ?_ (fun _ _ _ _ _ _ _ => rfl)
  cases hval : g.value? v with
  | none =>
    have hval' : (g.setOp id op).value? v = none := hval
    rw [producer?, producer?, producerId?, producerId?, hval, hval']
    rfl
  | some val =>
    have hne : val.producer ≠ id := fun he => hv ((hg.mem_outputs_iff hold hval).2 he)
    have hval' : (g.setOp id op).value? v = some val := hval
    rw [producer?_eq hval, producer?_eq hval', node?_setOp hold, if_neg hne]

theorem knownValue?_setOp_output (hg : g.WellFormed) (hold : g.node? id = some old) {v : ValueId} (hv : v ∈ old.outputs)
    (hop : op.hasKnownValue = false) : (g.setOp id op).knownValue? v = none := by
  refine knownValue?_eq_none (fun p hp => ?_)
  obtain ⟨val, hval, hprod⟩ := producer?_eq_some hp
  have hid : val.producer = id := (hg.mem_outputs_iff hold (v := v) hval).1 hv
  rw [hid, node?_setOp hold, if_pos rfl] at hprod
  exact Option.some.inj hprod ▸ hop

end Graph

/-- Nothing is staged yet, and nothing is pending but the node that is visited now. -/
structure Propagation.Fresh (p : Propagation) : Prop where
  staged : p.staged = []
  pending : p.pending = []

theorem Propagation.Fresh.type?_eq {p : Propagation} (h : p.Fresh) (v : ValueId) : p.type? v = p.graph.type? v := by
  rw [Propagation.type?, h.staged]
  rfl

/-- What is pending after the first visit comes after the node. -/
theorem Visit.ascending {g : Graph} {id : NodeId} {n : Node} {types : List TensorType} {p q : Propagation}
    {rank? : NodeId → Option Nat} (hfresh : p.Fresh) (h : Visit g rank? id n types p q) :
    Ascending g (g.rank id + 1) q := by
  have hlive : p.Live := fun e he => by
    rw [hfresh.staged] at he
    cases he
  refine ⟨h.staged.graph_eq.trans h.graph_eq, h.staged.live hlive, h.staged.sorted (by rw [hfresh.pending]; exact .nil),
    fun r hr => ?_⟩
  rcases h.pending_after hr with hr | hr
  · rw [hfresh.pending] at hr
    cases hr
  · exact hr

/-- **The visit of the assigned node settles it**, if the values that it made known are still known or have another
type now: then their readers are pending. -/
theorem Visit.settling_setOp {g : Graph} {id : NodeId} {op : Op} {old : Node} {types : List TensorType}
    {p q : Propagation} {rank? : NodeId → Option Nat} (hg : g.TypeConsistent) (hold : g.node? id = some old)
    (hfresh : p.Fresh) (h : Visit (g.setOp id op) rank? id { old with op := op } types p q)
    (hknown : ∀ v ∈ old.outputs, (g.knownValue? v).isSome = true →
      op.hasKnownValue = true ∨ q.type? v ≠ g.type? v) :
    Settling (g.setOp id op) ((g.setOp id op).rank id + 1) q := by
  have htype : ∀ v, p.type? v = g.type? v := fun v => by
    rw [hfresh.type?_eq, h.graph_eq]
    rfl
  refine ⟨h.ascending hfresh, fun {j m} hm => ?_⟩
  by_cases hj : j = id
  · subst hj
    obtain rfl : { old with op := op } = m := Option.some.inj (h.node.symm.trans hm)
    exact Or.inr (Or.inr h.typed_self)
  by_cases hread : ∃ v ∈ m.inputs, v ∈ old.outputs ∧ (op.hasKnownValue = true ∨ q.type? v ≠ g.type? v)
  · obtain ⟨v, hin, hout, hchanged⟩ := hread
    obtain ⟨i, hreads⟩ := reads_of_mem_inputs hm hin
    exact Or.inl (h.reader_pending hout (hchanged.imp_right (fun hne => htype v ▸ hne)) hreads)
  · refine h.settled_other hm hj ?_
    have hm' : g.node? j = some m := by
      rw [node?_setOp hold, if_neg hj] at hm
      exact hm
    refine TypedUnder.congr (hg.typed hm') (fun v _ => htype v) (fun v hin => ?_) (fun v _ => htype v)
    rw [show p.type? = (g.setOp id op).type? from funext htype]
    show (g.setOp id op).knownValue? v = g.knownValue? v
    by_cases hout : v ∈ old.outputs
    · -- the value is read, and its readers are not pending: it was not known
      have hlost : ¬ (op.hasKnownValue = true ∨ q.type? v ≠ g.type? v) := fun hc => hread ⟨v, hin, hout, hc⟩
      have hnone : g.knownValue? v = none := by
        by_contra hsome
        exact hlost (hknown v hout (Option.isSome_iff_ne_none.2 hsome))
      rw [hnone, knownValue?_setOp_output hg.wellFormed hold hout
        (Bool.eq_false_iff.2 (fun hop => hlost (Or.inl hop)))]
    · exact knownValue?_setOp hg.wellFormed hold hout

namespace Graph

variable {g h : Graph} {id : NodeId} {op : Op} {old : Node}

/-- **A propagation from one node visits it first**, and the rest of it is a run. -/
theorem propagate_singleton_eq_ok (hg : g.WellFormed) {n : Node} (hn : g.node? id = some n)
    (hprop : g.propagate [id] = .ok h) :
    ∃ types p q last, p.Fresh ∧ Visit g g.rank? id n types p q ∧
      Propagation.run g.walkOrder.toArray g.rank? (g.walkOrder.length - 1) q = .ok last ∧ h = last.commit := by
  have hlen := rank_lt_length hg hn
  have hid : g.walkOrder.toArray[g.rank id]? = some id := by
    rw [List.getElem?_toArray]
    exact List.getElem?_idxOf (mem_walkOrder hg hn)
  obtain ⟨last, hp, -, rfl⟩ := propagate_eq_ok hprop
  have hstart : g.start [id] = ⟨g, [], [g.rank id], []⟩ := by
    rw [start, List.filterMap_cons, rank?_eq hg hn]
    rfl
  have hrun : Propagation.run g.walkOrder.toArray g.rank? g.walkOrder.length (g.start [id]) = .ok last := hp
  obtain ⟨fuel, hfuel⟩ : ∃ fuel, g.walkOrder.length = fuel + 1 := ⟨g.walkOrder.length - 1, by omega⟩
  rw [hstart, hfuel] at hrun
  rw [hfuel]
  rcases Propagation.run_succ_eq_ok hrun with ⟨hnil, -⟩ | ⟨r, rest, hpend, hstep⟩
  · cases hnil
  obtain ⟨rfl, rfl⟩ := List.cons.inj hpend
  rcases hstep with ⟨hnone, -⟩ | ⟨j, q, hj, hvisit, hrun⟩
  · rw [hid] at hnone
    cases hnone
  obtain rfl : id = j := Option.some.inj (hid.symm.trans hj)
  rcases Visit.of_visit hg (rank?_eq hg) rfl hvisit with ⟨hdead, -⟩ | ⟨n', types, hv⟩
  · rw [hn] at hdead
    cases hdead
  · obtain rfl : n = n' := Option.some.inj (hn.symm.trans hv.node)
    exact ⟨types, _, q, last, ⟨rfl, rfl⟩, hv, hrun, rfl⟩

theorem typeConsistent_revalidate_setOp (hg : g.TypeConsistent) (hold : g.node? id = some old)
    (hrev : (g.setOp id op).revalidate id = .ok h)
    (hknown : ∀ v ∈ old.outputs, (g.knownValue? v).isSome = true → op.hasKnownValue = true ∨ h.type? v ≠ g.type? v) :
    h.TypeConsistent := by
  have hw : (g.setOp id op).WellFormed := (SameEdges.setOp g id op).wellFormed hg.wellFormed
  have hnode : (g.setOp id op).node? id = some { old with op := op } := by rw [node?_setOp hold, if_pos rfl]
  obtain ⟨types, p, q, last, hfresh, hvisit, hrun, rfl⟩ := propagate_singleton_eq_ok hw hnode (revalidate_eq_ok hrev).2
  have hascending := hvisit.ascending hfresh
  obtain ⟨_, hlast⟩ := hascending.run hw (rank?_eq hw) _ hrun
  -- the rest of the run visits higher ranks
  have hafter : ∀ v ∈ old.outputs, last.commit.type? v = q.type? v := fun v hv =>
    (Propagation.type?_commit hlast.live v).trans
      (Ascending.type?_run hw (rank?_eq hw) (K := fun j => (g.setOp id op).rank id < (g.setOp id op).rank j)
        (fun hab hb => Nat.lt_trans hb (rank_lt_of_dependsOn hw hab)) hnode (Nat.lt_irrefl _) hv _
        hascending (fun _ hmem => (hascending.bounds _ hmem).1) hrun)
  have hsettling := hvisit.settling_setOp hg hold hfresh (fun v hv hsome =>
    (hknown v hv hsome).imp_right (fun hne => hafter v hv ▸ hne))
  have hlen := rank_lt_length hw hnode
  obtain ⟨bound, hend, hnil⟩ := Settling.run hw (rank?_eq hw) _ hsettling (by omega) hrun
  exact hend.typeConsistent hw hnil

/-- **Revalidation after an assignment agrees with inferring everything again**, if no known value is lost unnoticed:
where the node made a value known the new operation does so too, or the value has another type now.  The types are
up to date again, and inferring all of them changes nothing. -/
theorem inferAll_of_revalidate_setOp (hg : g.TypeConsistent) (hold : g.node? id = some old)
    (hrev : (g.setOp id op).revalidate id = .ok h)
    (hknown : ∀ v ∈ old.outputs, (g.knownValue? v).isSome = true → op.hasKnownValue = true ∨ h.type? v ≠ g.type? v) :
    h.TypeConsistent ∧ h.inferAll = .ok h := by
  have hh := typeConsistent_revalidate_setOp hg hold hrev hknown
  exact ⟨hh, propagate_of_typeConsistent hh _⟩

/-- A vector of sizes that is known, and a reshaping that reads it. -/
def reshaped : Graph :=
  [Edit.addParameter none ⟨.f32, .ofSizes [2, 3]⟩, .addConstant none ⟨.i64 [3, 2], [2]⟩,
    .addValue none (.reshape [] false) [⟨0⟩, ⟨1⟩], .setResults [⟨2⟩]].foldl Edit.apply (.empty .full)

theorem typeConsistent_reshaped : reshaped.TypeConsistent := by
  refine typeConsistent_edits _ (fun e he id op => ?_) (typeConsistent_empty .full)
  rintro rfl
  simp at he

/-- Other sizes of the same number reach the reader, although the type of the vector stays. -/
theorem inferAll_of_revalidate_reshaped : ∃ old h, reshaped.TypeConsistent ∧ reshaped.node? ⟨1⟩ = some old ∧
    (reshaped.setOp ⟨1⟩ (.constant ⟨.i64 [6, 1], [2]⟩)).revalidate ⟨1⟩ = .ok h ∧
    h.type? ⟨2⟩ = some ⟨.f32, .ofSizes [6, 1]⟩ ∧ h.TypeConsistent ∧ h.inferAll = .ok h := by
  have htype : ((reshaped.setOp ⟨1⟩ (.constant ⟨.i64 [6, 1], [2]⟩)).revalidate ⟨1⟩).map (·.type? ⟨2⟩) =
      .ok (some ⟨.f32, .ofSizes [6, 1]⟩) := by decide +kernel
  have hold : reshaped.node? ⟨1⟩ = some ⟨none, .constant ⟨.i64 [3, 2], [2]⟩, [], [⟨1⟩]⟩ := by decide +kernel
  cases hrev : (reshaped.setOp ⟨1⟩ (.constant ⟨.i64 [6, 1], [2]⟩)).revalidate ⟨1⟩ with
  | error e =>
    rw [hrev] at htype
    cases htype
  | ok h =>
    rw [hrev] at htype
    exact ⟨_, h, typeConsistent_reshaped, hold, rfl, Except.ok.inj htype,
      inferAll_of_revalidate_setOp typeConsistent_reshaped hold hrev (fun _ _ _ => Or.inl rfl)⟩

/-- **Where a known value is lost and no type changes, a stale type stays behind**: the vector becomes an input of
the graph, the reshaping keeps the sizes that it had, and inferring all types takes them back. -/
theorem stale_of_revalidate_reshaped : reshaped.TypeConsistent ∧ ∃ h k,
    (reshaped.setOp ⟨1⟩ (.parameter ⟨.i64, .ofSizes [2]⟩)).revalidate ⟨1⟩ = .ok h ∧ ¬ h.TypeConsistent ∧
    h.inferAll = .ok k ∧ h.type? ⟨2⟩ = some ⟨.f32, .ofSizes [3, 2]⟩ ∧ k.type? ⟨2⟩ = some ⟨.f32, .ofRank 2⟩ := by
  have htypes : ((reshaped.setOp ⟨1⟩ (.parameter ⟨.i64, .ofSizes [2]⟩)).revalidate ⟨1⟩).bind (fun h =>
      h.inferAll.map (fun k => (h.type? ⟨2⟩, k.type? ⟨2⟩))) =
        .ok (some ⟨.f32, .ofSizes [3, 2]⟩, some ⟨.f32, .ofRank 2⟩) := by decide +kernel
  cases hrev : (reshaped.setOp ⟨1⟩ (.parameter ⟨.i64, .ofSizes [2]⟩)).revalidate ⟨1⟩ with
  | error e =>
    rw [hrev] at htypes
    cases htypes
  | ok h =>
    rw [hrev] at htypes
    obtain ⟨k, hall, hk⟩ : ∃ k, h.inferAll = .ok k ∧
        (h.type? ⟨2⟩, k.type? ⟨2⟩) = (some ⟨.f32, .ofSizes [3, 2]⟩, some ⟨.f32, .ofRank 2⟩) := by
      cases hall : h.inferAll with
      | error e => simp [Except.bind, Except.map, hall] at htypes
      | ok k =>
        simp only [Except.bind, Except.map, hall, Except.ok.injEq] at htypes
        exact ⟨k, rfl, htypes⟩
    obtain ⟨hbefore, hafter⟩ := Prod.mk.inj hk
    refine ⟨typeConsistent_reshaped, h, k, rfl, fun hh => ?_, hall, hbefore, hafter⟩
    have hsame : h = k := Except.ok.inj ((propagate_of_typeConsistent hh _).symm.trans hall)
    rw [hsame, hafter] at hbefore
    cases hbefore

end Graph
end TensorGraph
