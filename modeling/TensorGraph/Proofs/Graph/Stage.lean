import TensorGraph.Proofs.Graph.Order
import TensorGraph.Proofs.Graph.Retype
/-!
# Stage — one visit of a propagation

The nodes to visit are held as ranks in ascending order, and a table has the rank of every node.
A visit stages the types of the outputs of one node, one after the other; `Staged` says what has
become of types and ranks when all of them are staged.
-/
namespace TensorGraph

/-! ## Ranks in ascending order -/

theorem mem_insertRank {a r : Nat} : ∀ {rs : List Nat}, a ∈ insertRank r rs ↔ a = r ∨ a ∈ rs
  | [] => by simp [insertRank]
  | s :: rs => by
    rw [insertRank]
    split
    · simp
    · split
      · rename_i hrs
        simp [hrs]
      · rw [List.mem_cons, mem_insertRank, List.mem_cons]
        tauto

theorem sorted_insertRank {r : Nat} : ∀ {rs : List Nat}, rs.Pairwise (· < ·) → (insertRank r rs).Pairwise (· < ·)
  | [], _ => List.pairwise_singleton _ _
  | s :: rs, h => by
    obtain ⟨hs, hrs⟩ := List.pairwise_cons.1 h
    rw [insertRank]
    split
    · rename_i hlt
      refine List.pairwise_cons.2 ⟨fun a ha => ?_, h⟩
      rcases List.mem_cons.1 ha with rfl | ha
      · exact hlt
      · exact Nat.lt_trans hlt (hs a ha)
    · split
      · exact h
      · refine List.pairwise_cons.2 ⟨fun a ha => ?_, sorted_insertRank hrs⟩
        rcases mem_insertRank.1 ha with rfl | ha
        · omega
        · exact hs a ha

theorem mem_foldr_insertRank {a : Nat} : ∀ {news rs : List Nat}, a ∈ news.foldr insertRank rs ↔ a ∈ news ∨ a ∈ rs
  | [], rs => by simp
  | r :: news, rs => by
    rw [List.foldr_cons, mem_insertRank, mem_foldr_insertRank, List.mem_cons, or_assoc]

theorem sorted_foldr_insertRank {rs : List Nat} (h : rs.Pairwise (· < ·)) :
    ∀ news : List Nat, (news.foldr insertRank rs).Pairwise (· < ·)
  | [] => h
  | _ :: news => sorted_insertRank (sorted_foldr_insertRank h news)

namespace Graph

/-! ## The table of ranks -/

theorem getElem?_foldl_setIfInbounds (id : NodeId) : ∀ (pairs : List (NodeId × Nat)) (table : Array (Option Nat)),
    id ∉ pairs.map Prod.fst →
      (pairs.foldl (fun table p => table.setIfInBounds p.1.index (some p.2)) table)[id.index]? = table[id.index]?
  | [], _, _ => rfl
  | p :: pairs, table, h => by
    rw [List.map_cons, List.mem_cons, not_or] at h
    rw [List.foldl_cons, getElem?_foldl_setIfInbounds id pairs _ h.2, Array.getElem?_setIfInBounds_ne]
    exact fun he => h.1 (NodeId.ext he.symm)

theorem getElem?_foldl_setIfInbounds_of_mem {id : NodeId} {r : Nat} : ∀ {pairs : List (NodeId × Nat)}
    {table : Array (Option Nat)}, (id, r) ∈ pairs → (pairs.map Prod.fst).Nodup → id.index < table.size →
      (pairs.foldl (fun table p => table.setIfInBounds p.1.index (some p.2)) table)[id.index]? = some (some r)
  | p :: pairs, table, hmem, hnodup, hlt => by
    rw [List.map_cons, List.nodup_cons] at hnodup
    rw [List.foldl_cons]
    rcases List.mem_cons.1 hmem with rfl | hmem
    · rw [getElem?_foldl_setIfInbounds id pairs _ hnodup.1, Array.getElem?_setIfInBounds_self_of_lt hlt]
    · exact getElem?_foldl_setIfInbounds_of_mem hmem hnodup.2 (by rw [Array.size_setIfInBounds]; exact hlt)

/-- **The table knows the rank of every node.** -/
theorem rankTable_eq {g : Graph} (h : g.WellFormed) {id : NodeId} {n : Node} (hn : g.node? id = some n) :
    (g.rankTable g.walkOrder)[id.index]?.join = some (g.rank id) := by
  have hmem : (id, g.rank id) ∈ g.walkOrder.zipIdx := by
    rw [List.mk_mem_zipIdx_iff_getElem?]
    exact List.getElem?_idxOf (mem_walkOrder h hn)
  have hnodup : (g.walkOrder.zipIdx.map Prod.fst).Nodup := by
    rw [List.zipIdx_map_fst]
    exact walkOrder_nodup h
  unfold rankTable
  rw [getElem?_foldl_setIfInbounds_of_mem hmem hnodup (by simpa using node?_lt hn)]
  rfl

theorem rank_inj {g : Graph} (h : g.WellFormed) {a b : NodeId} {n : Node} (hn : g.node? a = some n)
    (hr : g.rank a = g.rank b) : a = b := (List.idxOf_inj (mem_walkOrder h hn)).1 hr

theorem rank_of_getElem? {g : Graph} (h : g.WellFormed) {r : Nat} {id : NodeId} (hid : g.walkOrder[r]? = some id) :
    g.rank id = r := by
  obtain ⟨hlt, rfl⟩ := List.getElem?_eq_some_iff.1 hid
  exact (walkOrder_nodup h).idxOf_getElem r hlt

end Graph

/-! ## Staging the outputs of a node -/

namespace Propagation

open TensorGraph.Graph

/-- What staging types of outputs does to the types and to what is pending. -/
structure Staged (rank? : NodeId → Option Nat) (always : Bool) (outs : List (ValueId × TensorType))
    (p q : Propagation) : Prop where
  graph_eq : q.graph = p.graph
  live : p.Live → q.Live
  type?_other : ∀ w, w ∉ outs.map Prod.fst → q.type? w = p.type? w
  type?_staged : ∀ e ∈ outs, q.type? e.1 = some e.2
  pending_old : ∀ r ∈ p.pending, r ∈ q.pending
  pending_new : ∀ r ∈ q.pending, r ∈ p.pending ∨ ∃ e ∈ outs, ∃ u ∈ p.graph.usesOf e.1, rank? u.node = some r
  readers : ∀ e ∈ outs, always = true ∨ q.type? e.1 ≠ p.type? e.1 →
    ∀ u ∈ p.graph.usesOf e.1, ∀ r, rank? u.node = some r → r ∈ q.pending
  sorted : p.pending.Pairwise (· < ·) → q.pending.Pairwise (· < ·)

theorem live_stage (rank? : NodeId → Option Nat) (always : Bool) {p : Propagation} {e : ValueId × TensorType}
    (hlive : (p.graph.value? e.1).isSome = true) (hp : p.Live) : (p.stage rank? always e).Live := by
  unfold stage
  split
  · exact hp
  · exact List.forall_mem_cons.2 ⟨hlive, hp⟩

/-- What is staged is seen by look-ups at once. -/
theorem type?_stage (rank? : NodeId → Option Nat) (always : Bool) (p : Propagation) (e : ValueId × TensorType)
    (w : ValueId) : (p.stage rank? always e).type? w = if w = e.1 then some e.2 else p.type? w := by
  unfold stage
  split
  · rename_i hsame
    simp only [Bool.and_eq_true, decide_eq_true_eq] at hsame
    split
    · rename_i hw
      rw [hw, hsame.1]
    · rfl
  · exact type?_cons p.graph e p.staged _ p.visited w

theorem mem_pending_stage {rank? : NodeId → Option Nat} {always : Bool} {p : Propagation} {e : ValueId × TensorType}
    {r : Nat} : r ∈ (p.stage rank? always e).pending ↔ r ∈ p.pending ∨
      ((always = true ∨ p.type? e.1 ≠ some e.2) ∧ ∃ u ∈ p.graph.usesOf e.1, rank? u.node = some r) := by
  unfold stage
  split
  · rename_i hsame
    simp only [Bool.and_eq_true, decide_eq_true_eq, Bool.not_eq_true'] at hsame
    simp [hsame.1, hsame.2]
  · rename_i hdiff
    have hcond : always = true ∨ p.type? e.1 ≠ some e.2 := by
      simp only [Bool.and_eq_true, decide_eq_true_eq, Bool.not_eq_true', not_and, Bool.not_eq_false] at hdiff
      by_cases ht : p.type? e.1 = some e.2
      · exact Or.inl (hdiff ht)
      · exact Or.inr ht
    rw [mem_foldr_insertRank, List.mem_filterMap]
    constructor
    · rintro (h | h)
      · exact Or.inr ⟨hcond, h⟩
      · exact Or.inl h
    · rintro (h | ⟨-, h⟩)
      · exact Or.inr h
      · exact Or.inl h

theorem sorted_stage (rank? : NodeId → Option Nat) (always : Bool) {p : Propagation} (e : ValueId × TensorType)
    (h : p.pending.Pairwise (· < ·)) : (p.stage rank? always e).pending.Pairwise (· < ·) := by
  unfold stage
  split
  · exact h
  · exact sorted_foldr_insertRank h _

theorem Staged.nil (rank? : NodeId → Option Nat) (always : Bool) (p : Propagation) : Staged rank? always [] p p := by
  refine ⟨rfl, fun h => h, fun _ _ => rfl, ?_, fun _ h => h, fun _ h => Or.inl h, ?_, fun h => h⟩
  · intro e he
    cases he
  · intro e he
    cases he

theorem Staged.cons {rank? : NodeId → Option Nat} {always : Bool} {outs : List (ValueId × TensorType)}
    {e : ValueId × TensorType} {p q : Propagation} (hfresh : e.1 ∉ outs.map Prod.fst)
    (hlive : (p.graph.value? e.1).isSome = true) (hrest : Staged rank? always outs (p.stage rank? always e) q) :
    Staged rank? always (e :: outs) p q := by
  have hgraph := graph_stage rank? always p e
  have htype := type?_stage rank? always p e
  have hhead : q.type? e.1 = some e.2 := by rw [hrest.type?_other _ hfresh, htype, if_pos rfl]
  refine ⟨hrest.graph_eq.trans hgraph, fun h => hrest.live (live_stage rank? always hlive h), fun w hw => ?_,
    fun e' he' => ?_, fun r hr => ?_, fun r hr => ?_, fun e' he' hchanged u hu r hr => ?_,
    fun h => hrest.sorted (sorted_stage rank? always e h)⟩
  · rw [List.map_cons, List.mem_cons, not_or] at hw
    rw [hrest.type?_other w hw.2, htype, if_neg hw.1]
  · rcases List.mem_cons.1 he' with rfl | he'
    · exact hhead
    · exact hrest.type?_staged e' he'
  · exact hrest.pending_old r (mem_pending_stage.2 (Or.inl hr))
  · rcases hrest.pending_new r hr with hr | ⟨e', he', u, hu, hur⟩
    · rcases mem_pending_stage.1 hr with hr | ⟨-, hr⟩
      · exact Or.inl hr
      · exact Or.inr ⟨e, List.mem_cons_self, hr⟩
    · rw [hgraph] at hu
      exact Or.inr ⟨e', List.mem_cons_of_mem e he', u, hu, hur⟩
  · rcases List.mem_cons.1 he' with rfl | he'
    · -- what is staged later is another output, so the type of this one is final
      rw [hhead] at hchanged
      have hcond := hchanged.imp_right (fun hne he => hne (Eq.symm he))
      exact hrest.pending_old r (mem_pending_stage.2 (Or.inr ⟨hcond, u, hu, hr⟩))
    · have hne : e'.1 ≠ e.1 := fun he => hfresh (he ▸ List.mem_map_of_mem he')
      have hsame : (p.stage rank? always e).type? e'.1 = p.type? e'.1 := by rw [htype, if_neg hne]
      have hu' : u ∈ (p.stage rank? always e).graph.usesOf e'.1 := by rwa [hgraph]
      exact hrest.readers e' he' (hsame ▸ hchanged) u hu' r hr

theorem foldl_stage_spec (rank? : NodeId → Option Nat) (always : Bool) : ∀ (outs : List (ValueId × TensorType))
    (p : Propagation), (outs.map Prod.fst).Nodup → (∀ e ∈ outs, (p.graph.value? e.1).isSome = true) →
      Staged rank? always outs p (outs.foldl (stage rank? always) p)
  | [], p, _, _ => .nil rank? always p
  | e :: outs, p, hnodup, hlive => by
    rw [List.map_cons, List.nodup_cons] at hnodup
    refine .cons hnodup.1 (hlive e List.mem_cons_self)
      (foldl_stage_spec rank? always outs _ hnodup.2 (fun e' he' => ?_))
    rw [graph_stage]
    exact hlive e' (List.mem_cons_of_mem e he')

end Propagation
end TensorGraph
