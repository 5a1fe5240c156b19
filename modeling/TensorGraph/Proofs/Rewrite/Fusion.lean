import Mathlib.Data.Finset.Card
import TensorGraph.Proofs.Rewrite.BuiltIn
import TensorGraph.Proofs.Rewrite.Frame
import TensorGraph.Proofs.Rewrite.Typing
/-!
# Fusion — what becomes of a product that is fused

The fused node reads the factors in place of the product, and the sum dies when its readers are moved.
Then nobody reads the product, since the sum was the only node that did, unless the fused node reads it
too, which is so if the product was added to itself.  The guard of the rule counts the nodes that read
the product and not their inputs, so it lets that pass.

While the fused node is of use its inputs are, so no node but the sum and the product can go, and the
number of multiplications is the same if the product goes and grows by one if it stays.
-/
namespace TensorGraph

open TensorGraph.Graph

namespace Graph

/-- The nodes that multiply, with or without an addition. -/
def multiplications (g : Graph) : Finset NodeId :=
  (g.nodeIds.filter (fun id => (g.node? id).any (fun n =>
    n.op.type = .binary .multiply || n.op.type = .fusedMultiplyAdd))).toFinset

theorem mem_multiplications {g : Graph} {id : NodeId} : id ∈ g.multiplications ↔
    ∃ n, g.node? id = some n ∧ (n.op.type = .binary .multiply ∨ n.op.type = .fusedMultiplyAdd) := by
  unfold multiplications
  rw [List.mem_toFinset, List.mem_filter, mem_nodeIds]
  cases g.node? id <;> simp

/-- The node is of use by this output only, which is all that it has as a rule. -/
def UsedOnlyFor (g : Graph) (n : Node) (v : ValueId) : Prop := ∀ w ∈ n.outputs, g.InUse w → w = v

/-- A node whose types are up to date has no other output, unless it is a split. -/
theorem Typed.usedOnlyFor {g : Graph} {n : Node} (h : g.Typed n) (hsplit : n.op.type ≠ .split) {v : ValueId}
    (hv : v ∈ n.outputs) : g.UsedOnlyFor n v := by
  obtain ⟨types, hinf, hcached⟩ := h
  obtain ⟨ins, -, hvalid⟩ := bind_eq_ok.1 hinf
  have hlength := congrArg List.length hcached
  rw [List.length_map, List.length_map, Op.length_of_validate hsplit hvalid] at hlength
  obtain ⟨w, hout⟩ := List.length_eq_one_iff.1 hlength
  intro w' hw' _
  rw [hout, List.mem_singleton] at hv hw'
  exact hw'.trans hv.symm

/-- **A sum that can be fused**: node `s` adds `z` to the value `v`, which node `p` has multiplied from `x` and `y`, and
no other node reads the product. -/
structure Fusible (g : Graph) (root : ValueId) (sum product : NodeId) (s p : Node) (v x y z : ValueId) : Prop where
  root_output : g.producerId? root = some sum
  sum_node : g.node? sum = some s
  sum_op : s.op.type = .binary .add
  sum_inputs : s.inputs = [v, z] ∨ s.inputs = [z, v]
  product_output : g.producerId? v = some product
  product_node : g.node? product = some p
  product_op : p.op.type = .binary .multiply
  product_inputs : p.inputs = [x, y]
  not_result : v ∉ g.results
  only_reader : ∀ u, g.Reads u v → u.node = sum

namespace Fusible

variable {g : Graph} {root v x y z w : ValueId} {sum product : NodeId} {s p : Node}
  (F : Fusible g root sum product s p v x y z)

include F

theorem mem_sum_inputs : w ∈ s.inputs ↔ w = v ∨ w = z := by
  rcases F.sum_inputs with hin | hin
  · simp [hin]
  · simp [hin, or_comm]

theorem mem_product_inputs : w ∈ p.inputs ↔ w = x ∨ w = y := by simp [F.product_inputs]

theorem ne : sum ≠ product := by
  intro he
  obtain rfl : s = p := Option.some.inj (F.sum_node.symm.trans (he ▸ F.product_node))
  have hop := F.sum_op.symm.trans F.product_op
  cases hop

theorem eq_of_sum_reads {u : Use} (hread : g.Reads u w) (hu : u.node = sum) : w = v ∨ w = z := by
  obtain ⟨n, hn, hin⟩ := hread
  obtain rfl : n = s := Option.some.inj (hn.symm.trans (hu ▸ F.sum_node))
  exact F.mem_sum_inputs.1 (List.mem_of_getElem? hin)

theorem eq_of_product_reads {u : Use} (hread : g.Reads u w) (hu : u.node = product) : w = x ∨ w = y := by
  obtain ⟨n, hn, hin⟩ := hread
  obtain rfl : n = p := Option.some.inj (hn.symm.trans (hu ▸ F.product_node))
  exact F.mem_product_inputs.1 (List.mem_of_getElem? hin)

theorem sum_reads (hw : w = v ∨ w = z) : ∃ u, g.Reads u w ∧ u.node = sum := by
  obtain ⟨i, hread⟩ := reads_of_mem_inputs F.sum_node (F.mem_sum_inputs.2 hw)
  exact ⟨_, hread, rfl⟩

theorem product_reads (hw : w = x ∨ w = y) : ∃ u, g.Reads u w ∧ u.node = product := by
  obtain ⟨i, hread⟩ := reads_of_mem_inputs F.product_node (F.mem_product_inputs.2 hw)
  exact ⟨_, hread, rfl⟩

variable (hg : g.WellFormed)

include hg

theorem mem_sum_outputs : root ∈ s.outputs := by
  obtain ⟨val, hval, hp⟩ := Option.map_eq_some_iff.1 F.root_output
  exact (hg.mem_outputs_iff F.sum_node hval).2 hp

theorem mem_product_outputs : v ∈ p.outputs := by
  obtain ⟨val, hval, hp⟩ := Option.map_eq_some_iff.1 F.product_output
  exact (hg.mem_outputs_iff F.product_node hval).2 hp

theorem sum_dependsOn_product : g.DependsOn sum product := by
  obtain ⟨u, hread, hu⟩ := F.sum_reads (Or.inl rfl)
  exact (dependsOn_iff_reads hg F.product_node).2 ⟨v, F.mem_product_outputs hg, u, hread, hu⟩

/-- Neither of the two reads an output of the sum. -/
theorem sum_unread (hw : w ∈ s.outputs) {u : Use} (hread : g.Reads u w) : u.node ≠ sum ∧ u.node ≠ product := by
  have hdep : g.DependsOn u.node sum := (dependsOn_iff_reads hg F.sum_node).2 ⟨w, hw, u, hread, rfl⟩
  constructor
  · intro he
    exact hg.acyclic sum (.single (he ▸ hdep))
  · intro he
    exact hg.acyclic sum (.tail (.single (F.sum_dependsOn_product hg)) (he ▸ hdep))

theorem product_unread (hw : w ∈ p.outputs) {u : Use} (hread : g.Reads u w) : u.node ≠ product := by
  intro he
  exact hg.acyclic product (.single (he ▸ (dependsOn_iff_reads hg F.product_node).2 ⟨w, hw, u, hread, rfl⟩))

/-- What the fused node reads is no output of the sum. -/
theorem not_mem_sum_outputs (hw : w = x ∨ w = y ∨ w = z) : w ∉ s.outputs := by
  intro hout
  rcases or_assoc.2 hw with hw | hw
  · obtain ⟨u, hread, hu⟩ := F.product_reads hw
    exact (F.sum_unread hg hout hread).2 hu
  · obtain ⟨u, hread, hu⟩ := F.sum_reads (Or.inr hw)
    exact (F.sum_unread hg hout hread).1 hu

/-- Of what the fused node reads only the summand may be an output of the product. -/
theorem eq_of_mem_product_outputs (hw : w = x ∨ w = y ∨ w = z) (hout : w ∈ p.outputs) : w = z := by
  refine (or_assoc.2 hw).resolve_left (fun hw => ?_)
  obtain ⟨u, hread, hu⟩ := F.product_reads hw
  exact F.product_unread hg hout hread hu

theorem ne_root_of_mem_product_outputs (hw : w ∈ p.outputs) : w ≠ root := by
  rintro rfl
  exact hg.outputs_disjoint F.product_node F.sum_node F.ne.symm hw (F.mem_sum_outputs hg)

theorem input_live (hw : w = x ∨ w = y ∨ w = z) : (g.value? w).isSome = true := by
  rcases or_assoc.2 hw with hw | hw
  · exact hg.input_live F.product_node (F.mem_product_inputs.2 hw)
  · exact hg.input_live F.sum_node (F.mem_sum_inputs.2 (Or.inr hw))

end Fusible

/-! ## The graph with the fused node in it -/

/-- **A graph after a fusion, before dead nodes are removed**: a new node reads the factors and the summand, and is read
in place of the root. -/
structure FusedIn (g : Graph) (root x y z : ValueId) (h : Graph) : Prop where
  wellFormed : h.WellFormed
  results : h.results = g.results.map (swap root ⟨g.valueSlots⟩)
  node_old : ∀ {id : NodeId} {n : Node}, g.node? id = some n →
    ∃ m, h.node? id = some m ∧ m.op = n.op ∧ m.outputs = n.outputs
  node_new : ∃ m, h.node? ⟨g.nodeSlots⟩ = some m ∧ m.op.type = .fusedMultiplyAdd ∧ ⟨g.valueSlots⟩ ∈ m.outputs ∧
    ∀ w ∈ m.outputs, g.valueSlots ≤ w.index
  node_cases : ∀ {id : NodeId} {m : Node}, h.node? id = some m → id = ⟨g.nodeSlots⟩ ∨ ∃ n, g.node? id = some n
  reads : ∀ {u : Use} {w : ValueId}, h.Reads u w ↔ (g.Reads u w ∧ w ≠ root) ∨
    (u.node = ⟨g.nodeSlots⟩ ∧ [x, y, z][u.input]? = some w) ∨ (w = ⟨g.valueSlots⟩ ∧ g.Reads u root)

namespace FusedIn

variable {g h : Graph} {root x y z : ValueId} {id c : NodeId} {n : Node} (H : FusedIn g root x y z h) (hg : g.WellFormed)

include H hg

/-- Who reads an old node after the fusion: those who read another output than the root, and the fused node. -/
theorem dependsOn_old (hn : g.node? id = some n) : h.DependsOn c id ↔
    (∃ w ∈ n.outputs, w ≠ root ∧ ∃ u, g.Reads u w ∧ u.node = c) ∨
      (c = ⟨g.nodeSlots⟩ ∧ ∃ w ∈ n.outputs, w = x ∨ w = y ∨ w = z) := by
  obtain ⟨m, hm, -, hout⟩ := H.node_old hn
  rw [dependsOn_iff_reads H.wellFormed hm, hout]
  constructor
  · rintro ⟨w, hw, u, hread, rfl⟩
    rcases H.reads.1 hread with ⟨hread, hne⟩ | ⟨hu, hw'⟩ | ⟨rfl, -⟩
    · exact Or.inl ⟨w, hw, hne, u, hread, rfl⟩
    · exact Or.inr ⟨hu, w, hw, by simpa using List.mem_of_getElem? hw'⟩
    · -- the replacement is new
      obtain ⟨val, hval, -⟩ := hg.output_live' hn hw
      exact absurd (value?_lt hval) (Nat.lt_irrefl _)
  · rintro (⟨w, hw, hne, u, hread, rfl⟩ | ⟨rfl, w, hw, hin⟩)
    · exact ⟨w, hw, u, H.reads.2 (Or.inl ⟨hread, hne⟩), rfl⟩
    · obtain ⟨i, hi⟩ := List.mem_iff_getElem?.1 (show w ∈ [x, y, z] by simpa using hin)
      exact ⟨w, hw, ⟨⟨g.nodeSlots⟩, i⟩, H.reads.2 (Or.inr (Or.inl ⟨rfl, hi⟩)), rfl⟩

/-- Who reads the fused node: those who read the root before. -/
theorem dependsOn_new (hlive : ∀ w, w = x ∨ w = y ∨ w = z → (g.value? w).isSome = true) :
    h.DependsOn c ⟨g.nodeSlots⟩ ↔ ∃ u, g.Reads u root ∧ u.node = c := by
  obtain ⟨m, hm, -, hout, hfresh⟩ := H.node_new
  rw [dependsOn_iff_reads H.wellFormed hm]
  have hold : ∀ w ∈ m.outputs, (g.value? w).isSome ≠ true := fun w hw hsome => by
    obtain ⟨val, hval⟩ := Option.isSome_iff_exists.1 hsome
    exact Nat.not_le.2 (value?_lt hval) (hfresh w hw)
  constructor
  · rintro ⟨w, hw, u, hread, rfl⟩
    rcases H.reads.1 hread with ⟨hread, -⟩ | ⟨-, hw'⟩ | ⟨-, hread⟩
    · exact absurd (hg.live_of_reads hread) (hold w hw)
    · exact absurd (hlive w (by simpa using List.mem_of_getElem? hw')) (hold w hw)
    · exact ⟨u, hread, rfl⟩
  · rintro ⟨u, hread, rfl⟩
    exact ⟨_, hout, u, H.reads.2 (Or.inr (Or.inr ⟨rfl, hread⟩)), rfl⟩

/-- The fused node keeps in the graph what it reads. -/
theorem reads_input (hn : g.node? id = some n) {w : ValueId} (hw : w ∈ n.outputs) (hin : w = x ∨ w = y ∨ w = z) :
    h.DependsOn ⟨g.nodeSlots⟩ id := (H.dependsOn_old hg hn).2 (Or.inr ⟨rfl, w, hw, hin⟩)

theorem expendable_old (hn : g.node? id = some n) :
    h.Expendable id ↔ n.op.type ≠ .parameter ∧ ∀ w ∈ n.outputs, w ∈ g.results → w = root := by
  obtain ⟨m, hm, hop, hout⟩ := H.node_old hn
  have hresult : ∀ w ∈ n.outputs, w ∈ h.results ↔ w ∈ g.results ∧ w ≠ root := by
    intro w hw
    obtain ⟨val, hval, -⟩ := hg.output_live' hn hw
    have hne : w ≠ ⟨g.valueSlots⟩ := fun he => absurd (value?_lt hval) (he ▸ Nat.lt_irrefl _)
    rw [H.results, List.mem_map]
    constructor
    · rintro ⟨w', hw', rfl⟩
      by_cases hroot : w' = root
      · rw [hroot, swap_self] at hne
        exact absurd rfl hne
      · rw [swap_of_ne hroot]
        exact ⟨hw', hroot⟩
    · rintro ⟨hmem, hroot⟩
      exact ⟨w, hmem, swap_of_ne hroot⟩
  constructor
  · rintro ⟨m', hm', hkind, hnone⟩
    obtain rfl : m = m' := Option.some.inj (hm.symm.trans hm')
    refine ⟨hop ▸ hkind, fun w hw hmem => ?_⟩
    by_contra hne
    exact hnone w (hout ▸ hw) ((hresult w hw).2 ⟨hmem, hne⟩)
  · rintro ⟨hkind, hroot⟩
    refine ⟨m, hm, hop ▸ hkind, fun w hw hmem => ?_⟩
    rw [hout] at hw
    obtain ⟨hmem, hne⟩ := (hresult w hw).1 hmem
    exact hne (hroot w hw hmem)

theorem expendable_new : h.Expendable ⟨g.nodeSlots⟩ ↔ root ∉ g.results := by
  obtain ⟨m, hm, hop, hout, hfresh⟩ := H.node_new
  constructor
  · rintro ⟨m', hm', -, hnone⟩ hmem
    obtain rfl : m = m' := Option.some.inj (hm.symm.trans hm')
    refine hnone _ hout ?_
    rw [H.results]
    exact List.mem_map.2 ⟨root, hmem, swap_self _ _⟩
  · refine fun hroot => ⟨m, hm, by simp [hop], fun w hw hmem => ?_⟩
    rw [H.results] at hmem
    obtain ⟨w', hw', rfl⟩ := List.mem_map.1 hmem
    have hne : w' ≠ root := fun he => hroot (he ▸ hw')
    rw [swap_of_ne hne] at hw
    obtain ⟨val, hval⟩ := Option.isSome_iff_exists.1 (hg.result_live w' hw')
    exact Nat.not_le.2 (value?_lt hval) (hfresh w' hw)

end FusedIn

/-! ## What the collector removes -/

theorem ne_new_of_node? {g : Graph} {id : NodeId} {n : Node} (hn : g.node? id = some n) : id ≠ ⟨g.nodeSlots⟩ := by
  rintro rfl
  exact Nat.lt_irrefl _ (node?_lt hn)

section Collected

variable {g h : Graph} {root v x y z : ValueId} {sum product : NodeId} {s p : Node} {candidates : List NodeId}
  {R : Set NodeId} (F : Fusible g root sum product s p v x y z) (H : FusedIn g root x y z h) (hg : g.WellFormed)
  (hcandidates : ∀ id, id ∈ candidates ↔ id = sum ∨ id = ⟨g.nodeSlots⟩)
  (hleast : IsLeast {D | h.CascadeClosed candidates D} R)

include F H hg

theorem FusedIn.sum_dependsOn_product : h.DependsOn sum product := by
  obtain ⟨u, hread, hu⟩ := F.sum_reads (Or.inl rfl)
  have hv := F.mem_product_outputs hg
  exact (H.dependsOn_old hg F.product_node).2 (Or.inl ⟨v, hv, F.ne_root_of_mem_product_outputs hg hv, u, hread, hu⟩)

include hcandidates

/-- **While the sum is needed, the cascade from it ends at the product**: whatever else the two nodes have read the fused
node reads as well. -/
theorem closed_sum_product (hused : g.InUse root) : h.CascadeClosed candidates {id | id = sum ∨ id = product} := by
  intro id hexpendable hreaders hreason
  have hnew : ¬ h.DependsOn ⟨g.nodeSlots⟩ id := fun hc => by
    rcases hreaders _ hc with he | he
    · exact ne_new_of_node? F.sum_node he.symm
    · exact ne_new_of_node? F.product_node he.symm
  obtain ⟨m, hm⟩ : ∃ m, h.node? id = some m := hexpendable.imp (fun _ hm => hm.1)
  rcases H.node_cases hm with rfl | ⟨n, hn⟩
  · -- what reads the fused node has read the sum
    exfalso
    rcases hused with hresult | ⟨u, hread⟩
    · exact (H.expendable_new hg).1 hexpendable hresult
    · have hreader := hreaders u.node ((H.dependsOn_new hg (fun _ => F.input_live hg)).2 ⟨u, hread, rfl⟩)
      obtain ⟨hsum, hproduct⟩ := F.sum_unread hg (F.mem_sum_outputs hg) hread
      exact hreader.elim hsum hproduct
  rcases hreason with ⟨c, hc⟩ | hmem
  · rcases (H.dependsOn_old hg hn).1 hc with ⟨w, hw, -, u, hread, rfl⟩ | ⟨rfl, -⟩
    · have hunread : ¬ (w = x ∨ w = y ∨ w = z) := fun hin => hnew (H.reads_input hg hn hw hin)
      rcases hreaders u.node hc with hu | hu
      · obtain rfl := (F.eq_of_sum_reads hread hu).resolve_right (fun he => hunread (Or.inr (Or.inr he)))
        obtain ⟨val, hval, hp⟩ := Option.map_eq_some_iff.1 F.product_output
        exact Or.inr (((hg.mem_outputs_iff hn hval).1 hw).symm.trans hp)
      · exact absurd (or_assoc.1 (Or.inl (F.eq_of_product_reads hread hu))) hunread
    · exact absurd hc hnew
  · exact Or.inl (((hcandidates id).1 hmem).resolve_right (ne_new_of_node? hn))

include hleast

/-- **The fused node goes if nobody needed the sum.** -/
theorem fused_mem (hunused : ¬ g.InUse root) : (⟨g.nodeSlots⟩ : NodeId) ∈ R := by
  refine hleast.1 _ ((H.expendable_new hg).2 (fun hmem => hunused (Or.inl hmem))) (fun c hc => ?_)
    (Or.inr ((hcandidates _).2 (Or.inr rfl)))
  obtain ⟨u, hread, -⟩ := (H.dependsOn_new hg (fun _ => F.input_live hg)).1 hc
  exact absurd (Or.inr ⟨u, hread⟩) hunused

/-- The sum goes if it was needed for the root only. -/
theorem sum_mem (hsum : g.UsedOnlyFor s root) : sum ∈ R := by
  refine hleast.1 sum ((H.expendable_old hg F.sum_node).2 ⟨by simp [F.sum_op], fun w hw hmem => ?_⟩) (fun c hc => ?_)
    (Or.inr ((hcandidates sum).2 (Or.inl rfl)))
  · exact hsum w hw (Or.inl hmem)
  · rcases (H.dependsOn_old hg F.sum_node).1 hc with ⟨w, hw, hne, u, hread, -⟩ | ⟨-, w, hw, hin⟩
    · exact absurd (hsum w hw (Or.inr ⟨u, hread⟩)) hne
    · exact absurd hw (F.not_mem_sum_outputs hg hin)

/-- **The product goes after the sum**, unless the fused node stays and reads it. -/
theorem product_mem (hsum : g.UsedOnlyFor s root) (hproduct : g.UsedOnlyFor p v) (hz : z ≠ v ∨ ¬ g.InUse root) :
    product ∈ R := by
  refine hleast.1 product ((H.expendable_old hg F.product_node).2 ⟨by simp [F.product_op], fun w hw hmem => ?_⟩)
    (fun c hc => ?_) (Or.inl ⟨sum, H.sum_dependsOn_product F hg⟩)
  · exact absurd (hproduct w hw (Or.inl hmem) ▸ hmem) F.not_result
  rcases (H.dependsOn_old hg F.product_node).1 hc with ⟨w, hw, -, u, hread, rfl⟩ | ⟨rfl, w, hw, hin⟩
  · obtain rfl := hproduct w hw (Or.inr ⟨u, hread⟩)
    rw [F.only_reader u hread]
    exact sum_mem F H hg hcandidates hleast hsum
  · obtain rfl := F.eq_of_mem_product_outputs hg hin hw
    obtain ⟨u, hread, -⟩ := F.sum_reads (Or.inr rfl)
    have hunused := hz.resolve_left (fun hne => hne (hproduct w hw (Or.inr ⟨u, hread⟩)))
    exact fused_mem F H hg hcandidates hleast hunused

/-- **While the sum is needed the product does not go otherwise.** -/
theorem of_product_mem (hused : g.InUse root) (hgone : product ∈ R) :
    z ≠ v ∧ g.UsedOnlyFor s root ∧ g.UsedOnlyFor p v := by
  have honly : ∀ {id : NodeId}, id ∈ R → id = sum ∨ id = product := fun hid =>
    hleast.2 (closed_sum_product F H hg hcandidates hused) hid
  obtain ⟨hexpendable, hreaders, -⟩ := CascadeClosed.of_mem_least hleast hgone
  obtain ⟨hexpendable', hreaders', -⟩ :=
    CascadeClosed.of_mem_least hleast (hreaders sum (H.sum_dependsOn_product F hg))
  have hsummand : z ∉ p.outputs := fun hz => by
    rcases honly (hreaders _ (H.reads_input hg F.product_node hz (Or.inr (Or.inr rfl)))) with he | he
    · exact ne_new_of_node? F.sum_node he.symm
    · exact ne_new_of_node? F.product_node he.symm
  refine ⟨fun he => hsummand (he ▸ F.mem_product_outputs hg), fun w hw hinUse => ?_, fun w hw hinUse => ?_⟩
  · rcases hinUse with hmem | ⟨u, hread⟩
    · exact ((H.expendable_old hg F.sum_node).1 hexpendable').2 w hw hmem
    · by_contra hne
      obtain ⟨hsum, hproduct⟩ := F.sum_unread hg hw hread
      have hdep := (H.dependsOn_old hg F.sum_node).2 (Or.inl ⟨w, hw, hne, u, hread, rfl⟩)
      exact (honly (hreaders' u.node hdep)).elim hsum hproduct
  · have hne := F.ne_root_of_mem_product_outputs hg hw
    rcases hinUse with hmem | ⟨u, hread⟩
    · exact absurd (((H.expendable_old hg F.product_node).1 hexpendable).2 w hw hmem) hne
    · have hdep := (H.dependsOn_old hg F.product_node).2 (Or.inl ⟨w, hw, hne, u, hread, rfl⟩)
      have hsum := (honly (hreaders u.node hdep)).resolve_right (F.product_unread hg hw hread)
      exact (F.eq_of_sum_reads hread hsum).resolve_right (fun he => hsummand (he ▸ hw))

/-! ## Counting -/

variable {final : Graph} {gone : List NodeId} (hw : Without h gone final) (hR : ∀ id, id ∈ gone ↔ id ∈ R)

omit F hg hcandidates hleast in
include hw in
theorem mem_multiplications_final {id : NodeId} : id ∈ final.multiplications ↔
    id ∉ gone ∧ (id = ⟨g.nodeSlots⟩ ∨ id ∈ g.multiplications) := by
  rw [mem_multiplications, mem_multiplications]
  constructor
  · rintro ⟨m, hm, hkind⟩
    obtain ⟨hid, hm⟩ := hw.node?_eq_some.1 hm
    refine ⟨hid, (H.node_cases hm).imp_right (fun ⟨n, hn⟩ => ⟨n, hn, ?_⟩)⟩
    obtain ⟨m', hm', hop, -⟩ := H.node_old hn
    obtain rfl : m = m' := Option.some.inj (hm.symm.trans hm')
    exact hop ▸ hkind
  · rintro ⟨hid, rfl | ⟨n, hn, hkind⟩⟩
    · obtain ⟨m, hm, hop, -⟩ := H.node_new
      exact ⟨m, hw.node?_eq_some.2 ⟨hid, hm⟩, Or.inr hop⟩
    · obtain ⟨m, hm, hop, -⟩ := H.node_old hn
      exact ⟨m, hw.node?_eq_some.2 ⟨hid, hm⟩, hop ▸ hkind⟩

omit hg H hcandidates hleast in
theorem product_mem_multiplications : product ∈ g.multiplications :=
  mem_multiplications.2 ⟨p, F.product_node, Or.inl F.product_op⟩

include hw hR in
/-- **The number of multiplications grows exactly if both the fused node and the product are left.** -/
theorem card_multiplications_le : final.multiplications.card ≤ g.multiplications.card ↔
    product ∈ gone ∨ ¬ g.InUse root := by
  have hproduct := product_mem_multiplications F
  constructor
  · intro hle
    by_contra hboth
    rw [not_or, not_not] at hboth
    obtain ⟨hleft, hused⟩ := hboth
    have hnew : (⟨g.nodeSlots⟩ : NodeId) ∉ g.multiplications := fun hmem => by
      obtain ⟨n, hn, -⟩ := mem_multiplications.1 hmem
      exact ne_new_of_node? hn rfl
    have hsub : Insert.insert ⟨g.nodeSlots⟩ g.multiplications ⊆ final.multiplications := by
      intro id hid
      refine (mem_multiplications_final H hw).2 ⟨fun hgone => ?_, Finset.mem_insert.1 hid⟩
      rcases hleast.2 (closed_sum_product F H hg hcandidates hused) ((hR id).1 hgone) with rfl | rfl
      · rcases Finset.mem_insert.1 hid with he | hmem
        · exact ne_new_of_node? F.sum_node he
        · obtain ⟨n, hn, hkind⟩ := mem_multiplications.1 hmem
          obtain rfl : s = n := Option.some.inj (F.sum_node.symm.trans hn)
          simp [F.sum_op] at hkind
      · exact hleft hgone
    have hcard := Finset.card_le_card hsub
    rw [Finset.card_insert_of_notMem hnew] at hcard
    omega
  · rintro (hgone | hunused)
    · have hsub : final.multiplications ⊆ Insert.insert ⟨g.nodeSlots⟩ (g.multiplications.erase product) := by
        intro id hid
        obtain ⟨hleft, hid⟩ := (mem_multiplications_final H hw).1 hid
        refine Finset.mem_insert.2 (hid.imp_right (fun hmem => Finset.mem_erase.2 ⟨?_, hmem⟩))
        exact fun he => hleft (he ▸ hgone)
      have hcard := (Finset.card_le_card hsub).trans (Finset.card_insert_le _ _)
      rwa [Finset.card_erase_add_one hproduct] at hcard
    · refine Finset.card_le_card (fun id hid => ?_)
      obtain ⟨hleft, rfl | hmem⟩ := (mem_multiplications_final H hw).1 hid
      · exact absurd ((hR _).2 (fused_mem F H hg hcandidates hleast hunused)) hleft
      · exact hmem

end Collected

/-- A value of one reader has no other. -/
theorem node_eq_of_consumerCount {g : Graph} (hg : g.WellFormed) {v : ValueId} (hcount : g.consumerCount v = 1)
    {u u' : Use} (hu : g.Reads u v) (hu' : g.Reads u' v) : u.node = u'.node := by
  obtain ⟨val, hval⟩ := Option.isSome_iff_exists.1 (hg.live_of_reads hu)
  rw [consumerCount, hval, Option.map_some, Option.getD_some, Value.consumerCount] at hcount
  obtain ⟨a, ha⟩ := List.length_eq_one_iff.1 hcount
  have honly : ∀ {w : Use}, g.Reads w v → w.node = a := fun hw => by
    have hmem := List.mem_eraseDups.2 (List.mem_map_of_mem (f := Use.node) ((hg.mem_uses hval _).2 hw))
    exact List.mem_singleton.1 (ha ▸ hmem)
  rw [honly hu, honly hu']

end Graph

namespace Rule

variable {rule : Rule} {g : Graph} {rootId : ValueId}

theorem Spliced.fusible {m : Match} {root : Value} {new : ValueId} {grown updated : Graph}
    (h : rule.Spliced g rootId m root new grown updated) (hg : g.WellFormed) (hrule : rule.pattern = multiplyAddPattern) :
    ∃ s product p v x y z, Fusible g rootId root.producer product s p v x y z ∧
      m.get? "a" = some x ∧ m.get? "b" = some y ∧ m.get? "c" = some z := by
  obtain ⟨s, p, b, b', v, x, y, z, hs, hsop, hsin, hp, hpop, hpin, hx, hy, hz, hsingle⟩ :=
    sum_of_match hg (hrule ▸ h.matched)
  obtain ⟨val, hval, hsum⟩ := producer?_eq_some hs
  obtain rfl : root = val := Option.some.inj (h.root_live.symm.trans hval)
  obtain ⟨pval, hpval, hproduct⟩ := producer?_eq_some hp
  obtain ⟨hcount, hresult⟩ : g.consumerCount v = 1 ∧ v ∉ g.results := by
    simpa [Predicate.singleUse, isResult] using hsingle
  have hreads : v ∈ s.inputs := by
    rcases hsin with hin | hin
    · simp [hin]
    · simp [hin]
  obtain ⟨i, hread⟩ := reads_of_mem_inputs hsum hreads
  exact ⟨s, pval.producer, p, v, x, y, z, ⟨producerId?_eq_some h.root_live, hsum, by rw [hsop]; rfl, hsin,
    producerId?_eq_some hpval, hproduct, by rw [hpop]; rfl, hpin, hresult,
    fun u hu => node_eq_of_consumerCount hg hcount hu hread⟩, hx, hy, hz⟩

section Inserted

variable {m : Match} {root : Value} {new x y z : ValueId} {grown updated : Graph} {name : Option String} {id : NodeId}
  (hins : g.insert name .fusedMultiplyAdd [x, y, z] = .ok (id, new, grown))

include hins

theorem mem_nodesFrom_of_insert (a : NodeId) : a ∈ grown.nodesFrom g.nodeSlots ↔ a = ⟨g.nodeSlots⟩ := by
  obtain ⟨types, -, -, -, -, -, rfl⟩ := insert_eq_ok hins
  rw [Atop.mem_nodesFrom, node?_appendNode]
  constructor
  · rintro ⟨hle, hlive⟩
    by_contra hne
    rw [if_neg (fun he => hne (NodeId.ext he))] at hlive
    obtain ⟨n, hn⟩ := Option.isSome_iff_exists.1 hlive
    exact Nat.not_le.2 (node?_lt hn) hle
  · rintro rfl
    rw [if_pos rfl]
    exact ⟨Nat.le_refl _, rfl⟩

variable (h : rule.Spliced g rootId m root new grown updated) (hg : g.WellFormed)

include h hg

/-- **Who reads what after the fusion.** -/
theorem Spliced.reads_fused (u : Use) (w : ValueId) : updated.Reads u w ↔ (g.Reads u w ∧ w ≠ rootId) ∨
    (u.node = ⟨g.nodeSlots⟩ ∧ [x, y, z][u.input]? = some w) ∨ (w = ⟨g.valueSlots⟩ ∧ g.Reads u rootId) := by
  have hadded := mem_nodesFrom_of_insert hins
  obtain ⟨types, -, -, -, -, rfl, hgrown⟩ := insert_eq_ok hins
  have hreads : ∀ {w : ValueId}, grown.Reads u w ↔
      g.Reads u w ∨ (u.node = ⟨g.nodeSlots⟩ ∧ [x, y, z][u.input]? = some w) := by
    rw [hgrown]
    exact reads_appendNode_iff ..
  have hold : ∀ {w : ValueId}, g.Reads u w → u.node ≠ ⟨g.nodeSlots⟩ := fun hread he =>
    Nat.lt_irrefl _ (he ▸ hread.lt_nodeSlots)
  rw [h.reads_updated hg, hadded, hreads, hreads]
  constructor
  · rintro (⟨hread | hfused, hkept⟩ | ⟨rfl, hread | ⟨hu, -⟩, hmoved⟩)
    · exact Or.inl ⟨hread, fun he => hold hread (hkept he)⟩
    · exact Or.inr (Or.inl hfused)
    · exact Or.inr (Or.inr ⟨rfl, hread⟩)
    · exact absurd hu hmoved
  · rintro (⟨hread, hroot⟩ | ⟨hu, hin⟩ | ⟨rfl, hread⟩)
    · exact Or.inl ⟨Or.inl hread, fun he => absurd he hroot⟩
    · exact Or.inl ⟨Or.inr ⟨hu, hin⟩, fun _ => hu⟩
    · exact Or.inr ⟨rfl, Or.inl hread, hold hread⟩

theorem Spliced.fusedIn : FusedIn g rootId x y z updated := by
  have hreads := h.reads_fused hins hg
  have hadded := mem_nodesFrom_of_insert hins
  obtain ⟨types, -, -, hne, -, rfl, hgrown⟩ := insert_eq_ok hins
  have hlength : 0 < types.length := List.length_pos_of_ne_nil hne
  have hnode : grown.node? ⟨g.nodeSlots⟩ = some ⟨name, .fusedMultiplyAdd, [x, y, z], g.freshValues types.length⟩ := by
    rw [hgrown, node?_appendNode, if_pos rfl]
  refine ⟨h.updated_wellFormed hg, h.results_updated hg, fun hn => ⟨_, h.node?_updated hg hn, rfl, rfl⟩,
    ⟨⟨name, .fusedMultiplyAdd, [x, y, z], g.freshValues types.length⟩, ?_, rfl, List.mem_of_getElem? (i := 0) ?_,
      fun w hw => ?_⟩, fun {a m} hm => ?_, hreads _ _⟩
  · rw [h.retyped.node?_eq, node?_redirect_kept ((hadded _).2 rfl), hnode]
  · rw [getElem?_freshValues, if_pos hlength]
    rfl
  · obtain ⟨i, hi⟩ := List.mem_iff_getElem?.1 hw
    rw [getElem?_freshValues] at hi
    split at hi
    · obtain rfl := Option.some.inj hi
      exact Nat.le_add_right _ _
    · cases hi
  · obtain ⟨old, hold, -⟩ := h.node_updated hg hm
    rw [hgrown] at hold
    rcases node?_appendNode_cases hold with ⟨ha, -⟩ | hold
    · exact Or.inl ha
    · exact Or.inr ⟨old, hold⟩

end Inserted

/-- **When a fusion removes the product.**  While the sum is in use, exactly if the product was not added to itself and
neither of the two nodes has another output in use; a sum that nobody needs takes the product with it even if it was
added to itself.  The number of multiplications does not grow exactly if the product has gone or the sum was not in use.
Where the types of the two nodes are up to date they have no other outputs, and all that can keep the product is that it
was added to itself. -/
theorem product_gone_iff (hg : g.WellFormed) (hrule : multiplyAddFusion = .ok rule) {new : ValueId} {final : Graph}
    (h : rule.applyAt g rootId = (.applied new, final)) : ∃ sum product s p v x y z,
    Fusible g rootId sum product s p v x y z ∧
      (g.InUse rootId →
        (final.node? product = none ↔ z ≠ v ∧ g.UsedOnlyFor s rootId ∧ g.UsedOnlyFor p v)) ∧
      (¬ g.InUse rootId → g.UsedOnlyFor s rootId → g.UsedOnlyFor p v → final.node? product = none) ∧
      (final.multiplications.card ≤ g.multiplications.card ↔ final.node? product = none ∨ ¬ g.InUse rootId) ∧
      (g.Typed s → g.Typed p → (final.node? product = none ↔ z ≠ v ∨ ¬ g.InUse rootId)) := by
  obtain rfl := ofSketch_eq_ok hrule
  obtain ⟨m, root, grown, updated, hs, rfl⟩ := applyAt_eq_applied_iff.1 h
  obtain ⟨s, product, p, v, x, y, z, F, hx, hy, hz⟩ := hs.fusible hg rfl
  obtain ⟨name, hrun⟩ := run_fuseMultiplyAdd hx hy hz hs.built
  obtain ⟨id, hins⟩ := Construction.run_addValue_eq_ok.1 hrun
  have H := hs.fusedIn hins hg
  have hcandidates : ∀ a, a ∈ root.producer :: grown.nodesFrom g.nodeSlots ↔ a = root.producer ∨ a = ⟨g.nodeSlots⟩ :=
    fun a => List.mem_cons.trans (or_congr_right (mem_nodesFrom_of_insert hins a))
  have hleast := isLeast_removeDead H.wellFormed (root.producer :: grown.nodesFrom g.nodeSlots)
  have hw := without_removeDead H.wellFormed (root.producer :: grown.nodesFrom g.nodeSlots)
  have hgone : (updated.removeDead (root.producer :: grown.nodesFrom g.nodeSlots)).1.node? product = none ↔
      product ∈ (updated.removeDead (root.producer :: grown.nodesFrom g.nodeSlots)).2 := by
    obtain ⟨n, hn, -⟩ := H.node_old F.product_node
    exact hw.node?_eq_none hn
  have hneeded : g.InUse rootId → (product ∈ (updated.removeDead (root.producer :: grown.nodesFrom g.nodeSlots)).2 ↔
      z ≠ v ∧ g.UsedOnlyFor s rootId ∧ g.UsedOnlyFor p v) := fun hused =>
    ⟨of_product_mem F H hg hcandidates hleast hused,
      fun hall => product_mem F H hg hcandidates hleast hall.2.1 hall.2.2 (Or.inl hall.1)⟩
  refine ⟨root.producer, product, s, p, v, x, y, z, F, fun hused => hgone.trans (hneeded hused),
    fun hunused hsum hproduct => hgone.2 (product_mem F H hg hcandidates hleast hsum hproduct (Or.inr hunused)),
    ?_, fun hs hp => hgone.trans ?_⟩
  · rw [hgone]
    exact card_multiplications_le F H hg hcandidates hleast hw (fun _ => Iff.rfl)
  · have hsum := hs.usedOnlyFor (by simp [F.sum_op]) (F.mem_sum_outputs hg)
    have hproduct := hp.usedOnlyFor (by simp [F.product_op]) (F.mem_product_outputs hg)
    refine ⟨fun hmem => ?_, product_mem F H hg hcandidates hleast hsum hproduct⟩
    by_cases hused : g.InUse rootId
    · exact Or.inl ((hneeded hused).1 hmem).1
    · exact Or.inr hused

def fusion : Rule := ⟨"MultiplyAddFusion", multiplyAddPattern, fuseMultiplyAdd⟩

theorem multiplyAddFusion_eq_ok : multiplyAddFusion = .ok fusion :=
  ofSketch_of_build (PatternBuilder.build_eq_ok.2 ⟨rfl, by decide +kernel, by decide +kernel⟩)

/-- A product is the second operand of a sum. -/
def swapped : Graph :=
  [Edit.addParameter none ⟨.f32, .ofSizes [3]⟩, .addParameter none ⟨.f32, .ofSizes [3]⟩,
    .addValue none (.binary .multiply .numpy) [⟨0⟩, ⟨1⟩], .addValue none (.binary .add .numpy) [⟨0⟩, ⟨2⟩],
    .setResults [⟨3⟩]].foldl Edit.apply (.empty .full)

/-- The product goes, since the summand is one of its factors and not itself. -/
theorem product_gone_iff_swapped : swapped.WellFormed ∧ multiplyAddFusion = .ok fusion ∧
    ∃ final sum product s p v x y z, fusion.applyAt swapped ⟨3⟩ = (.applied ⟨4⟩, final) ∧
      Fusible swapped ⟨3⟩ sum product s p v x y z ∧ final.node? product = none ∧
      final.multiplications.card ≤ swapped.multiplications.card := by
  have hg : swapped.TypeConsistent := by
    refine typeConsistent_edits _ (fun e he id op => ?_) (typeConsistent_empty .full)
    rintro rfl
    simp at he
  have hout : (fusion.applyAt swapped ⟨3⟩).1 = .applied ⟨4⟩ := by decide +kernel
  have happlied : fusion.applyAt swapped ⟨3⟩ = (.applied ⟨4⟩, (fusion.applyAt swapped ⟨3⟩).2) := Prod.ext hout rfl
  obtain ⟨sum, product, s, p, v, x, y, z, F, -, -, hcard, htyped⟩ :=
    product_gone_iff hg.wellFormed multiplyAddFusion_eq_ok happlied
  have hinputs : s.inputs = [⟨0⟩, ⟨2⟩] := by
    have hroot : swapped.producerId? ⟨3⟩ = some ⟨3⟩ := by decide +kernel
    have hin : swapped.inputsOf ⟨3⟩ = [⟨0⟩, ⟨2⟩] := by decide +kernel
    obtain rfl := Option.some.inj (F.root_output.symm.trans hroot)
    rwa [inputsOf, F.sum_node] at hin
  have hne : z ≠ v := by
    rintro rfl
    have hin : [⟨0⟩, ⟨2⟩] = [z, z] := hinputs ▸ F.sum_inputs.elim id id
    simp only [List.cons.injEq] at hin
    have he : (⟨0⟩ : ValueId) = ⟨2⟩ := hin.1.trans hin.2.1.symm
    cases he
  have hgone := (htyped (hg.typed F.sum_node) (hg.typed F.product_node)).2 (Or.inl hne)
  exact ⟨hg.wellFormed, multiplyAddFusion_eq_ok, _, sum, product, s, p, v, x, y, z, happlied, F, hgone,
    hcard.2 (Or.inl hgone)⟩

/-- A product is added to itself. -/
def doubled : Graph :=
  [Edit.addParameter none ⟨.f32, .ofSizes [3]⟩, .addParameter none ⟨.f32, .ofSizes [3]⟩,
    .addValue none (.binary .multiply .numpy) [⟨0⟩, ⟨1⟩], .addValue none (.binary .add .numpy) [⟨2⟩, ⟨2⟩],
    .setResults [⟨3⟩]].foldl Edit.apply (.empty .full)

/-- **The fused node may read the product**, which then is left: there were one multiplication and now are two. -/
theorem product_kept_doubled : doubled.WellFormed ∧ multiplyAddFusion = .ok fusion ∧
    (fusion.applyAt doubled ⟨3⟩).1 = .applied ⟨4⟩ ∧ doubled.inputsOf ⟨3⟩ = [⟨2⟩, ⟨2⟩] ∧
    ((fusion.applyAt doubled ⟨3⟩).2.node? ⟨2⟩).map (·.op.type) = some (.binary .multiply) ∧
    doubled.multiplications.card = 1 ∧ (fusion.applyAt doubled ⟨3⟩).2.multiplications.card = 2 :=
  ⟨wellFormed_edits _ (wellFormed_empty _), multiplyAddFusion_eq_ok, by decide +kernel, by decide +kernel,
    by decide +kernel, by decide +kernel, by decide +kernel⟩

end Rule
end TensorGraph
