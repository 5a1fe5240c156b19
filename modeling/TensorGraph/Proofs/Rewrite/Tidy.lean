import TensorGraph.Proofs.Rewrite.Frame
/-!
# Tidy — applications leave no dead nodes behind

A redirection takes readers from the root only, so of the old nodes none but the producer of the root
can die of it.  That node and those that were added are the candidates of the collector, which leaves
no dead candidate and nothing that has died on the way.
-/
namespace TensorGraph

open TensorGraph.Graph

namespace Graph

/-- **Every node but the parameters is of use**: one of its outputs is a result or is read. -/
def AllUsed (g : Graph) : Prop :=
  ∀ id n, g.node? id = some n → n.op.type ≠ .parameter → ∃ v ∈ n.outputs, g.InUse v

theorem allUsed_iff {g : Graph} (hg : g.WellFormed) : g.AllUsed ↔ ∀ id, ¬ g.DeadAt id := by
  constructor
  · rintro h id ⟨n, hn, hdead⟩
    obtain ⟨hkind, hout⟩ := (isDead_iff hg hn).1 hdead
    obtain ⟨v, hv, hresult | ⟨u, hread⟩⟩ := h id n hn hkind
    · exact (hout v hv).1 hresult
    · exact (hout v hv).2 u hread
  · intro h id n hn hkind
    by_contra hnone
    refine h id ⟨n, hn, (isDead_iff hg hn).2 ⟨hkind, fun v hv => ⟨fun hresult => ?_, fun u hread => ?_⟩⟩⟩
    · exact hnone ⟨v, hv, Or.inl hresult⟩
    · exact hnone ⟨v, hv, Or.inr ⟨u, hread⟩⟩

theorem allUsed_of_nodes {g : Graph} (hg : g.WellFormed)
    (h : ∀ id ∈ g.nodeIds, (g.node? id).map g.isDead = some false) : g.AllUsed := by
  refine (allUsed_iff hg).2 ?_
  rintro id ⟨n, hn, hdead⟩
  have halive := h id (mem_nodeIds.2 (by rw [hn]; rfl))
  rw [hn, Option.map_some, hdead] at halive
  cases halive

end Graph

namespace Rule

variable {rule : Rule} {g : Graph} {rootId : ValueId}

/-- **Of the old nodes only the producer of the root can die.** -/
theorem Spliced.deadAt_of_updated {m : Match} {root : Value} {new : ValueId} {grown updated : Graph}
    (h : rule.Spliced g rootId m root new grown updated) (hg : g.WellFormed) {a : NodeId} (ha : updated.DeadAt a) :
    a ∈ root.producer :: grown.nodesFrom g.nodeSlots ∨ g.DeadAt a := by
  obtain ⟨n, hn, hdead⟩ := ha
  obtain ⟨hkind, hout⟩ := (isDead_iff (h.updated_wellFormed hg) hn).1 hdead
  obtain ⟨old, hgrown, hop, houtputs⟩ := h.node_updated hg hn
  by_cases hold : g.nodeSlots ≤ a.index
  · exact Or.inl (List.mem_cons_of_mem _ (Atop.mem_nodesFrom.2 ⟨hold, by rw [hgrown]; rfl⟩))
  rw [(h.grown_of.extends hg).node?_old (Nat.lt_of_not_le hold)] at hgrown
  by_cases hroot : rootId ∈ old.outputs
  · rw [(hg.mem_outputs_iff hgrown h.root_live).1 hroot]
    exact Or.inl List.mem_cons_self
  refine Or.inr ⟨old, hgrown, (isDead_iff hg hgrown).2 ⟨hop ▸ hkind, fun v hv => ?_⟩⟩
  have hne : v ≠ rootId := fun he => hroot (he ▸ hv)
  obtain ⟨hresult, hunread⟩ := hout v (houtputs ▸ hv)
  refine ⟨fun hmem => hresult ?_, fun u hread => hunread u ?_⟩
  · rw [h.results_updated hg]
    exact List.mem_map.2 ⟨v, hmem, swap_of_ne hne⟩
  · have hread := (h.reads_old hg hread.lt_nodeSlots).2 hread
    exact (h.reads_updated hg).2 (Or.inl ⟨hread, fun he => absurd he hne⟩)

theorem allUsed_of_applied (hg : g.WellFormed) (hused : g.AllUsed) {new : ValueId} {final : Graph}
    (h : rule.applyAt g rootId = (.applied new, final)) : final.AllUsed := by
  obtain ⟨m, root, grown, updated, hs, rfl⟩ := applyAt_eq_applied_iff.1 h
  have hupdated := hs.updated_wellFormed hg
  refine (allUsed_iff (wellFormed_removeDead hupdated _)).2 (fun id hdead => ?_)
  obtain ⟨hbefore, hcandidate⟩ := deadAt_of_removeDead hupdated hdead
  rcases hs.deadAt_of_updated hg hbefore with hmem | hold
  · exact hcandidate hmem
  · exact (allUsed_iff hg).1 hused id hold

/-- **The collector computes the cascade.**  What it removes is the least set that is closed under it, each node is
returned once, and the graph is as before without those nodes; the order of the candidates has no influence.  So if
every node was of use before a rule was applied, every node is afterwards. -/
theorem cascade_exact (hg : g.WellFormed) :
    (∀ candidates, IsLeast {D | g.CascadeClosed candidates D} {id | id ∈ (g.removeDead candidates).2} ∧
      (g.removeDead candidates).2.Nodup ∧ Without g (g.removeDead candidates).2 (g.removeDead candidates).1 ∧
      ∀ candidates', (∀ id, id ∈ candidates' ↔ id ∈ candidates) →
        (g.removeDead candidates').1 = (g.removeDead candidates).1 ∧
          (g.removeDead candidates').2.Perm (g.removeDead candidates).2) ∧
    (g.AllUsed → ∀ (rule : Rule) (rootId new : ValueId) (final : Graph),
      rule.applyAt g rootId = (.applied new, final) → final.AllUsed) :=
  ⟨fun candidates => ⟨isLeast_removeDead hg candidates, nodup_removeDead hg candidates,
      without_removeDead hg candidates, fun _ hmem => removeDead_congr hg hmem⟩,
    fun hused _ _ _ _ h => allUsed_of_applied hg hused h⟩

/-- The halves of a vector are added to themselves and to each other, and nobody reads the sum. -/
def summed : Graph :=
  [Edit.addParameter none ⟨.f32, .ofSizes [4]⟩, .addValue none (.split 0 2) [⟨0⟩],
    .addValue none (.binary .add .numpy) [⟨1⟩, ⟨1⟩], .addValue none (.binary .add .numpy) [⟨3⟩, ⟨2⟩],
    .addValue none (.unary .abs) [⟨2⟩], .addValue none (.unary .abs) [⟨0⟩],
    .setResults [⟨0⟩]].foldl Edit.apply (.empty .full)

/-- The split goes when both its readers have gone, which depends on the candidates but not on their order; the absolute
value of the vector is no candidate. -/
theorem cascade_exact_summed : summed.WellFormed ∧ (summed.removeDead [⟨3⟩, ⟨1⟩, ⟨3⟩, ⟨4⟩]).1.nodeIds = [⟨0⟩, ⟨5⟩] ∧
    (summed.removeDead [⟨4⟩, ⟨3⟩, ⟨1⟩]).2.Perm (summed.removeDead [⟨3⟩, ⟨1⟩, ⟨3⟩, ⟨4⟩]).2 ∧
    (summed.removeDead [⟨4⟩, ⟨3⟩, ⟨1⟩]).1 = (summed.removeDead [⟨3⟩, ⟨1⟩, ⟨3⟩, ⟨4⟩]).1 ∧
    IsLeast {D | summed.CascadeClosed [⟨3⟩, ⟨1⟩] D} {⟨3⟩, ⟨2⟩} ∧ activations.WellFormed ∧ activations.AllUsed ∧
    ∃ final, offset.applyAt activations ⟨2⟩ = (.applied ⟨5⟩, final) ∧ final.AllUsed := by
  have hg : summed.WellFormed := wellFormed_edits _ (wellFormed_empty _)
  have hactivations : activations.WellFormed := wellFormed_edits _ (wellFormed_empty _)
  have hused : activations.AllUsed := allUsed_of_nodes hactivations (by decide +kernel)
  have hout : (offset.applyAt activations ⟨2⟩).1 = .applied ⟨5⟩ := by decide +kernel
  obtain ⟨hleast, -⟩ := (cascade_exact hg).1 [⟨3⟩, ⟨1⟩]
  have hremoved : (summed.removeDead [⟨3⟩, ⟨1⟩]).2 = [⟨3⟩, ⟨2⟩] := by decide +kernel
  have hset : {id : NodeId | id ∈ (summed.removeDead [⟨3⟩, ⟨1⟩]).2} = {⟨3⟩, ⟨2⟩} := by
    ext id
    simp [hremoved]
  obtain ⟨-, -, -, hsame⟩ := (cascade_exact hg).1 [⟨3⟩, ⟨1⟩, ⟨3⟩, ⟨4⟩]
  obtain ⟨hgraph, hperm⟩ := hsame [⟨4⟩, ⟨3⟩, ⟨1⟩] (fun id => by
    simp only [List.mem_cons, List.not_mem_nil]
    tauto)
  exact ⟨hg, by decide +kernel, hperm, hgraph, hset ▸ hleast, hactivations, hused, _, Prod.ext hout rfl,
    (cascade_exact hactivations).2 hused offset ⟨2⟩ ⟨5⟩ _ (Prod.ext hout rfl)⟩

end Rule
end TensorGraph
