import TensorGraph.Proofs.Graph.Collected
import TensorGraph.Proofs.Rewrite.Converged
import TensorGraph.Proofs.Rewrite.Frame
/-!
# Progress — what an application comes to

An application moves readers and results, or it removes the producer of a root that nobody needs.  The
last is the work of the collector: nodes that the rule has added go unless they are needed, the latest
first, and what is left of them reads nothing, so it keeps no old node in the graph.

If the root is in use or its producer is dead, the graph after an application is therefore another one,
and attempts that leave the graph as it was are not counted.  A sweep of such attempts is idle, and
the pass has converged.
-/
namespace TensorGraph

open TensorGraph.Graph

namespace Graph

/-- There is something to move or to remove: the value is a result, it is read, or its producer is dead. -/
def Replaceable (g : Graph) (v : ValueId) : Prop :=
  v ∈ g.results ∨ (∃ u, g.Reads u v) ∨ ∃ p, g.producerId? v = some p ∧ g.DeadAt p

/-- **The replacement has come to something**: a result or a reader was moved to it, or the producer of the root is gone.
The reader that was moved may be gone as well. -/
inductive Progress (g : Graph) (root new : ValueId) (h : Graph) : Prop
  | result (hroot : root ∈ g.results) (hmoved : h.results = g.results.map (swap root new))
  | reader {u : Use} (hread : g.Reads u root) (hmoved : h.Reads u new ∨ h.node? u.node = none)
  | producer {p : NodeId} (hp : g.producerId? root = some p) (hgone : h.node? p = none)

/-- **Progress shows in the edges.** -/
theorem Progress.not_sameEdges {g h : Graph} (hg : g.WellFormed) {root new : ValueId} (hne : new ≠ root)
    (hprogress : Progress g root new h) : ¬ SameEdges g h := by
  intro hsame
  cases hprogress with
  | result hroot hmoved =>
    obtain ⟨i, hi⟩ := List.mem_iff_getElem?.1 hroot
    have hmap : (g.results.map (swap root new))[i]? = some root := by rw [← hmoved, hsame.results, hi]
    rw [List.getElem?_map, hi, Option.map_some, swap_self] at hmap
    exact hne (Option.some.inj hmap)
  | @reader u hread hmoved =>
    rcases hmoved with hmoved | hgone
    · exact hne ((hsame.reads hmoved).unique hread)
    · obtain ⟨n, hn⟩ := (hsame.symm.reads hread).exists_node
      rw [hgone] at hn
      cases hn
  | producer hp hgone =>
    obtain ⟨val, hval, rfl⟩ := Option.map_eq_some_iff.1 hp
    obtain ⟨n, hn, -⟩ := hg.produced hval
    obtain ⟨m, hm, -⟩ := hsame.symm.node_of hn
    rw [hgone] at hm
    cases hm

end Graph

namespace Rule

variable {rule : Rule} {g : Graph} {rootId : ValueId}

/-! ## What is left after an application -/

namespace Spliced

variable {m : Match} {root : Value} {new : ValueId} {grown updated : Graph} {u : Use} {v : ValueId}

/-- A node that was added and reads something is no parameter. -/
theorem not_parameter_of_reads (h : rule.Spliced g rootId m root new grown updated) (hnew : g.nodeSlots ≤ u.node.index)
    (hread : grown.Reads u v) {n : Node} (hn : grown.node? u.node = some n) : n.op.type ≠ .parameter := by
  intro hop
  obtain ⟨n', hn', hin⟩ := hread
  obtain rfl : n = n' := Option.some.inj (hn.symm.trans hn')
  rw [h.grown_of.inputs_of_parameter hn hnew hop] at hin
  cases hin

section Unused

variable (h : rule.Spliced g rootId m root new grown updated) (hg : g.WellFormed)
  (hresult : rootId ∉ g.results) (hunread : ∀ u, ¬ g.Reads u rootId)

include h hg hunread in
/-- Nobody was moved. -/
theorem reads_of_updated (hread : updated.Reads u v) : grown.Reads u v := by
  rcases (h.reads_updated hg).1 hread with ⟨hgrown, -⟩ | ⟨-, hroot, hkept⟩
  · exact hgrown
  · have hold : u.node.index < g.nodeSlots := Nat.lt_of_not_le (fun hle => hkept (hroot.mem_nodesFrom_iff.2 hle))
    exact absurd ((h.reads_old hg hold).1 hroot) (hunread u)

include h hg hresult in
theorem results_eq : updated.results = g.results := by
  rw [h.results_updated hg]
  refine (List.map_congr_left (fun v hv => ?_)).trans (List.map_id _)
  exact swap_of_ne (fun he => hresult (he ▸ hv))

include h hg hresult hunread

variable {final : Graph} (hfinal : Collected updated (root.producer :: grown.nodesFrom g.nodeSlots) final)

include hfinal

/-- **Of the nodes that the rule has added only parameters are left.** -/
theorem parameter_of_new {c : NodeId} {n : Node} (hn : final.node? c = some n) (hnew : g.nodeSlots ≤ c.index) :
    n.op.type = .parameter := by
  have hgrown := h.grown_wellFormed hg
  have hatop := (h.grown_of.extends hg).atop hg hgrown
  -- the latest first, since a node that was added is read by later ones only
  induction hdist : grown.nodeSlots - c.index using Nat.strong_induction_on generalizing c n with
  | _ dist ih =>
  obtain ⟨old, hold, -, hout⟩ := h.node_updated hg (hfinal.thinned.node? hn)
  by_contra hkind
  refine hfinal.alive c (List.mem_cons_of_mem _ (Atop.mem_nodesFrom.2 ⟨hnew, by rw [hold]; rfl⟩)) ⟨n, hn, ?_⟩
  refine (isDead_iff hfinal.wellFormed hn).2 ⟨hkind, fun v hv => ?_⟩
  obtain ⟨val, hval, rfl⟩ := hgrown.output_live' hold (hout ▸ hv)
  constructor
  · intro hmem
    rw [hfinal.thinned.results, h.results_eq hg hresult] at hmem
    obtain ⟨was, hwas⟩ := Option.isSome_iff_exists.1 (hg.result_live v hmem)
    exact Nat.not_le.2 (hatop.producer_old hg hval (value?_lt hwas)) hnew
  · intro u hu
    have hread := h.reads_of_updated hg hunread (hfinal.thinned.reads hu)
    have hlater : val.producer.index < u.node.index := hatop.new_later (hread.dependsOn hval) hnew
    have hadded : g.nodeSlots ≤ u.node.index := Nat.le_trans hnew (Nat.le_of_lt hlater)
    obtain ⟨reader, hreader⟩ := hu.exists_node
    obtain ⟨before, hbefore, hop, -⟩ := h.node_updated hg (hfinal.thinned.node? hreader)
    have hlt := node?_lt hbefore
    have hparameter := ih (grown.nodeSlots - u.node.index) (by omega) hreader hadded rfl
    exact h.not_parameter_of_reads hadded hread hbefore (hop ▸ hparameter)

/-- Readers that are left were there before. -/
theorem reads_of_final (hread : final.Reads u v) : g.Reads u v := by
  have hgrown := h.reads_of_updated hg hunread (hfinal.thinned.reads hread)
  refine (h.reads_old hg (Nat.lt_of_not_le (fun hadded => ?_))).1 hgrown
  obtain ⟨reader, hreader⟩ := hread.exists_node
  obtain ⟨before, hbefore, hop, -⟩ := h.node_updated hg (hfinal.thinned.node? hreader)
  have hparameter := h.parameter_of_new hg hresult hunread hfinal hreader hadded
  exact h.not_parameter_of_reads hadded hgrown hbefore (hop ▸ hparameter)

/-- **A dead producer goes**: what is left of the added nodes reads nothing of it. -/
theorem producer_gone (hdead : g.DeadAt root.producer) : final.node? root.producer = none := by
  by_contra hstays
  obtain ⟨n, hn⟩ := Option.ne_none_iff_exists'.1 hstays
  obtain ⟨before, hbefore, hdead⟩ := hdead
  rw [isDead_iff hg hbefore] at hdead
  obtain ⟨old, hold, hop, hout⟩ := h.node_updated hg (hfinal.thinned.node? hn)
  obtain rfl : old = before := Option.some.inj (hold.symm.trans ((h.grown_of.extends hg).node?_of_node? hbefore))
  refine hfinal.alive root.producer List.mem_cons_self ⟨n, hn, ?_⟩
  refine (isDead_iff hfinal.wellFormed hn).2 ⟨hop ▸ hdead.1, fun v hv => ?_⟩
  obtain ⟨hmem, hnobody⟩ := hdead.2 v (hout ▸ hv)
  refine ⟨?_, fun u hu => hnobody u (h.reads_of_final hg hresult hunread hfinal hu)⟩
  rwa [hfinal.thinned.results, h.results_eq hg hresult]

end Unused

end Spliced

/-! ## Applications -/

/-- **An application makes progress**, if the root is in use or its producer is dead. -/
theorem progress_of_applied (hg : g.WellFormed) {new : ValueId} {final : Graph}
    (h : rule.applyAt g rootId = (.applied new, final)) (hroot : g.Replaceable rootId) : Progress g rootId new final := by
  obtain ⟨m, root, grown, updated, hs, rfl⟩ := applyAt_eq_applied_iff.1 h
  have hfinal := collected_removeDead (hs.updated_wellFormed hg) (root.producer :: grown.nodesFrom g.nodeSlots)
  by_cases hresult : rootId ∈ g.results
  · exact .result hresult (hfinal.thinned.results.trans (hs.results_updated hg))
  by_cases hread : ∃ u, g.Reads u rootId
  · obtain ⟨u, hu⟩ := hread
    exact .reader hu (hfinal.thinned.reads_or_gone (hs.reads_new_of_reads_root hg hu))
  · obtain ⟨p, hp, hdead⟩ := (hroot.resolve_left hresult).resolve_left hread
    obtain rfl := Option.some.inj (hs.producerId?_root.symm.trans hp)
    exact .producer hp (hs.producer_gone hg hresult (not_exists.1 hread) hfinal hdead)

theorem ne_of_applied {new : ValueId} {final : Graph}
    (h : rule.applyAt g rootId = (.applied new, final)) : new ≠ rootId := by
  obtain ⟨m, root, grown, updated, hs, -⟩ := applyAt_eq_applied_iff.1 h
  exact hs.ne

/-- **An attempt at a root in use is counted exactly if the graph is another one after it.** -/
theorem appliesAt_iff_not_sameEdges (hg : g.WellFormed) (hroot : g.Replaceable rootId) :
    rule.AppliesAt g rootId ↔ ¬ SameEdges g (rule.applyAt g rootId).2 := by
  constructor
  · rintro ⟨new, hnew⟩
    have h : rule.applyAt g rootId = (.applied new, (rule.applyAt g rootId).2) := Prod.ext hnew rfl
    exact (progress_of_applied hg h hroot).not_sameEdges hg (ne_of_applied h)
  · intro hchanged
    by_contra hnot
    obtain ⟨n, m, heq⟩ := applyAt_snd_of_not_appliesAt hg hnot
    exact hchanged (heq ▸ sameEdges_spend g n m)

end Rule

/-! ## Sweeps -/

namespace PassRun

/-- Every attempt is made at a root that is in use, or whose producer is dead, and leaves the graph as it was. -/
def Quiet (verify : Bool) : PassRun → List (Rule × ValueId) → Prop
  | _, [] => True
  | s, e :: log => s.graph.Replaceable e.2 ∧ SameEdges s.graph (s.applyRule verify e.1 e.2).graph ∧
      Quiet verify (s.applyRule verify e.1 e.2) log

theorem ext_of {s t : PassRun} (hgraph : s.graph = t.graph) (happlied : s.applied = t.applied)
    (hrejected : s.rejected = t.rejected) (hfailure : s.failure = t.failure) : s = t := by
  cases s
  cases t
  congr

/-- **Attempts that leave the graph as it was are not counted.** -/
theorem idle_of_quiet {verify : Bool} : ∀ {log : List (Rule × ValueId)} {s : PassRun}, s.graph.WellFormed →
    s.Quiet verify log → Idle s (s.follow verify log)
  | [], s, _, _ => .refl s
  | (rule, root) :: log, s, hs, ⟨hroot, hsame, hrest⟩ => by
    have hnot : ¬ rule.AppliesAt s.graph root := fun happlies =>
      (Rule.appliesAt_iff_not_sameEdges hs hroot).1 happlies (graph_applyRule verify s rule root ▸ hsame)
    have hfirst : Idle s (s.applyRule verify rule root) := idle_applyRule hs hnot
    exact hfirst.trans (idle_of_quiet (hfirst.wellFormed hs) hrest)

end PassRun

namespace Pass

variable {pass : Pass} {s : PassRun}

/-- **A sweep of quiet attempts counts nothing, and the pass has converged.** -/
theorem converged_of_quiet (hs : s.graph.WellFormed) (hfail : s.failure = none) {log : List (Rule × ValueId)}
    (hlog : pass.sweep s = s.follow pass.options.verifyAfterRewrite log)
    (hquiet : s.Quiet pass.options.verifyAfterRewrite log) (left made : Nat) :
    (pass.sweep s).applied = s.applied ∧
      pass.sweepUntilStable (left + 1) made s = (pass.sweep s, made + 1, .converged) := by
  have hidle : PassRun.Idle s (pass.sweep s) := hlog ▸ PassRun.idle_of_quiet hs hquiet
  refine ⟨hidle.applied, ?_⟩
  rw [sweepUntilStable, hidle.failure, hfail]
  exact if_pos hidle.applied

/-- **What is counted makes progress.**  If the root is in use, or its producer is dead, an application moves a result or
a reader to the replacement or removes the producer, so it shows in the edges of the graph; and a sweep of attempts at
such roots that all leave the edges as they were counts nothing, and the pass has converged. -/
theorem progress_of_counted {g : Graph} (hg : g.WellFormed) :
    (∀ (rule : Rule) (root new : ValueId) (final : Graph), g.Replaceable root →
      rule.applyAt g root = (.applied new, final) → Progress g root new final ∧ ¬ SameEdges g final) ∧
    (∀ (pass : Pass) (s : PassRun) (log : List (Rule × ValueId)), s.graph = g → s.failure = none →
      pass.sweep s = s.follow pass.options.verifyAfterRewrite log →
      s.Quiet pass.options.verifyAfterRewrite log → (pass.sweep s).applied = s.applied ∧
      ∀ left made, pass.sweepUntilStable (left + 1) made s = (pass.sweep s, made + 1, .converged)) := by
  refine ⟨fun rule root new final hroot happlied => ?_, fun pass s log hs hfail hlog hquiet => ?_⟩
  · have hprogress := Rule.progress_of_applied hg happlied hroot
    exact ⟨hprogress, hprogress.not_sameEdges hg (Rule.ne_of_applied happlied)⟩
  · have hconverged := converged_of_quiet (hs ▸ hg) hfail hlog hquiet
    exact ⟨(hconverged 0 0).1, fun left made => (hconverged left made).2⟩

/-! ## Halves of a vector -/

/-- A vector that is split in two, with these results. -/
def halved (results : List ValueId) : Graph :=
  [Edit.addParameter none ⟨.f32, .ofSizes [4]⟩, .addValue none (.split 0 2) [⟨0⟩], .setResults results].foldl
    Edit.apply (.empty .full)

theorem wellFormed_halved (results : List ValueId) : (halved results).WellFormed :=
  wellFormed_edits _ (wellFormed_empty _)

/-- Replace an output of a split by the first one in the graph `halved`. -/
def firstHalf : Rule := ⟨"FirstHalf", ⟨#[.op [.split] [] true], ⟨0⟩⟩, fun _ => return ⟨1⟩⟩

def shortening : Pass := ⟨"Shortening", [Rule.shorten], ⟨3, .firstMatch, true⟩⟩

/-- The attempt to shorten the negation is rejected, and the nodes that it has added are taken back. -/
theorem quiet_shortening : (PassRun.start Rule.negated).Quiet true [(Rule.shorten, ⟨2⟩)] := by
  have hg : Rule.negated.WellFormed := wellFormed_edits _ (wellFormed_empty _)
  have hout : (Rule.shorten.applyAt Rule.negated ⟨2⟩).1 = .rejected (.consumerRejected (.op (.binary .add) (some ⟨4⟩)
      (.incompatibleShapes (.ranked [.fixed 2]) (.ranked [.fixed 3])))) := by decide +kernel
  have hresult : (⟨2⟩ : ValueId) ∈ Rule.negated.results := by decide +kernel
  refine ⟨Or.inl hresult, ?_, trivial⟩
  obtain ⟨n, m, heq⟩ := Rule.applyAt_snd_of_not_applied hg (fun new hnew => by rw [hout] at hnew; cases hnew)
  rw [PassRun.graph_applyRule]
  exact heq ▸ sameEdges_spend Rule.negated n m

/-- Nobody needs the halves, and the split goes with the half that was replaced.  The sweep of the other pass makes one
attempt, which is rejected. -/
theorem progress_of_counted_halved : (halved [⟨0⟩]).WellFormed ∧ (halved [⟨0⟩]).Replaceable ⟨2⟩ ∧
    (∃ final, firstHalf.applyAt (halved [⟨0⟩]) ⟨2⟩ = (.applied ⟨1⟩, final) ∧ final.nodeIds = [⟨0⟩] ∧
      Progress (halved [⟨0⟩]) ⟨2⟩ ⟨1⟩ final ∧ ¬ SameEdges (halved [⟨0⟩]) final) ∧
    Rule.negated.WellFormed ∧ (PassRun.start Rule.negated).Quiet true [(Rule.shorten, ⟨2⟩)] ∧
    shortening.sweep (.start Rule.negated) = (PassRun.start Rule.negated).follow true [(Rule.shorten, ⟨2⟩)] ∧
    (shortening.sweep (.start Rule.negated)).applied = 0 ∧
    shortening.sweepUntilStable 3 0 (.start Rule.negated) = (shortening.sweep (.start Rule.negated), 1, .converged) := by
  have hg : Rule.negated.WellFormed := wellFormed_edits _ (wellFormed_empty _)
  have hdead : (halved [⟨0⟩]).DeadAt ⟨1⟩ := Option.map_eq_some_iff.1 (by decide +kernel)
  have hroot : (halved [⟨0⟩]).Replaceable ⟨2⟩ := Or.inr (Or.inr ⟨⟨1⟩, by decide +kernel, hdead⟩)
  have hout : (firstHalf.applyAt (halved [⟨0⟩]) ⟨2⟩).1 = .applied ⟨1⟩ := by decide +kernel
  have happlied : firstHalf.applyAt (halved [⟨0⟩]) ⟨2⟩ = (.applied ⟨1⟩, (firstHalf.applyAt (halved [⟨0⟩]) ⟨2⟩).2) :=
    Prod.ext hout rfl
  obtain ⟨hprogress, hchanged⟩ :=
    (progress_of_counted (wellFormed_halved [⟨0⟩])).1 firstHalf ⟨2⟩ ⟨1⟩ _ hroot happlied
  have hlog : shortening.sweep (.start Rule.negated) = (PassRun.start Rule.negated).follow true [(Rule.shorten, ⟨2⟩)] :=
    PassRun.ext_of (by decide +kernel) (by decide +kernel) (by decide +kernel) (by decide +kernel)
  obtain ⟨hcount, hconverged⟩ := (progress_of_counted hg).2 shortening _ _ rfl rfl hlog quiet_shortening
  exact ⟨wellFormed_halved _, hroot, ⟨_, happlied, by decide +kernel, hprogress, hchanged⟩, hg, quiet_shortening, hlog,
    hcount, hconverged 2 0⟩

/-- Both halves of a vector, of which the second is rectified, and a vector of the size of a half. -/
def crossed : Graph :=
  [Edit.addParameter none ⟨.f32, .ofSizes [2]⟩, .addParameter none ⟨.f32, .ofSizes [4]⟩,
    .addValue none (.split 0 2) [⟨1⟩], .addValue none (.unary .relu) [⟨3⟩], .setResults [⟨0⟩, ⟨4⟩]].foldl
    Edit.apply (.empty .full)

/-- Replace a result that comes from such an operation by this value. -/
def exchange (type : OpType) (v : ValueId) : Rule :=
  ⟨"Exchange", ⟨#[.op [type] [] true, .guard ⟨0⟩ ⟨"is_result", Graph.isResult⟩], ⟨1⟩⟩, fun _ => return v⟩

def halving : Pass := ⟨"Halving", [firstHalf], ⟨3, .firstMatch, true⟩⟩

def exchanging : Pass := ⟨"Exchanging", [exchange .parameter ⟨2⟩, exchange .split ⟨0⟩], ⟨3, .firstMatch, true⟩⟩

/-- **An output of no use can be replaced without a trace** while its producer is kept for another output, and a sweep
can undo what it has done.  Both are counted, and neither pass converges. -/
theorem counted_without_progress : (halved [⟨1⟩]).WellFormed ∧
    firstHalf.applyAt (halved [⟨1⟩]) ⟨2⟩ = (.applied ⟨1⟩, halved [⟨1⟩]) ∧
    (halving.run (halved [⟨1⟩])).1 = ⟨3, 3, [], .iterationCapExceeded⟩ ∧
    (halving.run (halved [⟨1⟩])).2 = halved [⟨1⟩] ∧
    crossed.WellFormed ∧ (exchanging.sweep (.start crossed)).graph = crossed ∧
    (exchanging.sweep (.start crossed)).applied = 2 ∧
    (exchanging.run crossed).1 = ⟨6, 3, [], .iterationCapExceeded⟩ := by
  exact ⟨wellFormed_halved _, Prod.ext (by decide +kernel) (by decide +kernel), by decide +kernel, by decide +kernel,
    wellFormed_edits _ (wellFormed_empty _), by decide +kernel, by decide +kernel, by decide +kernel⟩

end Pass
end TensorGraph
