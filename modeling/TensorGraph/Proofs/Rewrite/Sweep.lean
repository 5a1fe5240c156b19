import TensorGraph.Proofs.Pattern.Adequate
import TensorGraph.Proofs.Rewrite.Converged
/-!
# Sweep — passes of a single rule

In either mode a sweep of a pass of one rule goes through a list of values, which has every value that the
rule matches at the start, and tries the rule at each of them or passes over a value that it does not match.
So what one attempt keeps a sweep keeps.  If an attempt leaves the rule nothing to do at its value and
nothing new elsewhere, there is nothing left after one sweep, and the next one finds that out.  If there is
a bound on how often the rule can be applied, sweeps come to an end, and the last one has looked at every
value that is matched in the graph that it leaves.
-/
namespace TensorGraph

open TensorGraph.Graph

theorem Pattern.live_of_matchValue? {p : Pattern} {g : Graph} {v : ValueId} (h : (p.matchValue? g v).isSome = true) :
    (g.value? v).isSome = true := by
  obtain ⟨m, hm⟩ := Option.isSome_iff_exists.1 h
  obtain ⟨-, -, -, labels, nodes, hderives, -⟩ := derives_of_matchValue? hm
  exact hderives.live

theorem Rule.AppliesAt.matched {rule : Rule} {g : Graph} {v : ValueId} (h : rule.AppliesAt g v) :
    (rule.pattern.matchValue? g v).isSome = true := by
  obtain ⟨new, hnew⟩ := h
  unfold Rule.applyAt at hnew
  cases hm : rule.pattern.matchValue? g v with
  | some m => rfl
  | none =>
    rw [hm] at hnew
    cases hnew

namespace PassRun

variable {verify : Bool} {rule : Rule} {s t : PassRun} {v w : ValueId} {vs : List ValueId} {start : Graph}

/-! ## Rejections are kept -/

theorem subset_rejected_reject (s : PassRun) (entry : RejectionEntry) : s.rejected ⊆ (s.reject entry).rejected := by
  unfold reject
  split
  · exact fun _ h => h
  · exact List.subset_append_left _ _

/-- There is an entry for the rule and the root after a rejection, if not this one then an earlier one. -/
theorem exists_mem_rejected_reject (s : PassRun) (entry : RejectionEntry) :
    ∃ e ∈ (s.reject entry).rejected, e.rule = entry.rule ∧ e.root = entry.root := by
  unfold reject
  split
  · rename_i h
    obtain ⟨e, he, hsame⟩ := List.any_eq_true.1 h
    simp only [Bool.and_eq_true, decide_eq_true_eq] at hsame
    exact ⟨e, he, hsame⟩
  · exact ⟨entry, by simp, rfl, rfl⟩

theorem mem_rejected_reject {entry e : RejectionEntry} (h : e ∈ (s.reject entry).rejected) :
    e ∈ s.rejected ∨ e = entry := by
  unfold reject at h
  split at h
  · exact Or.inl h
  · rcases List.mem_append.1 h with h | h
    · exact Or.inl h
    · exact Or.inr (List.mem_singleton.1 h)

theorem subset_rejected_applyRule (verify : Bool) (s : PassRun) (rule : Rule) (v : ValueId) :
    s.rejected ⊆ (s.applyRule verify rule v).rejected := by
  unfold applyRule
  split
  · exact fun _ h => h
  · exact fun _ h => h
  · rename_i reason g hout
    exact subset_rejected_reject { s with graph := g } _

theorem mem_rejected_applyRule {e : RejectionEntry} (h : e ∈ (s.applyRule verify rule v).rejected) :
    e ∈ s.rejected ∨ ∃ reason, (rule.applyAt s.graph v).1 = .rejected reason ∧ e = ⟨rule.name, v, reason⟩ := by
  unfold applyRule at h
  split at h
  · exact Or.inl h
  · exact Or.inl h
  · rename_i reason g hout
    rcases mem_rejected_reject h with h | rfl
    · exact Or.inl h
    · exact Or.inr ⟨reason, by rw [hout], rfl⟩

theorem exists_mem_rejected_applyRule {reason : Rejection} (h : (rule.applyAt s.graph v).1 = .rejected reason) :
    ∃ e ∈ (s.applyRule verify rule v).rejected, e.rule = rule.name ∧ e.root = v := by
  unfold applyRule
  split
  · rename_i hout
    rw [hout] at h
    cases h
  · rename_i hout
    rw [hout] at h
    cases h
  · exact exists_mem_rejected_reject { s with graph := _ } ⟨rule.name, v, _⟩

theorem failure_applyRule_of_wellFormed (hs : s.graph.WellFormed) (hfail : s.failure = none) :
    (s.applyRule verify rule v).failure = none :=
  failure_applyRule hfail (verify_eq_ok (Rule.wellFormed_applyAt hs))

/-! ## Attempts, one after the other -/

/-- **The rule is tried at some values in turn**, which it matches now or has matched at the start, and the others are
passed over. -/
inductive Tries (verify : Bool) (rule : Rule) (start : Graph) : List ValueId → PassRun → PassRun → Prop
  | done (s : PassRun) : Tries verify rule start [] s s
  | attempt {v : ValueId} {vs : List ValueId} {s t : PassRun} :
      (rule.pattern.matchValue? s.graph v).isSome = true ∨ (rule.pattern.matchValue? start v).isSome = true →
      Tries verify rule start vs (s.applyRule verify rule v) t → Tries verify rule start (v :: vs) s t
  | passOver {v : ValueId} {vs : List ValueId} {s t : PassRun} : rule.pattern.matchValue? s.graph v = none →
      Tries verify rule start vs s t → Tries verify rule start (v :: vs) s t

namespace Tries

/-- **What every attempt keeps is kept.** -/
theorem induct {P : PassRun → Prop}
    (step : ∀ (s : PassRun) (v : ValueId), (rule.pattern.matchValue? s.graph v).isSome = true ∨
      (rule.pattern.matchValue? start v).isSome = true → P s → P (s.applyRule verify rule v))
    (h : Tries verify rule start vs s t) (hs : P s) : P t := by
  induction h with
  | done s => exact hs
  | attempt hmatch _ ih => exact ih (step _ _ hmatch hs)
  | passOver _ _ ih => exact ih hs

theorem subset_rejected (h : Tries verify rule start vs s t) : s.rejected ⊆ t.rejected :=
  h.induct (P := fun u => s.rejected ⊆ u.rejected)
    (fun u v _ hu => List.Subset.trans hu (subset_rejected_applyRule verify u rule v)) (fun _ h => h)

theorem applied_le (h : Tries verify rule start vs s t) (hs : s.graph.WellFormed) : s.applied ≤ t.applied := by
  refine (h.induct (P := fun u => u.graph.WellFormed ∧ s.applied ≤ u.applied) (fun u v _ hu => ⟨?_, ?_⟩)
    ⟨hs, Nat.le_refl _⟩).2
  · rw [graph_applyRule]
    exact Rule.wellFormed_applyAt hu.1
  · refine Nat.le_trans hu.2 ?_
    by_cases happlies : rule.AppliesAt u.graph v
    · rw [applied_applyRule happlies]
      exact Nat.le_succ _
    · exact Nat.le_of_eq (idle_applyRule hu.1 happlies).applied.symm

/-- After the attempt the rule is not applied at the value, and nowhere where it was not applied before. -/
def Clears (rule : Rule) (g : Graph) (v : ValueId) (h : Graph) : Prop :=
  ∀ w, rule.AppliesAt h w → rule.AppliesAt g w ∧ w ≠ v

/-- **If every attempt clears its value, all values that were tried are cleared.** -/
theorem clears {P : PassRun → Prop} (step : ∀ (s : PassRun) (v : ValueId), P s → P (s.applyRule verify rule v))
    (hclears : ∀ (s : PassRun) (v : ValueId), P s → Clears rule s.graph v (s.applyRule verify rule v).graph)
    (h : Tries verify rule start vs s t) (hs : P s) (hw : rule.AppliesAt t.graph w) :
    rule.AppliesAt s.graph w ∧ w ∉ vs := by
  induction h with
  | done s => exact ⟨hw, List.not_mem_nil⟩
  | attempt _ _ ih =>
    obtain ⟨hbefore, hrest⟩ := ih (step _ _ hs) hw
    obtain ⟨hbefore, hne⟩ := hclears _ _ hs w hbefore
    exact ⟨hbefore, List.not_mem_cons_of_ne_of_not_mem hne hrest⟩
  | passOver hnone _ ih =>
    obtain ⟨hbefore, hrest⟩ := ih hs hw
    refine ⟨hbefore, List.not_mem_cons_of_ne_of_not_mem ?_ hrest⟩
    rintro rfl
    have hmatched := hbefore.matched
    rw [hnone] at hmatched
    cases hmatched

/-- **Where there is nothing to apply, each value was looked at in the graph that there was**, but for spent slots, and
what came of that is listed. -/
theorem looked_at (hspend : ∀ {g : Graph}, g.WellFormed → ∀ n m v, rule.AppliesAt (g.spend n m) v ↔ rule.AppliesAt g v)
    (h : Tries verify rule start vs s t) (hs : s.graph.WellFormed) (hdone : ∀ v, ¬ rule.AppliesAt s.graph v)
    (hv : v ∈ vs) : ∃ u, Idle s u ∧ (rule.pattern.matchValue? u.graph v = none ∨
      (u.applyRule verify rule v).rejected ⊆ t.rejected) := by
  induction h with
  | done s => cases hv
  | @attempt v' vs s t _ hrest ih =>
    rcases List.mem_cons.1 hv with rfl | hv
    · exact ⟨s, .refl s, Or.inr hrest.subset_rejected⟩
    · have hidle : Idle s (s.applyRule verify rule v') := idle_applyRule hs (hdone v')
      obtain ⟨n, m, hgraph⟩ := hidle.graph
      obtain ⟨u, hu, hseen⟩ := ih (hidle.wellFormed hs) (fun w hw => hdone w ((hspend hs n m w).1 (hgraph ▸ hw))) hv
      exact ⟨u, hidle.trans hu, hseen⟩
  | @passOver v' vs s t hnone _ ih =>
    rcases List.mem_cons.1 hv with rfl | hv
    · exact ⟨s, .refl s, Or.inl hnone⟩
    · exact ih hs hdone hv

end Tries

theorem tries_forEach {α : Type} {step : PassRun → α → PassRun} (target : α → ValueId) : ∀ (as : List α) {s : PassRun},
    (∀ a ∈ as, ∀ s, (step s a = s.applyRule verify rule (target a) ∧
      ((rule.pattern.matchValue? s.graph (target a)).isSome = true ∨
        (rule.pattern.matchValue? start (target a)).isSome = true)) ∨
      (step s a = s ∧ rule.pattern.matchValue? s.graph (target a) = none)) →
    s.graph.WellFormed → s.failure = none → Tries verify rule start (as.map target) s (forEach step as s)
  | [], s, _, _, _ => .done s
  | a :: as, s, hstep, hs, hfail => by
    have hrest := fun b hb => hstep b (List.mem_cons_of_mem a hb)
    rw [forEach, hfail, if_neg (by simp), List.map_cons]
    rcases hstep a List.mem_cons_self s with ⟨heq, hmatch⟩ | ⟨heq, hnone⟩
    · rw [heq]
      refine .attempt hmatch (tries_forEach target as hrest ?_ (failure_applyRule_of_wellFormed hs hfail))
      rw [graph_applyRule]
      exact Rule.wellFormed_applyAt hs
    · rw [heq]
      exact .passOver hnone (tries_forEach target as hrest hs hfail)

end PassRun

namespace Pass

open PassRun (Tries)

variable {pass : Pass} {rule : Rule} {g : Graph} {s : PassRun} {v : ValueId} (hrules : pass.rules = [rule])

include hrules

/-! ## Sweeps -/

theorem ruleAt?_eq_some_iff {r : Rule} :
    pass.ruleAt? g v = some r ↔ r = rule ∧ (rule.pattern.matchValue? g v).isSome = true := by
  unfold ruleAt?
  rw [hrules, List.find?_singleton]
  by_cases hm : (rule.pattern.matchValue? g v).isSome = true
  · simp [hm, eq_comm]
  · simp [hm]

theorem rewritesAt_iff : pass.RewritesAt g v ↔ rule.AppliesAt g v := by
  unfold RewritesAt
  constructor
  · rintro ⟨r, hr, happlies⟩
    rwa [((ruleAt?_eq_some_iff hrules).1 hr).1] at happlies
  · exact fun h => ⟨rule, (ruleAt?_eq_some_iff hrules).2 ⟨rfl, h.matched⟩, h⟩

/-- A visit tries the rule, or passes over a value that it does not match. -/
theorem visit_cases (s : PassRun) (v : ValueId) :
    (pass.visit s v = s.applyRule pass.options.verifyAfterRewrite rule v ∧
      (rule.pattern.matchValue? s.graph v).isSome = true) ∨
    (pass.visit s v = s ∧ rule.pattern.matchValue? s.graph v = none) := by
  unfold visit
  cases hm : rule.pattern.matchValue? s.graph v with
  | none =>
    have hnone : pass.ruleAt? s.graph v = none := Option.eq_none_iff_forall_ne_some.2 (fun r hr => by
      have hmatched := ((ruleAt?_eq_some_iff hrules).1 hr).2
      rw [hm] at hmatched
      cases hmatched)
    refine Or.inr ⟨?_, rfl⟩
    rw [hnone]
    split <;> rfl
  | some m =>
    have hmatched : (rule.pattern.matchValue? s.graph v).isSome = true := by rw [hm]; rfl
    refine Or.inl ⟨?_, rfl⟩
    rw [(ruleAt?_eq_some_iff hrules).2 ⟨rfl, hmatched⟩,
      if_neg (by simp [Option.isSome_iff_ne_none.1 (Pattern.live_of_matchValue? hmatched)])]

/-- **A sweep tries the rule at every value that it matches at the start.** -/
theorem tries_sweep (hs : s.graph.WellFormed) (hfail : s.failure = none) : ∃ vs,
    Tries pass.options.verifyAfterRewrite rule s.graph vs s (pass.sweep s) ∧
      ∀ v, (rule.pattern.matchValue? s.graph v).isSome = true → v ∈ vs := by
  unfold sweep
  split
  · refine ⟨_, PassRun.tries_forEach id _ (fun v _ u => ?_) hs hfail, fun v hv => ?_⟩
    · exact (visit_cases hrules u v).imp_left (And.imp_right Or.inl)
    · obtain ⟨val, hval⟩ := Option.isSome_iff_exists.1 (Pattern.live_of_matchValue? hv)
      rw [List.map_id]
      exact List.mem_map.2 ⟨v.index, List.mem_range.2 (value?_lt hval), rfl⟩
  · refine ⟨_, PassRun.tries_forEach Prod.snd _ (fun e he u => ?_) hs hfail, fun v hv => ?_⟩
    · obtain ⟨r, v⟩ := e
      obtain ⟨rfl, hmatched⟩ := (ruleAt?_eq_some_iff hrules).1 (mem_matchesOf.1 he).2
      exact Or.inl ⟨rfl, Or.inr hmatched⟩
    · exact List.mem_map.2 ⟨(rule, v), mem_matchesOf.2
        ⟨Pattern.live_of_matchValue? hv, (ruleAt?_eq_some_iff hrules).2 ⟨rfl, hv⟩⟩, rfl⟩

/-- **A sweep that applied nothing has tried the rule wherever it matches what is left**, in a graph that differs from
that one by spent slots only, and what came of that is listed. -/
theorem tried_of_idle_sweep (hpass : pass.SlotBlind) (hs : s.graph.WellFormed) (hfail : s.failure = none)
    (hidle : (pass.sweep s).applied = s.applied) (hm : (rule.pattern.matchValue? (pass.sweep s).graph v).isSome = true) :
    ∃ u, PassRun.Idle s u ∧ ¬ rule.AppliesAt u.graph v ∧
      (u.applyRule pass.options.verifyAfterRewrite rule v).rejected ⊆ (pass.sweep s).rejected := by
  have hmem : rule ∈ pass.rules := hrules ▸ List.mem_singleton_self rule
  have hdone := exhausted_of_sweep hpass hs hfail hidle
  have hnone : ∀ w, ¬ rule.AppliesAt s.graph w := fun w hw => hdone w ((rewritesAt_iff hrules).2 hw)
  have hspend : ∀ n m, rule.pattern.matchValue? (s.graph.spend n m) v = rule.pattern.matchValue? s.graph v := by
    obtain ⟨b, first, hbuilt⟩ := hpass.built rule hmem
    exact fun n m => Rule.matchValue?_spend hbuilt (hpass.blind rule hmem) hs n m v
  obtain ⟨n, m, hfinal⟩ := (idle_sweep hpass hs hdone).graph
  rw [hfinal, hspend] at hm
  obtain ⟨vs, htries, hall⟩ := tries_sweep hrules hs hfail
  obtain ⟨u, hu, hseen⟩ := htries.looked_at (fun hg => appliesAt_spend hpass hg hmem) hs hnone (hall v hm)
  obtain ⟨n', m', hgraph⟩ := hu.graph
  refine ⟨u, hu, ?_, hseen.resolve_left (fun hnomatch => ?_)⟩
  · rw [hgraph, appliesAt_spend hpass hs hmem]
    exact hnone v
  · rw [hgraph, hspend] at hnomatch
    rw [hnomatch] at hm
    cases hm

/-! ## Runs -/

section Clears

variable {P : PassRun → Prop} (hP : ∀ s, P s → s.graph.WellFormed ∧ s.failure = none)
  (step : ∀ (s : PassRun) (v : ValueId), P s → P (s.applyRule pass.options.verifyAfterRewrite rule v))
  (hclears : ∀ (s : PassRun) (v : ValueId), P s →
    Tries.Clears rule s.graph v (s.applyRule pass.options.verifyAfterRewrite rule v).graph)

include hP step hclears

/-- One sweep is enough. -/
theorem exhausted_sweep (hs : P s) : P (pass.sweep s) ∧ pass.Exhausted (pass.sweep s).graph := by
  obtain ⟨vs, htries, hall⟩ := tries_sweep hrules (hP s hs).1 (hP s hs).2
  refine ⟨htries.induct (fun u v _ hu => step u v hu) hs, fun v hv => ?_⟩
  obtain ⟨hbefore, hnot⟩ := htries.clears step hclears hs ((rewritesAt_iff hrules).1 hv)
  exact hnot (hall v hbefore.matched)

/-- **If every attempt clears its value, the second sweep finds nothing to do.** -/
theorem run_of_clears (hpass : pass.SlotBlind) (hcap : 2 ≤ pass.options.maxIterations) (hstart : P (.start g)) :
    (pass.run g).1.status = .converged ∧ (pass.run g).1.iterations ≤ 2 ∧
      (∃ s, P s ∧ (pass.run g).2 = s.graph) ∧ pass.Exhausted (pass.run g).2 := by
  obtain ⟨left, hleft⟩ : ∃ left, pass.options.maxIterations = left + 2 := ⟨_, (Nat.sub_add_cancel hcap).symm⟩
  obtain ⟨hfirst, hdone⟩ := exhausted_sweep hrules hP step hclears hstart
  obtain ⟨hsecond, hdone'⟩ := exhausted_sweep hrules hP step hclears hfirst
  have hidle := idle_sweep hpass (hP _ hfirst).1 hdone
  unfold run
  rw [hleft, sweepUntilStable]
  simp only [(hP _ hfirst).2]
  split
  · exact ⟨rfl, by simp, ⟨_, hfirst, rfl⟩, hdone⟩
  · rw [sweepUntilStable]
    simp only [(hP _ hsecond).2]
    rw [if_pos hidle.applied]
    exact ⟨rfl, by simp, ⟨_, hsecond, rfl⟩, hdone'⟩

end Clears

end Pass

namespace Pass

variable {pass : Pass} {P : PassRun → Prop} (hsweep : ∀ s, P s → P (pass.sweep s) ∧ (pass.sweep s).failure = none)

include hsweep

/-- **Sweeps of which only so much can be applied come to an end.** -/
theorem converged_of_bounded {bound : Nat} (hbound : ∀ s, P s → s.applied ≤ bound)
    (hmono : ∀ s, P s → s.applied ≤ (pass.sweep s).applied) : ∀ {left made : Nat} {s : PassRun}, P s →
      bound < left + s.applied → (pass.sweepUntilStable left made s).2.2 = .converged
  | 0, _, s, hs, h => absurd (hbound s hs) (by omega)
  | left + 1, made, s, hs, h => by
    rw [sweepUntilStable]
    simp only [(hsweep s hs).2]
    split
    · rfl
    · rename_i hcounted
      have hgrown := hmono s hs
      exact converged_of_bounded hbound hmono (hsweep s hs).1 (by omega)

/-- A run that has converged ends with a sweep that applied nothing. -/
theorem exists_last_sweep : ∀ {left made : Nat} {s : PassRun}, P s →
    (pass.sweepUntilStable left made s).2.2 = .converged →
      ∃ t, P t ∧ (pass.sweep t).applied = t.applied ∧ (pass.sweepUntilStable left made s).1 = pass.sweep t
  | 0, _, _, _, h => by cases h
  | left + 1, made, s, hs, h => by
    rw [sweepUntilStable] at h ⊢
    simp only [(hsweep s hs).2] at h ⊢
    split at h
    · rename_i hidle
      rw [if_pos hidle]
      exact ⟨s, hs, hidle, rfl⟩
    · rename_i hidle
      rw [if_neg hidle]
      exact exists_last_sweep (hsweep s hs).1 h

end Pass
end TensorGraph
