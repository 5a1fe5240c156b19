import TensorGraph.Rewrite.Pass
import TensorGraph.Proofs.Rewrite.Apply
/-!
# Runs — a pass is a sequence of applications

Whatever the sweep mode and the number of sweeps, a run of a pass applies rules of the pass at
values, one after the other, and does nothing else.  `run_eq_follow` gives the log of them, so
what one application keeps is kept up to every point of a run.
-/
namespace TensorGraph

namespace PassRun

/-- Apply rules at values, in the order of a log. -/
def follow (verify : Bool) (s : PassRun) (log : List (Rule × ValueId)) : PassRun :=
  log.foldl (fun s e => s.applyRule verify e.1 e.2) s

theorem graph_reject (s : PassRun) (entry : RejectionEntry) : (s.reject entry).graph = s.graph := by
  unfold reject
  split
  · rfl
  · rfl

theorem failure_reject (s : PassRun) (entry : RejectionEntry) : (s.reject entry).failure = s.failure := by
  unfold reject
  split
  · rfl
  · rfl

theorem applied_reject (s : PassRun) (entry : RejectionEntry) : (s.reject entry).applied = s.applied := by
  unfold reject
  split
  · rfl
  · rfl

theorem graph_applyRule (verify : Bool) (s : PassRun) (rule : Rule) (root : ValueId) :
    (s.applyRule verify rule root).graph = (rule.applyAt s.graph root).2 := by
  unfold applyRule
  split
  · rename_i h
    rw [h]
  · rename_i h
    rw [h]
  · rename_i h
    rw [h, graph_reject]

theorem failure_applyRule {verify : Bool} {s : PassRun} {rule : Rule} {root : ValueId} (hs : s.failure = none)
    (hverify : (rule.applyAt s.graph root).2.verify = .ok ()) : (s.applyRule verify rule root).failure = none := by
  unfold applyRule
  split
  · rename_i g h
    rw [h] at hverify
    simp only [hverify, ite_self]
  · exact hs
  · rw [failure_reject]
    exact hs

/-- **What every application keeps, following a log keeps.** -/
theorem follow_induct {P : PassRun → Prop} {verify : Bool} {rules : List Rule}
    (step : ∀ (s : PassRun) (rule : Rule) (root : ValueId), rule ∈ rules → P s → P (s.applyRule verify rule root)) :
    ∀ (log : List (Rule × ValueId)) (s : PassRun), (∀ e ∈ log, e.1 ∈ rules) → P s → P (s.follow verify log)
  | [], _, _, h => h
  | e :: log, s, hlog, h =>
    follow_induct step log _ (fun e' he' => hlog e' (List.mem_cons_of_mem e he'))
      (step s e.1 e.2 (hlog e List.mem_cons_self) h)

end PassRun

namespace Pass

/-- The second state comes from the first by applying rules of the pass. -/
def Follows (pass : Pass) (s t : PassRun) : Prop :=
  ∃ log : List (Rule × ValueId), (∀ e ∈ log, e.1 ∈ pass.rules) ∧ t = s.follow pass.options.verifyAfterRewrite log

theorem Follows.refl (pass : Pass) (s : PassRun) : pass.Follows s s := ⟨[], by simp, rfl⟩

theorem Follows.trans {pass : Pass} {s t u : PassRun} (hst : pass.Follows s t) (htu : pass.Follows t u) :
    pass.Follows s u := by
  obtain ⟨first, hfirst, rfl⟩ := hst
  obtain ⟨second, hsecond, rfl⟩ := htu
  refine ⟨first ++ second, fun e he => ?_, by rw [PassRun.follow, PassRun.follow, PassRun.follow, List.foldl_append]⟩
  rcases List.mem_append.1 he with he | he
  · exact hfirst e he
  · exact hsecond e he

theorem follows_applyRule {pass : Pass} {s : PassRun} {rule : Rule} (root : ValueId) (hrule : rule ∈ pass.rules) :
    pass.Follows s (s.applyRule pass.options.verifyAfterRewrite rule root) :=
  ⟨[(rule, root)], by simpa using hrule, rfl⟩

theorem ruleAt?_mem {pass : Pass} {g : Graph} {v : ValueId} {rule : Rule} (h : pass.ruleAt? g v = some rule) :
    rule ∈ pass.rules := List.mem_of_find?_eq_some h

theorem mem_matchesOf {pass : Pass} {g : Graph} {e : Rule × ValueId} :
    e ∈ pass.matchesOf g ↔ (g.value? e.2).isSome = true ∧ pass.ruleAt? g e.2 = some e.1 := by
  unfold matchesOf
  rw [List.mem_filterMap]
  constructor
  · rintro ⟨v, hv, he⟩
    obtain ⟨rule, hrule, rfl⟩ := Option.map_eq_some_iff.1 he
    exact ⟨Graph.mem_valueIds.1 hv, hrule⟩
  · rintro ⟨hv, hrule⟩
    exact ⟨e.2, Graph.mem_valueIds.2 hv, by rw [hrule]; rfl⟩

theorem follows_visit (pass : Pass) (s : PassRun) (v : ValueId) : pass.Follows s (pass.visit s v) := by
  unfold visit
  split
  · exact .refl pass s
  · split
    · exact .refl pass s
    · rename_i rule hrule
      exact follows_applyRule v (ruleAt?_mem hrule)

theorem follows_forEach {α : Type} (pass : Pass) {step : PassRun → α → PassRun} : ∀ (as : List α) (s : PassRun),
    (∀ a ∈ as, ∀ s, pass.Follows s (step s a)) → pass.Follows s (PassRun.forEach step as s)
  | [], s, _ => .refl pass s
  | a :: as, s, h => by
    rw [PassRun.forEach]
    split
    · exact .refl pass s
    · exact (h a List.mem_cons_self s).trans
        (follows_forEach pass as _ (fun b hb => h b (List.mem_cons_of_mem a hb)))

theorem follows_sweep (pass : Pass) (s : PassRun) : pass.Follows s (pass.sweep s) := by
  unfold sweep
  split
  · exact follows_forEach pass _ s (fun v _ s => pass.follows_visit s v)
  · refine follows_forEach pass _ s (fun e he s => ?_)
    exact follows_applyRule e.2 (ruleAt?_mem (mem_matchesOf.1 he).2)

theorem sweepUntilStable_spec (pass : Pass) : ∀ (left made : Nat) (s : PassRun),
    pass.Follows s (pass.sweepUntilStable left made s).1 ∧
      ∀ rule error, (pass.sweepUntilStable left made s).2.2 = .verificationFailed rule error →
        (pass.sweepUntilStable left made s).1.failure = some (rule, error)
  | 0, _, s => ⟨.refl pass s, fun _ _ h => nomatch h⟩
  | left + 1, made, s => by
    rw [sweepUntilStable]
    split
    · rename_i rule error hfail
      refine ⟨pass.follows_sweep s, fun rule' error' h => ?_⟩
      simp only [PassStatus.verificationFailed.injEq] at h
      rw [← h.1, ← h.2]
      exact hfail
    · split
      · exact ⟨pass.follows_sweep s, fun _ _ h => nomatch h⟩
      · obtain ⟨hfollows, hstatus⟩ := sweepUntilStable_spec pass left (made + 1) (pass.sweep s)
        exact ⟨(pass.follows_sweep s).trans hfollows, hstatus⟩

/-- The state of a pass after the applications of a log. -/
def follow (pass : Pass) (g : Graph) (log : List (Rule × ValueId)) : PassRun :=
  (PassRun.start g).follow pass.options.verifyAfterRewrite log

theorem graph_follow_concat (pass : Pass) (g : Graph) (log : List (Rule × ValueId)) (e : Rule × ValueId) :
    (pass.follow g (log ++ [e])).graph = (e.1.applyAt (pass.follow g log).graph e.2).2 := by
  rw [follow, PassRun.follow, List.foldl_append]
  exact PassRun.graph_applyRule _ _ e.1 e.2

/-- **A run is a sequence of applications of the rules of the pass**; the report counts and lists what came of
them, and a failed check is one that failed on the way. -/
theorem run_eq_follow (pass : Pass) (g : Graph) : ∃ log : List (Rule × ValueId), (∀ e ∈ log, e.1 ∈ pass.rules) ∧
    (pass.run g).2 = (pass.follow g log).graph ∧
    (pass.run g).1.applied = (pass.follow g log).applied ∧ (pass.run g).1.rejected = (pass.follow g log).rejected ∧
    ∀ rule error, (pass.run g).1.status = .verificationFailed rule error →
      (pass.follow g log).failure = some (rule, error) := by
  obtain ⟨⟨log, hlog, heq⟩, hstatus⟩ := pass.sweepUntilStable_spec pass.options.maxIterations 0 (.start g)
  refine ⟨log, hlog, ?_, ?_, ?_, fun rule error h => ?_⟩
  · exact congrArg PassRun.graph heq
  · exact congrArg PassRun.applied heq
  · exact congrArg PassRun.rejected heq
  · exact (congrArg PassRun.failure heq).symm.trans (hstatus rule error h)

end Pass
end TensorGraph
