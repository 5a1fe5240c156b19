import Mathlib.Data.List.Find
import TensorGraph.Proofs.Rewrite.BuiltInBlind
import TensorGraph.Proofs.Rewrite.Run
import TensorGraph.Proofs.Rewrite.Trace
/-!
# Converged — what is left when a sweep applied nothing

A step of a sweep counts one application or is idle: it leaves nothing but spent slots.  So a sweep
that counted nothing was idle from the first step to the last, and since the rules do not notice spent
slots, what it found at each value it would find in the graph it ends with.  A pass that has converged
is therefore exhausted, and to run it again takes one idle sweep.

Each value is looked at through the first rule that matches there.  A rule that matches later in the
list may still apply.
-/
namespace TensorGraph

open TensorGraph.Graph

theorem Graph.spend_spend (g : Graph) (n m n' m' : Nat) : (g.spend n m).spend n' m' = g.spend (n + n') (m + m') := by
  simp [spend, Array.append_assoc]

/-! ## Steps of a sweep -/

namespace PassRun

/-- **Nothing was applied**: slots were spent and rejections listed. -/
structure Idle (s t : PassRun) : Prop where
  applied : t.applied = s.applied
  failure : t.failure = s.failure
  graph : ∃ n m, t.graph = s.graph.spend n m

namespace Idle

variable {s t u : PassRun}

theorem refl (s : PassRun) : Idle s s := ⟨rfl, rfl, 0, 0, (spend_zero s.graph).symm⟩

theorem trans (h : Idle s t) (h' : Idle t u) : Idle s u where
  applied := h'.applied.trans h.applied
  failure := h'.failure.trans h.failure
  graph := by
    obtain ⟨n, m, hn⟩ := h.graph
    obtain ⟨n', m', hn'⟩ := h'.graph
    exact ⟨n + n', m + m', by rw [hn', hn, spend_spend]⟩

theorem wellFormed (h : Idle s t) (hs : s.graph.WellFormed) : t.graph.WellFormed := by
  obtain ⟨n, m, hn⟩ := h.graph
  exact hn ▸ (sameEdges_spend s.graph n m).wellFormed hs

end Idle

variable {verify : Bool} {s : PassRun} {rule : Rule} {v : ValueId}

theorem applied_applyRule (h : rule.AppliesAt s.graph v) : (s.applyRule verify rule v).applied = s.applied + 1 := by
  obtain ⟨new, hnew⟩ := h
  unfold applyRule
  split
  · rfl
  all_goals
    rename_i hout
    rw [hout] at hnew
    cases hnew

theorem idle_applyRule (hs : s.graph.WellFormed) (h : ¬ rule.AppliesAt s.graph v) :
    Idle s (s.applyRule verify rule v) where
  applied := by
    unfold applyRule
    split
    · rename_i new _ hout
      exact absurd ⟨new, congrArg Prod.fst hout⟩ h
    · rfl
    · exact applied_reject _ _
  failure := by
    unfold applyRule
    split
    · rename_i new _ hout
      exact absurd ⟨new, congrArg Prod.fst hout⟩ h
    · rfl
    · exact failure_reject _ _
  graph := by
    rw [graph_applyRule]
    exact Rule.applyAt_snd_of_not_appliesAt hs h

/-- **Each step applies a rule or is idle**, as the graph has it, whatever slots were spent. -/
structure Steps {α : Type} (step : PassRun → α → PassRun) (busy : Graph → α → Prop) (as : List α) : Prop where
  counts : ∀ a ∈ as, ∀ s, busy s.graph a → (step s a).applied = s.applied + 1
  idles : ∀ a ∈ as, ∀ s, s.graph.WellFormed → ¬ busy s.graph a → Idle s (step s a)
  wellFormed : ∀ a ∈ as, ∀ s, s.graph.WellFormed → (step s a).graph.WellFormed
  spend : ∀ a ∈ as, ∀ g : Graph, g.WellFormed → ∀ n m, busy (g.spend n m) a ↔ busy g a

namespace Steps

variable {α : Type} {step : PassRun → α → PassRun} {busy : Graph → α → Prop} {a : α} {as : List α}

theorem tail (h : Steps step busy (a :: as)) : Steps step busy as where
  counts b hb := h.counts b (List.mem_cons_of_mem a hb)
  idles b hb := h.idles b (List.mem_cons_of_mem a hb)
  wellFormed b hb := h.wellFormed b (List.mem_cons_of_mem a hb)
  spend b hb := h.spend b (List.mem_cons_of_mem a hb)

theorem busy_iff_of_idle (h : Steps step busy as) {t : PassRun} (ha : a ∈ as) (hs : s.graph.WellFormed) (hst : Idle s t) :
    busy t.graph a ↔ busy s.graph a := by
  obtain ⟨n, m, hn⟩ := hst.graph
  rw [hn]
  exact h.spend a ha s.graph hs n m

theorem applied_le : ∀ {as : List α} {s : PassRun}, Steps step busy as → s.graph.WellFormed →
    s.applied ≤ (forEach step as s).applied
  | [], _, _, _ => Nat.le_refl _
  | a :: as, s, h, hs => by
    rw [forEach]
    split
    · exact Nat.le_refl _
    · refine Nat.le_trans ?_ (h.tail.applied_le (h.wellFormed a List.mem_cons_self s hs))
      by_cases hbusy : busy s.graph a
      · rw [h.counts a List.mem_cons_self s hbusy]
        exact Nat.le_succ _
      · exact Nat.le_of_eq (h.idles a List.mem_cons_self s hs hbusy).applied.symm

/-- Where there is nothing to apply, the steps are idle. -/
theorem idle : ∀ {as : List α} {s : PassRun}, Steps step busy as → s.graph.WellFormed →
    (∀ a ∈ as, ¬ busy s.graph a) → Idle s (forEach step as s)
  | [], s, _, _, _ => .refl s
  | a :: as, s, h, hs, hnone => by
    rw [forEach]
    split
    · exact .refl s
    · have hfirst := h.idles a List.mem_cons_self s hs (hnone a List.mem_cons_self)
      refine hfirst.trans (h.tail.idle (hfirst.wellFormed hs) (fun b hb => ?_))
      rw [h.tail.busy_iff_of_idle hb hs hfirst]
      exact hnone b (List.mem_cons_of_mem a hb)

/-- **Where nothing was applied, there was nothing to apply.** -/
theorem not_busy : ∀ {as : List α} {s : PassRun}, Steps step busy as → s.graph.WellFormed → s.failure = none →
    (forEach step as s).applied = s.applied → ∀ a ∈ as, ¬ busy s.graph a
  | [], _, _, _, _, _, _, hb => by cases hb
  | a :: as, s, h, hs, hfail, happlied, b, hb => by
    rw [forEach, hfail, if_neg (by simp)] at happlied
    -- the count never goes down, so a first step that was counted would show at the end
    have hidle : ¬ busy s.graph a := fun hbusy => by
      have hle := h.tail.applied_le (h.wellFormed a List.mem_cons_self s hs)
      rw [happlied, h.counts a List.mem_cons_self s hbusy] at hle
      exact Nat.not_succ_le_self _ hle
    have hfirst := h.idles a List.mem_cons_self s hs hidle
    rcases List.mem_cons.1 hb with rfl | hb
    · exact hidle
    · rw [← h.tail.busy_iff_of_idle hb hs hfirst]
      exact h.tail.not_busy (hfirst.wellFormed hs) (hfirst.failure.trans hfail)
        (happlied.trans hfirst.applied.symm) b hb

end Steps
end PassRun

/-! ## Sweeps -/

theorem Rule.AppliesAt.live {rule : Rule} {g : Graph} {v : ValueId} (h : rule.AppliesAt g v) :
    (g.value? v).isSome = true := by
  obtain ⟨new, hnew⟩ := h
  unfold Rule.applyAt at hnew
  cases hv : g.value? v with
  | some val => rfl
  | none =>
    rw [hv] at hnew
    cases hm : rule.pattern.matchValue? g v <;> rw [hm] at hnew <;> cases hnew

namespace Pass

variable {pass : Pass} {g : Graph} {s : PassRun} {v : ValueId}

/-- The patterns of the rules were built, and no rule notices spent slots. -/
structure SlotBlind (pass : Pass) : Prop where
  built : ∀ rule ∈ pass.rules, ∃ (b : PatternBuilder) (start : PatternId), b.build start = .ok rule.pattern
  blind : ∀ rule ∈ pass.rules, rule.SlotBlind

/-- The first rule that matches the value is applied there. -/
def RewritesAt (pass : Pass) (g : Graph) (v : ValueId) : Prop :=
  ∃ rule, pass.ruleAt? g v = some rule ∧ rule.AppliesAt g v

/-- **The pass is done with the graph.** -/
def Exhausted (pass : Pass) (g : Graph) : Prop := ∀ v, ¬ pass.RewritesAt g v

theorem ruleAt?_spend (hpass : pass.SlotBlind) (hg : g.WellFormed) (n m : Nat) (v : ValueId) :
    pass.ruleAt? (g.spend n m) v = pass.ruleAt? g v := by
  refine List.find?_congr (fun rule hrule => ?_)
  obtain ⟨b, start, hbuilt⟩ := hpass.built rule hrule
  rw [Rule.matchValue?_spend hbuilt (hpass.blind rule hrule) hg]

theorem appliesAt_spend (hpass : pass.SlotBlind) (hg : g.WellFormed) {rule : Rule} (hrule : rule ∈ pass.rules)
    (n m : Nat) (v : ValueId) : rule.AppliesAt (g.spend n m) v ↔ rule.AppliesAt g v := by
  obtain ⟨b, start, hbuilt⟩ := hpass.built rule hrule
  exact Rule.appliesAt_spend hbuilt (hpass.blind rule hrule) hg n m v

theorem rewritesAt_spend (hpass : pass.SlotBlind) (hg : g.WellFormed) (n m : Nat) (v : ValueId) :
    pass.RewritesAt (g.spend n m) v ↔ pass.RewritesAt g v := by
  unfold RewritesAt
  rw [ruleAt?_spend hpass hg]
  exact exists_congr (fun rule => and_congr_right (fun h => appliesAt_spend hpass hg (ruleAt?_mem h) n m v))

theorem Exhausted.spend (h : pass.Exhausted g) (hpass : pass.SlotBlind) (hg : g.WellFormed) (n m : Nat) :
    pass.Exhausted (g.spend n m) := fun v hv => h v ((rewritesAt_spend hpass hg n m v).1 hv)

theorem steps_visit (hpass : pass.SlotBlind) (vs : List ValueId) : PassRun.Steps pass.visit pass.RewritesAt vs where
  counts v _ s hbusy := by
    obtain ⟨rule, hrule, happlies⟩ := hbusy
    obtain ⟨val, hval⟩ := Option.isSome_iff_exists.1 happlies.live
    unfold visit
    rw [hval, hrule]
    exact PassRun.applied_applyRule happlies
  idles v _ s hs hidle := by
    unfold visit
    split
    · exact .refl s
    · split
      · exact .refl s
      · rename_i rule hrule
        exact PassRun.idle_applyRule hs (fun happlies => hidle ⟨rule, hrule, happlies⟩)
  wellFormed v _ s hs := by
    unfold visit
    split
    · exact hs
    · split
      · exact hs
      · rw [PassRun.graph_applyRule]
        exact Rule.wellFormed_applyAt hs
  spend v _ g hg n m := rewritesAt_spend hpass hg n m v

theorem steps_applyRule (hpass : pass.SlotBlind) (g : Graph) :
    PassRun.Steps (fun s (e : Rule × ValueId) => s.applyRule pass.options.verifyAfterRewrite e.1 e.2)
      (fun g e => e.1.AppliesAt g e.2) (pass.matchesOf g) where
  counts _ _ s hbusy := PassRun.applied_applyRule hbusy
  idles _ _ s hs hidle := PassRun.idle_applyRule hs hidle
  wellFormed e _ s hs := by
    rw [PassRun.graph_applyRule]
    exact Rule.wellFormed_applyAt hs
  spend e he g hg n m := by
    exact appliesAt_spend hpass hg (ruleAt?_mem (mem_matchesOf.1 he).2) n m e.2

/-- **A sweep over an exhausted graph is idle.** -/
theorem idle_sweep (hpass : pass.SlotBlind) (hs : s.graph.WellFormed) (hdone : pass.Exhausted s.graph) :
    PassRun.Idle s (pass.sweep s) := by
  unfold sweep
  split
  · exact (steps_visit hpass _).idle hs (fun v _ => hdone v)
  · refine (steps_applyRule hpass s.graph).idle hs (fun e he happlies => ?_)
    exact hdone e.2 ⟨e.1, (mem_matchesOf.1 he).2, happlies⟩

/-- **A sweep that applied nothing had an exhausted graph before it.** -/
theorem exhausted_of_sweep (hpass : pass.SlotBlind) (hs : s.graph.WellFormed) (hfail : s.failure = none)
    (h : (pass.sweep s).applied = s.applied) : pass.Exhausted s.graph := by
  rintro v ⟨rule, hrule, happlies⟩
  have hlive := happlies.live
  unfold sweep at h
  split at h
  · obtain ⟨val, hval⟩ := Option.isSome_iff_exists.1 hlive
    exact (steps_visit hpass _).not_busy hs hfail h v
      (List.mem_map.2 ⟨v.index, List.mem_range.2 (value?_lt hval), rfl⟩) ⟨rule, hrule, happlies⟩
  · exact (steps_applyRule hpass s.graph).not_busy hs hfail h (rule, v) (mem_matchesOf.2 ⟨hlive, hrule⟩) happlies

/-! ## Runs -/

theorem sweepUntilStable_converged : ∀ {left made : Nat} {s : PassRun}, s.failure = none →
    (pass.sweepUntilStable left made s).2.2 = .converged → ∃ t, pass.Follows s t ∧ t.failure = none ∧
      (pass.sweep t).applied = t.applied ∧ (pass.sweepUntilStable left made s).1 = pass.sweep t
  | 0, _, _, _, h => by cases h
  | left + 1, made, s, hfail, h => by
    rw [sweepUntilStable] at h ⊢
    split at h
    · cases h
    rename_i hafter
    split at h
    · rename_i happlied
      rw [if_pos happlied]
      exact ⟨s, .refl pass s, hfail, happlied, rfl⟩
    · rename_i happlied
      rw [if_neg happlied]
      obtain ⟨t, hfollows, hrest⟩ := sweepUntilStable_converged hafter h
      exact ⟨t, (pass.follows_sweep s).trans hfollows, hrest⟩

/-- **A pass that has converged is exhausted.** -/
theorem exhausted_of_converged (hpass : pass.SlotBlind) (hg : g.WellFormed)
    (h : (pass.run g).1.status = .converged) : pass.Exhausted (pass.run g).2 := by
  have hstatus : (pass.sweepUntilStable pass.options.maxIterations 0 (.start g)).2.2 = .converged := h
  obtain ⟨t, ⟨log, hlog, ht⟩, hfail, happlied, heq⟩ := sweepUntilStable_converged rfl hstatus
  have hwf : t.graph.WellFormed := ht ▸ (wellFormed_follow pass hg log hlog).1
  have hdone := exhausted_of_sweep hpass hwf hfail happlied
  -- the run ends after that sweep, in a graph with more slots spent than the one the sweep has looked at
  obtain ⟨n, m, hspent⟩ := (idle_sweep hpass hwf hdone).graph
  have hfinal : (pass.run g).2 = t.graph.spend n m := (congrArg PassRun.graph heq).trans hspent
  rw [hfinal]
  exact hdone.spend hpass hwf n m

/-- **On an exhausted graph a run makes one idle sweep.** -/
theorem run_of_exhausted (hpass : pass.SlotBlind) (hg : g.WellFormed) (hdone : pass.Exhausted g)
    (hcap : 0 < pass.options.maxIterations) : (pass.run g).1.applied = 0 ∧ (pass.run g).1.iterations = 1 ∧
      (pass.run g).1.status = .converged ∧ SlotsSpent g (pass.run g).2 := by
  obtain ⟨cap, hcap⟩ := Nat.exists_eq_add_one_of_ne_zero (Nat.ne_of_gt hcap)
  have hidle := idle_sweep hpass (s := .start g) hg hdone
  have hrun : pass.sweepUntilStable pass.options.maxIterations 0 (.start g) = (pass.sweep (.start g), 1, .converged) := by
    rw [hcap, sweepUntilStable, hidle.failure]
    exact if_pos hidle.applied
  obtain ⟨n, m, hspent⟩ := hidle.graph
  unfold run
  rw [hrun]
  refine ⟨hidle.applied, rfl, rfl, ?_⟩
  simp only [hspent]
  exact slotsSpent_spend g n m

theorem maxIterations_pos (h : (pass.run g).1.status = .converged) : 0 < pass.options.maxIterations := by
  refine Nat.pos_of_ne_zero (fun hzero => ?_)
  unfold run at h
  rw [hzero] at h
  cases h

/-- **Where a pass has converged, the first rule that matches is not applied.**  The rules before it do not match the
value in the graph that the run has left. -/
theorem outcome_of_converged (hpass : pass.SlotBlind) (hg : g.WellFormed) (h : (pass.run g).1.status = .converged)
    {before after : List Rule} {rule : Rule} (hrules : pass.rules = before ++ rule :: after)
    (hbefore : ∀ r ∈ before, r.pattern.matchValue? (pass.run g).2 v = none) :
    rule.pattern.matchValue? (pass.run g).2 v = none ∨ (rule.applyAt (pass.run g).2 v).1 = .declined ∨
      ∃ reason, (rule.applyAt (pass.run g).2 v).1 = .rejected reason := by
  by_cases hm : rule.pattern.matchValue? (pass.run g).2 v = none
  · exact Or.inl hm
  have hfirst : pass.ruleAt? (pass.run g).2 v = some rule :=
    List.find?_eq_some_iff_append.2 ⟨Option.isSome_iff_ne_none.2 hm, before, after, hrules,
      fun r hr => by simp [hbefore r hr]⟩
  refine Or.inr ?_
  cases hout : (rule.applyAt (pass.run g).2 v).1 with
  | applied new => exact absurd ⟨rule, hfirst, new, hout⟩ (exhausted_of_converged hpass hg h v)
  | declined => exact Or.inl rfl
  | rejected reason => exact Or.inr ⟨reason, rfl⟩

theorem slotBlind_of_builtIn (hrules : ∀ rule ∈ pass.rules,
    Except.ok rule ∈ [Rule.multiplyAddFusion, Rule.decomposeComposites, Rule.identityElimination]) : pass.SlotBlind where
  built rule hrule := (Rule.slotBlind_of_builtIn (hrules rule hrule)).2
  blind rule hrule := (Rule.slotBlind_of_builtIn (hrules rule hrule)).1

/-- A clamped line with unknown coefficients, which is converted to the type that it has and to another. -/
def halfKnown : Graph :=
  [Edit.addParameter none ⟨.f32, .ranked [.fixed 2]⟩, .addParameter none ⟨.f32, .unknown⟩,
    .addValue none .hardSigmoid [⟨0⟩, ⟨1⟩, ⟨1⟩], .addValue none (.convert .f32) [⟨2⟩],
    .addValue none (.convert .i32) [⟨2⟩], .setResults [⟨3⟩, ⟨4⟩]].foldl Edit.apply (.empty .full)

theorem wellFormed_halfKnown : halfKnown.WellFormed := wellFormed_edits _ (wellFormed_empty _)

def decomposition : Rule :=
  ⟨"DecomposeComposites", ⟨(Rule.compositeSketch.run .empty).2.nodes, (Rule.compositeSketch.run .empty).1⟩,
    Rule.decompose⟩

def elimination : Rule := ⟨"IdentityElimination", Rule.identityPattern, Rule.skipIdentity⟩

def tidy : Pass := ⟨"Tidy", [decomposition, elimination], ⟨5, .firstMatch, true⟩⟩

theorem builtIn_tidy : ∀ rule ∈ tidy.rules,
    Except.ok rule ∈ [Rule.multiplyAddFusion, Rule.decomposeComposites, Rule.identityElimination] := by
  have hdecomposition : Rule.decomposeComposites = .ok decomposition :=
    Rule.ofSketch_of_build (PatternBuilder.build_eq_ok.2 ⟨rfl, by decide +kernel, by decide +kernel⟩)
  have helimination : Rule.identityElimination = .ok elimination :=
    Rule.ofSketch_of_build (PatternBuilder.build_eq_ok.2 ⟨rfl, by decide +kernel, by decide +kernel⟩)
  intro rule hrule
  rcases List.mem_cons.1 hrule with rfl | hrule
  · simp [hdecomposition]
  · obtain rfl := List.mem_singleton.1 hrule
    simp [helimination]

theorem status_run_tidy : (tidy.run halfKnown).1.status = .converged := by decide +kernel

/-- One conversion is gone, and the other is looked at in vain. -/
theorem outcome_of_converged_tidy : halfKnown.WellFormed ∧ tidy.SlotBlind ∧
    (tidy.run halfKnown).1.status = .converged ∧ tidy.rules = [decomposition] ++ elimination :: [] ∧
    (∀ r ∈ [decomposition], r.pattern.matchValue? (tidy.run halfKnown).2 ⟨4⟩ = none) ∧
    (elimination.pattern.matchValue? (tidy.run halfKnown).2 ⟨4⟩ = none ∨
      (elimination.applyAt (tidy.run halfKnown).2 ⟨4⟩).1 = .declined ∨
      ∃ reason, (elimination.applyAt (tidy.run halfKnown).2 ⟨4⟩).1 = .rejected reason) := by
  have hpass := slotBlind_of_builtIn builtIn_tidy
  have hrules : tidy.rules = [decomposition] ++ elimination :: [] := rfl
  have hbefore : ∀ r ∈ [decomposition], r.pattern.matchValue? (tidy.run halfKnown).2 ⟨4⟩ = none := by
    intro r hr
    obtain rfl := List.mem_singleton.1 hr
    decide +kernel
  exact ⟨wellFormed_halfKnown, hpass, status_run_tidy, hrules, hbefore,
    outcome_of_converged hpass wellFormed_halfKnown status_run_tidy hrules hbefore⟩

def rectified : Graph :=
  [Edit.addParameter none ⟨.f32, .ranked [.fixed 3]⟩, .addValue none (.unary .relu) [⟨0⟩],
    .setResults [⟨1⟩]].foldl Edit.apply (.empty .full)

def reluPattern : Pattern := ⟨#[.any, .label "x" ⟨0⟩, .op [.unary .relu] [⟨1⟩] false], ⟨2⟩⟩

/-- A rule that never has a replacement. -/
def abstain : Rule := ⟨"Abstain", reluPattern, fun _ => throw .declined⟩

def dropRelu : Rule := ⟨"DropRelu", reluPattern, fun m => Rule.labelled m "x"⟩

/-- A rule that adds a node, and answers with a value that is one behind the last in the graph `rectified`. -/
def pointAhead : Rule where
  name := "PointAhead"
  pattern := reluPattern
  replacement _ := do
    let _ ← Construction.orInvalid (Construction.addValue none (.unary .negative) [⟨0⟩])
    return ⟨3⟩

def hidden : Pass := ⟨"Hidden", [abstain, dropRelu], ⟨5, .firstMatch, false⟩⟩

def ahead : Pass := ⟨"Ahead", [pointAhead], ⟨5, .firstMatch, false⟩⟩

/-- The rule that abstains hides the other one.  The rule that points ahead is rejected while there is no such value;
the attempt spends a slot, and in the graph that the run leaves the rule adds that value itself. -/
theorem applied_after_converged : rectified.WellFormed ∧
    PatternBuilder.build ⟨reluPattern.nodes⟩ ⟨2⟩ = .ok reluPattern ∧
    ((hidden.run rectified).1.status = .converged ∧ dropRelu ∈ hidden.rules ∧
      ((hidden.run rectified).2.value? ⟨1⟩).isSome = true ∧
      (dropRelu.applyAt (hidden.run rectified).2 ⟨1⟩).1 = .applied ⟨0⟩) ∧
    (ahead.run rectified).1.status = .converged ∧ pointAhead ∈ ahead.rules ∧
      ((ahead.run rectified).2.value? ⟨1⟩).isSome = true ∧
      (pointAhead.applyAt (ahead.run rectified).2 ⟨1⟩).1 = .applied ⟨3⟩ := by
  refine ⟨wellFormed_edits _ (wellFormed_empty _),
    PatternBuilder.build_eq_ok.2 ⟨rfl, by decide +kernel, by decide +kernel⟩, ⟨?_, ?_, ?_, ?_⟩, ?_, ?_, ?_, ?_⟩
  · decide +kernel
  · simp [hidden]
  · decide +kernel
  · decide +kernel
  · decide +kernel
  · simp [ahead]
  · decide +kernel
  · decide +kernel

/-! ## Running again -/

/-- **A pass of built-in rules that has converged is idempotent**: to run it again takes one sweep, which applies
nothing and leaves the graph as it is in all that can be observed. -/
theorem idempotent_of_converged (hrules : ∀ rule ∈ pass.rules,
      Except.ok rule ∈ [Rule.multiplyAddFusion, Rule.decomposeComposites, Rule.identityElimination])
    (hg : g.WellFormed) (h : (pass.run g).1.status = .converged) :
    (pass.run (pass.run g).2).1.applied = 0 ∧ (pass.run (pass.run g).2).1.iterations = 1 ∧
      (pass.run (pass.run g).2).1.status = .converged ∧ SlotsSpent (pass.run g).2 (pass.run (pass.run g).2).2 := by
  have hpass := slotBlind_of_builtIn hrules
  exact run_of_exhausted hpass (wellFormed_run pass hg) (exhausted_of_converged hpass hg h) (maxIterations_pos h)

/-- Each sweep tries to decompose the clamped line, and takes back the six nodes that it has added. -/
theorem idempotent_of_converged_tidy : halfKnown.WellFormed ∧ (tidy.run halfKnown).1.status = .converged ∧
    (tidy.run halfKnown).1.applied = 1 ∧ (tidy.run (tidy.run halfKnown).2).1.applied = 0 ∧
    (tidy.run (tidy.run halfKnown).2).1.iterations = 1 ∧ (tidy.run (tidy.run halfKnown).2).1.status = .converged ∧
    SlotsSpent (tidy.run halfKnown).2 (tidy.run (tidy.run halfKnown).2).2 ∧
    (tidy.run (tidy.run halfKnown).2).2.nodeSlots = (tidy.run halfKnown).2.nodeSlots + 6 := by
  obtain ⟨happlied, hiterations, hstatus, hspent⟩ :=
    idempotent_of_converged builtIn_tidy wellFormed_halfKnown status_run_tidy
  exact ⟨wellFormed_halfKnown, status_run_tidy, by decide +kernel, happlied, hiterations, hstatus, hspent,
    by decide +kernel⟩

end Pass
end TensorGraph
