import TensorGraph.Proofs.Rewrite.Sweep
/-!
# Report — what the report of a run says, and what has happened

`trail` tells the story of a run without keeping any count: sweep by sweep the attempts that are made, each
with what came of it and the graph that it has left.  A sweep ends early where a check fails; the run ends
with the sweep in which that happens, with the first sweep that applies nothing, or with the last one allowed.

`Accounted` is what the counts and the list of rejections owe to a list of attempts.  It holds of one attempt
and passes from part to part, so it holds of a sweep and of a run.  Part of it is that the attempts are
`Successive`: each one is what the driver does in the graph that those before it have left.  So an attempt that
is counted is one in which the driver has spliced in a replacement there (`isApplied_trial_iff`).
-/
namespace TensorGraph

/-- What came of a rule at a value. -/
structure Trial where
  rule : Rule
  root : ValueId
  outcome : Outcome
  /-- The graph that the attempt has left. -/
  graph : Graph

def Rule.trial (rule : Rule) (g : Graph) (root : ValueId) : Trial :=
  ⟨rule, root, (rule.applyAt g root).1, (rule.applyAt g root).2⟩

namespace Trial

/-- A replacement was spliced in. -/
def isApplied (a : Trial) : Bool :=
  match a.outcome with
  | .applied _ => true
  | _ => false

/-- The entry that a rejected attempt deserves. -/
def rejection? (a : Trial) : Option RejectionEntry :=
  match a.outcome with
  | .rejected reason => some ⟨a.rule.name, a.root, reason⟩
  | _ => none

/-- What the check after an application finds, if there is one. -/
def fault? (verify : Bool) (a : Trial) : Option (String × GraphError) :=
  if a.isApplied && verify then
    match a.graph.verify with
    | .ok _ => none
    | .error e => some (a.rule.name, e)
  else none

/-- The graph after a list of attempts. -/
def after (g : Graph) (made : List Trial) : Graph := made.foldl (fun _ a => a.graph) g

/-- Each attempt is made in the graph that those before it have left. -/
def Successive : Graph → List Trial → Prop
  | _, [] => True
  | g, a :: rest => a = a.rule.trial g a.root ∧ Successive a.graph rest

/-- The attempts that are made along a list, until a check fails. -/
def along {α : Type} (verify : Bool) (pick : Graph → α → Option (Rule × ValueId)) : List α → Graph → List Trial
  | [], _ => []
  | a :: as, g =>
    match pick g a with
    | none => along verify pick as g
    | some (rule, root) =>
      let made := rule.trial g root
      if (made.fault? verify).isSome then [made] else made :: along verify pick as made.graph

theorem isApplied_trial_iff {rule : Rule} {g : Graph} {root : ValueId} :
    (rule.trial g root).isApplied = true ↔ ∃ new, rule.Splices g root new (rule.trial g root).graph := by
  constructor
  · intro h
    unfold isApplied at h
    split at h
    · rename_i new hnew
      exact ⟨new, Rule.applyAt_eq_applied_iff.1 (Prod.ext hnew rfl)⟩
    · cases h
  · rintro ⟨new, hspliced⟩
    rw [isApplied, Rule.trial, Rule.applyAt_eq_applied_iff.2 hspliced]

theorem after_append (g : Graph) (made more : List Trial) : after g (made ++ more) = after (after g made) more :=
  List.foldl_append

theorem Successive.append : ∀ {made more : List Trial} {g : Graph}, Successive g made →
    Successive (after g made) more → Successive g (made ++ more)
  | [], _, _, _, hmore => hmore
  | _ :: _, _, _, ⟨hfirst, hrest⟩, hmore => ⟨hfirst, hrest.append hmore⟩

theorem Successive.eq_trial : ∀ {before later : List Trial} {a : Trial} {g : Graph},
    Successive g (before ++ a :: later) → a = a.rule.trial (after g before) a.root
  | [], _, _, _, ⟨hfirst, _⟩ => hfirst
  | _ :: _, _, _, _, ⟨_, hrest⟩ => hrest.eq_trial

end Trial

namespace Pass

/-- The rule to try at a value, if it is there and a rule matches. -/
def pick (pass : Pass) (g : Graph) (v : ValueId) : Option (Rule × ValueId) :=
  if (g.value? v).isNone then none else (pass.ruleAt? g v).map (fun rule => (rule, v))

/-- The attempts of a sweep. -/
def trials (pass : Pass) (g : Graph) : List Trial :=
  match pass.options.sweepMode with
  | .firstMatch =>
    Trial.along pass.options.verifyAfterRewrite pass.pick ((List.range g.valueSlots).map ValueId.mk) g
  | .allMatches => Trial.along pass.options.verifyAfterRewrite (fun _ e => some e) (pass.matchesOf g) g

/-- The sweeps of a run that is allowed so many of them. -/
def sweeps (pass : Pass) : Nat → Graph → List (List Trial)
  | 0, _ => []
  | left + 1, g =>
    let made := pass.trials g
    if (made.findSome? (Trial.fault? pass.options.verifyAfterRewrite)).isNone && made.any Trial.isApplied then
      made :: sweeps pass left (Trial.after g made)
    else [made]

/-- The attempts of a run, sweep by sweep. -/
def trail (pass : Pass) (g : Graph) : List (List Trial) := pass.sweeps pass.options.maxIterations g

end Pass

/-- What an entry is listed for. -/
def RejectionEntry.key (e : RejectionEntry) : String × ValueId := (e.rule, e.root)

namespace PassRun

variable {verify : Bool} {s t u : PassRun} {made more : List Trial}

/-- **What the counts and the list owe to the attempts** that led from the first state to the second. -/
structure Accounted (s : PassRun) (made : List Trial) (t : PassRun) : Prop where
  successive : Trial.Successive s.graph made
  graph : t.graph = Trial.after s.graph made
  applied : t.applied = s.applied + made.countP Trial.isApplied
  /-- Entries are added for rejected attempts, in their order, and stay. -/
  earned : ∃ new, t.rejected = s.rejected ++ new ∧ new.Sublist (made.filterMap Trial.rejection?)
  listed : ∀ a ∈ made, ∀ reason, a.outcome = .rejected reason →
    ∃ e ∈ t.rejected, e.rule = a.rule.name ∧ e.root = a.root
  distinct : (s.rejected.map RejectionEntry.key).Nodup → (t.rejected.map RejectionEntry.key).Nodup

theorem Accounted.refl (s : PassRun) : Accounted s [] s :=
  ⟨trivial, rfl, rfl, ⟨[], (List.append_nil _).symm, List.nil_sublist _⟩, fun _ ha => absurd ha List.not_mem_nil, id⟩

theorem Accounted.kept (h : Accounted s made t) : s.rejected ⊆ t.rejected := by
  obtain ⟨new, hnew, -⟩ := h.earned
  exact hnew ▸ List.subset_append_left _ _

/-- Accounts add up. -/
theorem Accounted.trans (hst : Accounted s made t) (htu : Accounted t more u) : Accounted s (made ++ more) u where
  successive := hst.successive.append (hst.graph ▸ htu.successive)
  graph := by rw [htu.graph, hst.graph, Trial.after_append]
  applied := by rw [htu.applied, hst.applied, List.countP_append, Nat.add_assoc]
  earned := by
    obtain ⟨first, hfirst, hsub⟩ := hst.earned
    obtain ⟨second, hsecond, hsub'⟩ := htu.earned
    refine ⟨first ++ second, by rw [hsecond, hfirst, List.append_assoc], ?_⟩
    rw [List.filterMap_append]
    exact hsub.append hsub'
  listed a ha reason hout := by
    rcases List.mem_append.1 ha with ha | ha
    · obtain ⟨e, he, hkey⟩ := hst.listed a ha reason hout
      exact ⟨e, htu.kept he, hkey⟩
    · exact htu.listed a ha reason hout
  distinct h := htu.distinct (hst.distinct h)

/-! ## One attempt -/

theorem nodup_reject (entry : RejectionEntry) (h : (s.rejected.map RejectionEntry.key).Nodup) :
    ((s.reject entry).rejected.map RejectionEntry.key).Nodup := by
  unfold reject
  split
  · exact h
  · rename_i hnew
    rw [List.map_append, List.map_singleton, ← List.concat_eq_append, List.nodup_concat]
    refine ⟨fun hmem => hnew ?_, h⟩
    obtain ⟨e, he, hkey⟩ := List.mem_map.1 hmem
    obtain ⟨hrule, hroot⟩ := Prod.mk.inj hkey
    exact List.any_eq_true.2 ⟨e, he, by simp [hrule, hroot]⟩

theorem distinct_applyRule (verify : Bool) (rule : Rule) (root : ValueId) (h : (s.rejected.map RejectionEntry.key).Nodup) :
    ((s.applyRule verify rule root).rejected.map RejectionEntry.key).Nodup := by
  unfold applyRule
  split
  · exact h
  · exact h
  · rename_i reason g hout
    exact nodup_reject (s := { s with graph := g }) _ h

/-- At most one entry is added, and only by a rejection. -/
theorem rejected_applyRule_eq (verify : Bool) (s : PassRun) (rule : Rule) (root : ValueId) :
    ∃ new, (s.applyRule verify rule root).rejected = s.rejected ++ new ∧
      new.Sublist ([rule.trial s.graph root].filterMap Trial.rejection?) := by
  unfold applyRule
  split
  · exact ⟨[], (List.append_nil _).symm, List.nil_sublist _⟩
  · exact ⟨[], (List.append_nil _).symm, List.nil_sublist _⟩
  · rename_i reason g hout
    unfold reject
    split
    · exact ⟨[], (List.append_nil _).symm, List.nil_sublist _⟩
    · exact ⟨[⟨rule.name, root, reason⟩], rfl, by simp [Trial.rejection?, Rule.trial, hout]⟩

theorem applied_applyRule_eq (verify : Bool) (s : PassRun) (rule : Rule) (root : ValueId) :
    (s.applyRule verify rule root).applied = s.applied + [rule.trial s.graph root].countP Trial.isApplied := by
  rw [List.countP_singleton, Trial.isApplied, Rule.trial, applyRule]
  split
  · rename_i h
    rw [h]
    rfl
  · rename_i h
    rw [h]
    rfl
  · rename_i h
    rw [h, applied_reject]
    rfl

theorem failure_applyRule_eq (verify : Bool) (rule : Rule) (root : ValueId) (hs : s.failure = none) :
    (s.applyRule verify rule root).failure = (rule.trial s.graph root).fault? verify := by
  rw [Trial.fault?, Trial.isApplied, Rule.trial, applyRule]
  split
  · rename_i h
    rw [h]
    rfl
  · rename_i h
    simp only [h, hs, Bool.false_and, Bool.false_eq_true, if_false]
  · rename_i h
    simp only [h, failure_reject, hs, Bool.false_and, Bool.false_eq_true, if_false]

/-- **An attempt is accounted for.** -/
theorem accounted_applyRule (verify : Bool) (s : PassRun) (rule : Rule) (root : ValueId) :
    Accounted s [rule.trial s.graph root] (s.applyRule verify rule root) where
  successive := ⟨rfl, trivial⟩
  graph := graph_applyRule verify s rule root
  applied := applied_applyRule_eq verify s rule root
  earned := rejected_applyRule_eq verify s rule root
  listed a ha reason hout := by
    obtain rfl := List.mem_singleton.1 ha
    exact exists_mem_rejected_applyRule hout
  distinct := distinct_applyRule verify rule root

/-! ## Sweeps -/

/-- **Steps along a list are accounted for**, and stop where a check fails. -/
theorem accounted_forEach {α : Type} {step : PassRun → α → PassRun} {pick : Graph → α → Option (Rule × ValueId)}
    (hstep : ∀ s a, step s a = match pick s.graph a with
      | none => s
      | some (rule, root) => s.applyRule verify rule root) :
    ∀ (as : List α) (s : PassRun), s.failure = none →
      Accounted s (Trial.along verify pick as s.graph) (forEach step as s) ∧
        (forEach step as s).failure = (Trial.along verify pick as s.graph).findSome? (Trial.fault? verify)
  | [], s, hs => ⟨.refl s, hs⟩
  | a :: as, s, hs => by
    rw [forEach, hs, Option.isSome_none, if_neg Bool.false_ne_true, hstep, Trial.along]
    cases hpick : pick s.graph a with
    | none => exact accounted_forEach hstep as s hs
    | some target =>
      obtain ⟨rule, root⟩ := target
      have hfirst := accounted_applyRule verify s rule root
      have hfailure := failure_applyRule_eq verify rule root hs
      simp only
      cases hfault : (rule.trial s.graph root).fault? verify with
      | some fault =>
        rw [hfault] at hfailure
        have hstop : forEach step as (s.applyRule verify rule root) = s.applyRule verify rule root := by
          cases as with
          | nil => rfl
          | cons b bs => rw [forEach, hfailure, Option.isSome_some, if_pos rfl]
        rw [hstop]
        exact ⟨hfirst, by simp [hfailure, hfault]⟩
      | none =>
        rw [hfault] at hfailure
        obtain ⟨hrest, hend⟩ := accounted_forEach hstep as (s.applyRule verify rule root) hfailure
        rw [graph_applyRule] at hrest hend
        rw [Option.isSome_none, if_neg Bool.false_ne_true, List.findSome?_cons, hfault]
        exact ⟨hfirst.trans hrest, hend⟩

end PassRun

namespace Pass

open PassRun (Accounted)

variable {pass : Pass} {s : PassRun}

theorem visit_eq (pass : Pass) (s : PassRun) (v : ValueId) : pass.visit s v = match pass.pick s.graph v with
    | none => s
    | some (rule, root) => s.applyRule pass.options.verifyAfterRewrite rule root := by
  unfold visit pick
  split
  · rfl
  · cases pass.ruleAt? s.graph v <;> rfl

/-- **A sweep is accounted for.** -/
theorem accounted_sweep (pass : Pass) (hs : s.failure = none) : Accounted s (pass.trials s.graph) (pass.sweep s) ∧
    (pass.sweep s).failure = (pass.trials s.graph).findSome? (Trial.fault? pass.options.verifyAfterRewrite) := by
  unfold sweep trials
  cases pass.options.sweepMode with
  | firstMatch => exact PassRun.accounted_forEach pass.visit_eq _ s hs
  | allMatches => exact PassRun.accounted_forEach (fun _ _ => rfl) _ s hs

/-! ## Runs -/

theorem isApplied_of_fault? {verify : Bool} {a : Trial} {fault : String × GraphError}
    (h : a.fault? verify = some fault) : a.isApplied = true := by
  unfold Trial.fault? at h
  split at h
  · rename_i hchecked
    exact (Bool.and_eq_true_iff.1 hchecked).1
  · cases h

/-- The sweep has applied something. -/
def Busy (sweep : List Trial) : Prop := ∃ a ∈ sweep, a.isApplied = true

theorem busy_of_findSome? {verify : Bool} {sweep : List Trial} {fault : String × GraphError}
    (h : sweep.findSome? (Trial.fault? verify) = some fault) : Busy sweep := by
  obtain ⟨a, ha, hfault⟩ := List.exists_of_findSome?_eq_some h
  exact ⟨a, ha, isApplied_of_fault? hfault⟩

/-- **How the sweeps of a run lead to its status**: all of them but the last one have applied something. -/
inductive Ends (verify : Bool) (allowed : Nat) : List (List Trial) → PassStatus → Prop
  | cap {sweeps : List (List Trial)} (busy : ∀ sweep ∈ sweeps, Busy sweep) (used : sweeps.length = allowed) :
    Ends verify allowed sweeps .iterationCapExceeded
  | idle (earlier : List (List Trial)) {last : List Trial} (busy : ∀ sweep ∈ earlier, Busy sweep)
    (used : earlier.length < allowed) (done : ¬ Busy last) : Ends verify allowed (earlier ++ [last]) .converged
  | fault (earlier : List (List Trial)) {last : List Trial} {rule : String} {error : GraphError}
    (busy : ∀ sweep ∈ earlier, Busy sweep) (used : earlier.length < allowed)
    (found : last.findSome? (Trial.fault? verify) = some (rule, error)) :
    Ends verify allowed (earlier ++ [last]) (.verificationFailed rule error)

namespace Ends

variable {verify : Bool} {allowed : Nat} {sweeps : List (List Trial)} {status : PassStatus}

theorem cons {sweep : List Trial} (hsweep : Busy sweep) (h : Ends verify allowed sweeps status) :
    Ends verify (allowed + 1) (sweep :: sweeps) status := by
  cases h with
  | cap busy used => exact .cap (List.forall_mem_cons.2 ⟨hsweep, busy⟩) (congrArg Nat.succ used)
  | idle earlier busy used done =>
    exact .idle (sweep :: earlier) (List.forall_mem_cons.2 ⟨hsweep, busy⟩) (Nat.succ_lt_succ used) done
  | fault earlier busy used found =>
    exact .fault (sweep :: earlier) (List.forall_mem_cons.2 ⟨hsweep, busy⟩) (Nat.succ_lt_succ used) found

theorem length_le (h : Ends verify allowed sweeps status) : sweeps.length ≤ allowed := by
  cases h with
  | cap _ used => exact Nat.le_of_eq used
  | idle _ _ used _ => simpa using Nat.succ_le_of_lt used
  | fault _ _ used _ => simpa using Nat.succ_le_of_lt used

theorem converged_iff (h : Ends verify allowed sweeps status) :
    status = .converged ↔ ∃ earlier last, sweeps = earlier ++ [last] ∧ ¬ Busy last := by
  constructor
  · rintro rfl
    cases h with
    | idle _ _ _ done => exact ⟨_, _, rfl, done⟩
  · rintro ⟨earlier, last, hsplit, hidle⟩
    cases h with
    | cap busy _ => exact absurd (busy last (hsplit ▸ List.mem_append_right _ (List.mem_singleton_self last))) hidle
    | idle _ _ _ _ => rfl
    | fault _ _ _ found =>
      obtain ⟨-, hlast⟩ := List.append_inj' hsplit rfl
      obtain rfl := List.singleton_inj.1 hlast
      exact absurd (busy_of_findSome? found) hidle

theorem of_cap (h : Ends verify allowed sweeps .iterationCapExceeded) :
    sweeps.length = allowed ∧ ∀ sweep ∈ sweeps, Busy sweep := by
  cases h with
  | cap busy used => exact ⟨used, busy⟩

theorem busy_earlier (h : Ends verify allowed sweeps status) {earlier : List (List Trial)} {last : List Trial}
    (hsplit : sweeps = earlier ++ [last]) : ∀ sweep ∈ earlier, Busy sweep := by
  cases h with
  | cap busy _ => exact fun sweep hsweep => busy sweep (hsplit ▸ List.mem_append_left _ hsweep)
  | idle _ busy _ _ => exact (List.append_inj' hsplit rfl).1 ▸ busy
  | fault _ busy _ _ => exact (List.append_inj' hsplit rfl).1 ▸ busy

end Ends

theorem length_le_countP : ∀ {sweeps : List (List Trial)}, (∀ sweep ∈ sweeps, Busy sweep) →
    sweeps.length ≤ sweeps.flatten.countP Trial.isApplied
  | [], _ => Nat.le_refl 0
  | sweep :: sweeps, h => by
    obtain ⟨hsweep, hsweeps⟩ := List.forall_mem_cons.1 h
    have hrest := length_le_countP hsweeps
    have hfirst : 0 < sweep.countP Trial.isApplied := List.countP_pos_iff.2 hsweep
    rw [List.length_cons, List.flatten_cons, List.countP_append]
    omega

/-- Every sweep but the last one is paid for by an application. -/
theorem Ends.length_le_countP {verify : Bool} {allowed : Nat} {sweeps : List (List Trial)} {status : PassStatus}
    (h : Ends verify allowed sweeps status) : sweeps.length ≤ sweeps.flatten.countP Trial.isApplied + 1 := by
  have hdropped : ∀ (earlier : List (List Trial)) (last : List Trial), (∀ sweep ∈ earlier, Busy sweep) →
      (earlier ++ [last]).length ≤ (earlier ++ [last]).flatten.countP Trial.isApplied + 1 := fun earlier last hbusy => by
    have := Pass.length_le_countP hbusy
    rw [List.length_append, List.flatten_append, List.countP_append, List.length_singleton]
    omega
  cases h with
  | cap busy _ => exact Nat.le_succ_of_le (Pass.length_le_countP busy)
  | idle _ busy _ _ => exact hdropped _ _ busy
  | fault _ busy _ _ => exact hdropped _ _ busy

/-- **A run is accounted for**, and so is the status that it ends with. -/
theorem accounted_sweepUntilStable (pass : Pass) : ∀ (left made : Nat) (s : PassRun), s.failure = none →
    Accounted s (pass.sweeps left s.graph).flatten (pass.sweepUntilStable left made s).1 ∧
      (pass.sweepUntilStable left made s).2.1 = made + (pass.sweeps left s.graph).length ∧
      Ends pass.options.verifyAfterRewrite left (pass.sweeps left s.graph) (pass.sweepUntilStable left made s).2.2
  | 0, made, s, _ => ⟨.refl s, rfl, .cap (fun _ h => absurd h List.not_mem_nil) rfl⟩
  | left + 1, made, s, hs => by
    obtain ⟨hsweep, hfailure⟩ := pass.accounted_sweep hs
    rw [sweepUntilStable, sweeps]
    simp only [hfailure]
    cases hfault : (pass.trials s.graph).findSome? (Trial.fault? pass.options.verifyAfterRewrite) with
    | some fault =>
      rw [Option.isNone_some, Bool.false_and, if_neg Bool.false_ne_true, List.flatten_singleton]
      exact ⟨hsweep, rfl, .fault [] (fun _ h => absurd h List.not_mem_nil) (Nat.succ_pos left) hfault⟩
    | none =>
      rw [hfault] at hfailure
      by_cases hbusy : Busy (pass.trials s.graph)
      · have hcounted : (pass.sweep s).applied ≠ s.applied := by
          have := List.countP_pos_iff.2 hbusy
          rw [hsweep.applied]
          omega
        obtain ⟨hrest, hiterations, hends⟩ := accounted_sweepUntilStable pass left (made + 1) (pass.sweep s) hfailure
        rw [hsweep.graph] at hrest hiterations hends
        rw [if_neg hcounted, Option.isNone_none, Bool.true_and, if_pos (List.any_eq_true.2 hbusy)]
        refine ⟨hsweep.trans hrest, ?_, hends.cons hbusy⟩
        rw [hiterations, List.length_cons]
        omega
      · have hidle : (pass.sweep s).applied = s.applied := by
          rw [hsweep.applied, List.countP_eq_zero.2 (fun a ha happlied => hbusy ⟨a, ha, happlied⟩), Nat.add_zero]
        rw [if_pos hidle, Option.isNone_none, Bool.true_and, if_neg (fun h => hbusy (List.any_eq_true.1 h)),
          List.flatten_singleton]
        exact ⟨hsweep, rfl, .idle [] (fun _ h => absurd h List.not_mem_nil) (Nat.succ_pos left) hbusy⟩

/-- **The report of a run tells the truth** about the attempts that were made. -/
theorem report_exact (pass : Pass) (g : Graph) :
    (pass.run g).2 = Trial.after g (pass.trail g).flatten ∧
    (pass.run g).1.iterations = (pass.trail g).length ∧
    (pass.run g).1.iterations ≤ pass.options.maxIterations ∧
    ((pass.run g).1.status = .converged ↔ ∃ earlier last, pass.trail g = earlier ++ [last] ∧ ¬ Busy last) ∧
    (∀ earlier last, pass.trail g = earlier ++ [last] → ∀ sweep ∈ earlier, Busy sweep) ∧
    (pass.run g).1.iterations ≤ (pass.run g).1.applied + 1 ∧
    ((pass.run g).1.status = .iterationCapExceeded → (pass.run g).1.iterations = pass.options.maxIterations ∧
      (pass.run g).1.iterations ≤ (pass.run g).1.applied) ∧
    (pass.run g).1.applied = (pass.trail g).flatten.countP Trial.isApplied ∧
    (∀ before a later, (pass.trail g).flatten = before ++ a :: later →
      a = a.rule.trial (Trial.after g before) a.root ∧
      (a.isApplied = true ↔ ∃ new, a.rule.Splices (Trial.after g before) a.root new a.graph)) ∧
    (∀ a ∈ (pass.trail g).flatten, ∀ reason, a.outcome = .rejected reason →
      ∃ e ∈ (pass.run g).1.rejected, e.rule = a.rule.name ∧ e.root = a.root) ∧
    (pass.run g).1.rejected.Sublist ((pass.trail g).flatten.filterMap Trial.rejection?) ∧
    ((pass.run g).1.rejected.map (fun e => (e.rule, e.root))).Nodup := by
  obtain ⟨haccount, hiterations, hends⟩ :=
    pass.accounted_sweepUntilStable pass.options.maxIterations 0 (.start g) rfl
  rw [Nat.zero_add] at hiterations
  have happlied : (pass.run g).1.applied = (pass.trail g).flatten.countP Trial.isApplied :=
    haccount.applied.trans (Nat.zero_add _)
  have hused : (pass.run g).1.iterations = (pass.trail g).length := hiterations
  have hstatus : Ends pass.options.verifyAfterRewrite pass.options.maxIterations (pass.trail g) (pass.run g).1.status :=
    hends
  refine ⟨haccount.graph, hused, hused ▸ hstatus.length_le, hstatus.converged_iff, fun earlier last => hstatus.busy_earlier,
    ?_, fun hcap => ?_, happlied, fun before a later hsplit => ?_, haccount.listed, ?_, haccount.distinct .nil⟩
  · rw [hused, happlied]
    exact hstatus.length_le_countP
  · obtain ⟨hlength, hbusy⟩ := (hcap ▸ hstatus).of_cap
    rw [hused, happlied]
    exact ⟨hlength, length_le_countP hbusy⟩
  · have hsuccessive : Trial.Successive g (pass.trail g).flatten := haccount.successive
    have hmade := (hsplit ▸ hsuccessive).eq_trial
    refine ⟨hmade, ?_⟩
    rw [hmade]
    exact Trial.isApplied_trial_iff
  · obtain ⟨new, hnew, hsub⟩ := haccount.earned
    have hrejected : (pass.run g).1.rejected = new := hnew
    exact hrejected ▸ hsub

end Pass
end TensorGraph
