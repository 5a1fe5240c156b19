import TensorGraph.Proofs.Graph.Verify
import TensorGraph.Proofs.Rewrite.Run
/-!
# Edits — every graph that can be built is well formed

An `Edit` is one public operation on a graph, with whatever arguments.  An operation that is
refused leaves the graph as it was.  Each edit keeps a graph well formed, the empty graph is
well formed, and so is every graph in between, during a run of a pass as well.
-/
namespace TensorGraph

/-- One operation on a graph. -/
inductive Edit where
  | addParameter (name : Option String) (type : TensorType)
  | addConstant (name : Option String) (c : Constant)
  | addValue (name : Option String) (op : Op) (inputs : List ValueId)
  | setResults (results : List ValueId)
  | setOp (id : NodeId) (op : Op)
  | revalidate (id : NodeId)
  | inferAll
  | prune
  | run (pass : Pass)

namespace Edit

/-- The graph that an operation answers with, or the one before if it was refused. -/
def kept {ε : Type} (g : Graph) : Except ε Graph → Graph
  | .ok h => h
  | .error _ => g

/-- Carry an edit out. -/
def apply (g : Graph) : Edit → Graph
  | addParameter name type => kept g ((g.addParameter name type).map Prod.snd)
  | addConstant name c => kept g ((g.addConstant name c).map Prod.snd)
  | addValue name op inputs => kept g ((g.addValue name op inputs).map Prod.snd)
  | setResults results => kept g (g.setResults results)
  | setOp id op => g.setOp id op
  | revalidate id => kept g (g.revalidate id)
  | inferAll => kept g g.inferAll
  | prune => g.prune.1
  | run pass => (pass.run g).2

end Edit

namespace Graph

variable {g : Graph}

theorem wellFormed_empty (registry : Registry) : (empty registry).WellFormed := by
  have hnode : ∀ id, (empty registry).node? id = none := fun _ => rfl
  have hvalue : ∀ v, (empty registry).value? v = none := fun _ => rfl
  refine ⟨fun hn => ?_, fun hv => ?_, fun hn => ?_, fun hv => ?_, fun hv => ?_, fun v hv => ?_, fun v hv => ?_,
    fun a ha => ?_⟩
  · rw [hnode] at hn
    cases hn
  · rw [hvalue] at hv
    cases hv
  · rw [hnode] at hn
    cases hn
  · rw [hvalue] at hv
    cases hv
  · rw [hvalue] at hv
    cases hv
  · cases hv
  · cases hv
  · obtain ⟨b, hab, -⟩ := Relation.TransGen.head'_iff.1 ha
    obtain ⟨n, -, -, hn, -⟩ := dependsOn_iff.1 hab
    rw [hnode] at hn
    cases hn

theorem kept_induct {ε : Type} {P : Graph → Prop} {answer : Except ε Graph} (hg : P g)
    (hok : ∀ h, answer = .ok h → P h) : P (Edit.kept g answer) := by
  cases answer with
  | error e => exact hg
  | ok h => exact hok h rfl

/-! ## What an edit that was not refused has done -/

theorem addValue_eq_ok {name : Option String} {op : Op} {inputs : List ValueId} {h : Graph}
    (hadd : (g.addValue name op inputs).map Prod.snd = .ok h) : ∃ id v, g.insert name op inputs = .ok (id, v, h) := by
  unfold addValue at hadd
  cases hins : g.insert name op inputs with
  | error e =>
    rw [hins] at hadd
    cases hadd
  | ok r =>
    obtain ⟨id, v, k⟩ := r
    rw [hins] at hadd
    obtain rfl := Except.ok.inj hadd
    exact ⟨id, v, rfl⟩

theorem addParameter_eq_ok {name : Option String} {type : TensorType} {h : Graph}
    (hadd : (g.addParameter name type).map Prod.snd = .ok h) : ∃ id v k,
      g.insert name (.parameter type) [] = .ok (id, v, k) ∧ h = { k with parameters := k.parameters ++ [v] } := by
  unfold addParameter at hadd
  cases hins : g.insert name (.parameter type) [] with
  | error e =>
    rw [hins] at hadd
    cases hadd
  | ok r =>
    obtain ⟨id, v, k⟩ := r
    rw [hins] at hadd
    exact ⟨id, v, k, rfl, (Except.ok.inj hadd).symm⟩

theorem setResults_eq_ok {results : List ValueId} {h : Graph} (hset : g.setResults results = .ok h) :
    (∀ v ∈ results, (g.value? v).isSome = true) ∧ h = { g with results := results } := by
  unfold setResults at hset
  split at hset
  · cases hset
  rename_i hnone
  refine ⟨fun v hv => ?_, (Except.ok.inj hset).symm⟩
  have hlive := List.find?_eq_none.1 hnone v hv
  simpa [Option.isSome_iff_ne_none] using hlive

theorem revalidate_eq_ok {id : NodeId} {h : Graph} (hrev : g.revalidate id = .ok h) :
    (g.node? id).isSome = true ∧ g.propagate [id] = .ok h := by
  unfold revalidate at hrev
  split at hrev
  · cases hrev
  rename_i hlive
  exact ⟨by simpa [Option.isSome_iff_ne_none] using hlive, hrev⟩

theorem value?_insert_isSome {name : Option String} {op : Op} {inputs : List ValueId} {id : NodeId} {v : ValueId}
    {h : Graph} (hins : g.insert name op inputs = .ok (id, v, h)) : (h.value? v).isSome = true := by
  obtain ⟨types, -, -, hne, -, rfl, rfl⟩ := insert_eq_ok hins
  have hnew := value?_appendNode_new g name op inputs types 0
  rw [Nat.add_zero] at hnew
  rw [hnew]
  cases types with
  | nil => exact absurd rfl hne
  | cons type types => rfl

/-! ## Well-formedness -/

theorem wellFormed_addValue (hg : g.WellFormed) {name : Option String} {op : Op} {inputs : List ValueId} {h : Graph}
    (hadd : (g.addValue name op inputs).map Prod.snd = .ok h) : h.WellFormed := by
  obtain ⟨id, v, hins⟩ := addValue_eq_ok hadd
  exact wellFormed_insert hg hins

theorem wellFormed_addParameter (hg : g.WellFormed) {name : Option String} {type : TensorType} {h : Graph}
    (hadd : (g.addParameter name type).map Prod.snd = .ok h) : h.WellFormed := by
  obtain ⟨id, v, k, hins, rfl⟩ := addParameter_eq_ok hadd
  have hk : k.WellFormed := wellFormed_insert hg hins
  have hlive : (k.value? v).isSome = true := value?_insert_isSome hins
  refine { hk with parameter_live := fun w hw => ?_ }
  rcases List.mem_append.1 hw with hw | hw
  · exact hk.parameter_live w hw
  · rw [List.mem_singleton.1 hw]
    exact hlive

theorem wellFormed_setResults (hg : g.WellFormed) {results : List ValueId} {h : Graph}
    (hset : g.setResults results = .ok h) : h.WellFormed := by
  obtain ⟨hlive, rfl⟩ := setResults_eq_ok hset
  exact { hg with result_live := hlive }

theorem wellFormed_revalidate (hg : g.WellFormed) {id : NodeId} {h : Graph} (hrev : g.revalidate id = .ok h) :
    h.WellFormed := (propagate_retyped (revalidate_eq_ok hrev).2).wellFormed hg

/-- **Applying rules keeps a graph well formed, and no check of it fails.** -/
theorem wellFormed_follow (pass : Pass) (hg : g.WellFormed) (log : List (Rule × ValueId))
    (hlog : ∀ e ∈ log, e.1 ∈ pass.rules) :
    (pass.follow g log).graph.WellFormed ∧ (pass.follow g log).failure = none := by
  refine PassRun.follow_induct (P := fun s => s.graph.WellFormed ∧ s.failure = none) ?_ log _ hlog ⟨hg, rfl⟩
  intro s rule root _ hs
  have hafter : (rule.applyAt s.graph root).2.WellFormed := Rule.wellFormed_applyAt hs.1
  refine ⟨?_, PassRun.failure_applyRule hs.2 (verify_eq_ok hafter)⟩
  rw [PassRun.graph_applyRule]
  exact hafter

theorem wellFormed_run (pass : Pass) (hg : g.WellFormed) : (pass.run g).2.WellFormed := by
  obtain ⟨log, hlog, heq, -⟩ := pass.run_eq_follow g
  rw [heq]
  exact (wellFormed_follow pass hg log hlog).1

theorem status_run_ne_verificationFailed (pass : Pass) (hg : g.WellFormed) (rule : String) (error : GraphError) :
    (pass.run g).1.status ≠ .verificationFailed rule error := by
  intro hfail
  obtain ⟨log, hlog, -, -, -, hstatus⟩ := pass.run_eq_follow g
  have hnone := (wellFormed_follow pass hg log hlog).2
  rw [hstatus rule error hfail] at hnone
  cases hnone

/-- **Every edit keeps a graph well formed.** -/
theorem wellFormed_edit (hg : g.WellFormed) : ∀ e : Edit, (e.apply g).WellFormed
  | .addParameter _ _ => kept_induct hg (fun _ => wellFormed_addParameter hg)
  | .addConstant _ _ => kept_induct hg (fun _ => wellFormed_addValue hg)
  | .addValue _ _ _ => kept_induct hg (fun _ => wellFormed_addValue hg)
  | .setResults _ => kept_induct hg (fun _ => wellFormed_setResults hg)
  | .setOp id op => (SameEdges.setOp g id op).wellFormed hg
  | .revalidate _ => kept_induct hg (fun _ => wellFormed_revalidate hg)
  | .inferAll => kept_induct hg (fun _ h => (propagate_retyped h).wellFormed hg)
  | .prune => wellFormed_prune hg
  | .run pass => wellFormed_run pass hg

theorem wellFormed_edits : ∀ (edits : List Edit) {g : Graph}, g.WellFormed → (edits.foldl Edit.apply g).WellFormed
  | [], _, hg => hg
  | e :: edits, _, hg => wellFormed_edits edits (wellFormed_edit hg e)

/-- **Every graph that operations build from the empty one is well formed**, so its check succeeds, and so does
every check that a pass makes on the way. -/
theorem wellFormed_of_edits (registry : Registry) (edits : List Edit) :
    (edits.foldl Edit.apply (empty registry)).WellFormed ∧
      (edits.foldl Edit.apply (empty registry)).verify = .ok () ∧
      ∀ (pass : Pass) (rule : String) (error : GraphError),
        (pass.run (edits.foldl Edit.apply (empty registry))).1.status ≠ .verificationFailed rule error := by
  have hg := wellFormed_edits edits (wellFormed_empty registry)
  exact ⟨hg, verify_eq_ok hg, fun pass => status_run_ne_verificationFailed pass hg⟩

end Graph
end TensorGraph
