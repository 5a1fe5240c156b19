import TensorGraph.Proofs.Graph.Cascade
import TensorGraph.Proofs.Rewrite.Edit
/-!
# Parameters — they read nothing

Insertion refuses a parameter that has inputs, and nothing that comes later gives a node inputs that
had none.  Only the assignment of an operation can turn a node with inputs into a parameter, so every
graph that is built without it has parameters that read nothing.
-/
namespace TensorGraph

open TensorGraph.Graph

namespace Graph

/-- Parameters have no inputs. -/
def ParametersReadNothing (g : Graph) : Prop :=
  ∀ id n, g.node? id = some n → n.op.type = .parameter → n.inputs = []

instance (g : Graph) : Decidable g.ParametersReadNothing :=
  decidable_of_iff (∀ id ∈ g.nodeIds, ∀ n ∈ g.node? id, n.op.type = .parameter → n.inputs = [])
    ⟨fun h id n hn => h id (mem_nodeIds.2 (by rw [hn]; rfl)) n hn, fun h id _ n hn => h id n hn⟩

variable {g h : Graph}

theorem ParametersReadNothing.of_node? (hg : g.ParametersReadNothing)
    (hnode : ∀ {id : NodeId} {n : Node}, h.node? id = some n → g.node? id = some n) : h.ParametersReadNothing :=
  fun id n hn => hg id n (hnode hn)

/-- **What was added keeps to it**, since the arity of a parameter is zero. -/
theorem Grown.parametersReadNothing (hgh : Grown g h) (hwf : g.WellFormed) (hg : g.ParametersReadNothing) :
    h.ParametersReadNothing := by
  intro id n hn hkind
  by_cases hnew : g.nodeSlots ≤ id.index
  · exact hgh.inputs_of_parameter hn hnew hkind
  · rw [(hgh.extends hwf).node?_old (Nat.lt_of_not_le hnew)] at hn
    exact hg id n hn hkind

theorem parametersReadNothing_redirect (hwf : g.WellFormed) (hg : g.ParametersReadNothing) (source target : ValueId)
    (keep : List NodeId) : (g.redirect source target keep).2.ParametersReadNothing := by
  intro id n hn hkind
  obtain ⟨old, hold, rfl⟩ := node?_of_redirect hwf hn
  simp [hg id old hold hkind]

theorem parametersReadNothing_prune (hg : g.ParametersReadNothing) : g.prune.1.ParametersReadNothing :=
  prune_induct (fun _ _ _ h _ _ => h.of_node? (fun hn => (node?_of_takeOut hn).2)) hg

end Graph

namespace Rule

variable {rule : Rule} {g : Graph} {rootId : ValueId}

theorem Spliced.parametersReadNothing {m : Match} {root : Value} {new : ValueId} {grown updated : Graph}
    (h : rule.Spliced g rootId m root new grown updated) (hwf : g.WellFormed) (hg : g.ParametersReadNothing) :
    updated.ParametersReadNothing := by
  have hgrown := h.grown_of.parametersReadNothing hwf hg
  have hmoved := parametersReadNothing_redirect (h.grown_wellFormed hwf) hgrown rootId new (grown.nodesFrom g.nodeSlots)
  exact hmoved.of_node? (fun {id n} hn => (h.retyped.node?_eq id).symm.trans hn)

theorem parametersReadNothing_applyAt (hwf : g.WellFormed) (hg : g.ParametersReadNothing) :
    (rule.applyAt g rootId).2.ParametersReadNothing := by
  refine applyAt_cases hwf (fun n m => ?_) (fun _ root _ grown updated hs => ?_)
  · exact hg.of_node? (fun {id k} hk => (g.node?_spend n m id).symm.trans hk)
  · have hw := without_removeDead (hs.updated_wellFormed hwf) (root.producer :: grown.nodesFrom g.nodeSlots)
    exact (hs.parametersReadNothing hwf hg).of_node? hw.thinned.node?

end Rule

namespace Graph

variable {g : Graph}

theorem parametersReadNothing_run (pass : Pass) (hwf : g.WellFormed) (hg : g.ParametersReadNothing) :
    (pass.run g).2.ParametersReadNothing := by
  obtain ⟨log, hlog, heq, -⟩ := pass.run_eq_follow g
  rw [heq]
  refine (PassRun.follow_induct (P := fun s => s.graph.WellFormed ∧ s.graph.ParametersReadNothing) ?_ log _ hlog
    ⟨hwf, hg⟩).2
  intro s rule root _ hs
  rw [PassRun.graph_applyRule]
  exact ⟨Rule.wellFormed_applyAt hs.1, Rule.parametersReadNothing_applyAt hs.1 hs.2⟩

theorem parametersReadNothing_edit (hwf : g.WellFormed) (hg : g.ParametersReadNothing) :
    ∀ e : Edit, (∀ id op, e ≠ .setOp id op) → (e.apply g).ParametersReadNothing
  | .addParameter _ _, _ => kept_induct hg (fun h hadd => by
    obtain ⟨id, v, k, hins, rfl⟩ := addParameter_eq_ok hadd
    exact ((Grown.insert .refl hins).parametersReadNothing hwf hg).of_node? (fun hn => hn))
  | .addConstant _ _, _ => kept_induct hg (fun h hadd => by
    obtain ⟨id, v, hins⟩ := addValue_eq_ok hadd
    exact (Grown.insert .refl hins).parametersReadNothing hwf hg)
  | .addValue _ _ _, _ => kept_induct hg (fun h hadd => by
    obtain ⟨id, v, hins⟩ := addValue_eq_ok hadd
    exact (Grown.insert .refl hins).parametersReadNothing hwf hg)
  | .setResults _, _ => kept_induct hg (fun h hset => by
    obtain ⟨-, rfl⟩ := setResults_eq_ok hset
    exact hg.of_node? (fun hn => hn))
  | .setOp id op, hne => absurd rfl (hne id op)
  | .revalidate _, _ => kept_induct hg (fun h hrev =>
    hg.of_node? (fun hn => ((propagate_retyped (revalidate_eq_ok hrev).2).node?_eq _).symm.trans hn))
  | .inferAll, _ => kept_induct hg (fun h hinf =>
    hg.of_node? (fun hn => ((propagate_retyped hinf).node?_eq _).symm.trans hn))
  | .prune, _ => parametersReadNothing_prune hg
  | .run pass, _ => parametersReadNothing_run pass hwf hg

/-- **In a graph that was built without assigning operations, parameters read nothing.** -/
theorem parametersReadNothing_of_edits (registry : Registry) : ∀ (edits : List Edit),
    (∀ e ∈ edits, ∀ id op, e ≠ .setOp id op) →
      (edits.foldl Edit.apply (empty registry)).ParametersReadNothing := by
  intro edits hne
  induction edits using List.reverseRecOn with
  | nil =>
    intro id n hn
    cases hn
  | append_singleton edits e ih =>
    rw [List.foldl_append, List.foldl_cons, List.foldl_nil]
    have hbefore := ih (fun e' he' => hne e' (List.mem_append_left _ he'))
    exact parametersReadNothing_edit (wellFormed_edits edits (wellFormed_empty registry)) hbefore e
      (hne e (List.mem_append_right _ List.mem_cons_self))

end Graph
end TensorGraph
