import TensorGraph.Proofs.Graph.Cascade
import TensorGraph.Proofs.Graph.Downstream
import TensorGraph.Proofs.Rewrite.Apply
import TensorGraph.Proofs.Rewrite.Edit
/-!
# Frame — what an application leaves alone

An old node reads the replacement where it read the root, and is otherwise as it was or gone; the
nodes that were added have identifiers above all old ones.  Types change downstream of the readers
that were moved.  The first of them on a path of the new graph is reached through nodes whose inputs
have stayed, so a path that leads there now did so before: to be downstream of a moved reader means
the same before and after.

The collector removes no parameter, so none disappears from the list of parameters.
-/
namespace TensorGraph

open TensorGraph.Graph
open Relation (ReflTransGen)

namespace Graph

theorem Reads.mem_nodesFrom_iff {g : Graph} {u : Use} {v : ValueId} (h : g.Reads u v) {mark : Nat} :
    u.node ∈ g.nodesFrom mark ↔ mark ≤ u.node.index := by
  obtain ⟨n, hn⟩ := h.exists_node
  rw [Atop.mem_nodesFrom, hn]
  simp

/-- An old node depends in a graph that has grown on what it depended on before. -/
theorem Extends.dependsOn_old {g h : Graph} (hgh : Extends g h) (hg : g.WellFormed) {a b : NodeId}
    (ha : a.index < g.nodeSlots) (hab : h.DependsOn a b) : g.DependsOn a b := by
  obtain ⟨n, v, val, hn, hv, hval, rfl⟩ := dependsOn_iff.1 hab
  rw [hgh.node?_old ha] at hn
  obtain ⟨old, hold⟩ := Option.isSome_iff_exists.1 (hg.input_live hn hv)
  obtain ⟨more, -, hgrown⟩ := hgh.value?_of_value? hold
  obtain rfl := Option.some.inj (hval.symm.trans hgrown)
  exact dependsOn_iff.2 ⟨n, v, old, hn, hv, hold, rfl⟩

theorem Extends.path_old {g h : Graph} (hgh : Extends g h) (hg : g.WellFormed) {a b : NodeId}
    (ha : a.index < g.nodeSlots) (hpath : ReflTransGen h.DependsOn a b) : ReflTransGen g.DependsOn a b := by
  induction hpath using ReflTransGen.head_induction_on with
  | refl => exact .refl
  | @head a c hac _ ih =>
    have hold := hgh.dependsOn_old hg ha hac
    obtain ⟨n, hn⟩ := hg.node_of_dependsOn hold
    exact (ih (node?_lt hn)).head hold

/-- **What is downstream of the moved readers was so before the redirection.** -/
theorem Downstream.of_redirect {g : Graph} (hg : g.WellFormed) {source target : ValueId} (hne : source ≠ target)
    {keep : List NodeId} {a : NodeId}
    (h : (g.redirect source target keep).2.Downstream ((g.movedUses source keep).map Use.node) a) :
    g.Downstream ((g.movedUses source keep).map Use.node) a := by
  obtain ⟨s, hs, hpath⟩ := h
  obtain ⟨c, hc, hfirst⟩ := @exists_first _ _ (· ∈ (g.movedUses source keep).map Use.node) _ _ hpath hs
  refine ⟨c, hc, hfirst.lift id (fun x y hxy => ?_)⟩
  exact (dependsOn_redirect hg hne hxy.1).resolve_right (fun hmoved => hxy.2 hmoved.1)

/-- **What an application leaves alone** when the root was replaced in `g` and `h` is left. -/
structure Framed (g : Graph) (root new : ValueId) (h : Graph) : Prop where
  /-- An old node that is left reads the replacement where it read the root. -/
  node : ∀ {id : NodeId} {old n : Node}, g.node? id = some old → h.node? id = some n →
    n = { old with inputs := old.inputs.map (swap root new) }
  results : h.results = g.results.map (swap root new)
  parameters : (∀ v ∈ g.parameters, ∃ n, g.producer? v = some n ∧ n.op.type = .parameter) → h.parameters = g.parameters
  added : ∀ {id : NodeId} {n : Node}, h.node? id = some n → g.node? id = none → g.nodeSlots ≤ id.index
  /-- Types are kept, save downstream of the readers of the root. -/
  type : ∀ {v : ValueId} {val : Value}, g.value? v = some val → (h.value? v).isSome = true →
    (∀ u, g.Reads u root → ¬ ReflTransGen g.DependsOn val.producer u.node) → h.type? v = g.type? v

end Graph

namespace Rule

variable {rule : Rule} {g : Graph} {rootId : ValueId}

namespace Spliced

variable {m : Match} {root : Value} {new : ValueId} {grown updated : Graph} {u : Use} {v : ValueId} {id : NodeId} {n : Node}

theorem producerId?_root (h : rule.Spliced g rootId m root new grown updated) :
    g.producerId? rootId = some root.producer := producerId?_eq_some h.root_live

theorem results_updated (h : rule.Spliced g rootId m root new grown updated) (hg : g.WellFormed) :
    updated.results = g.results.map (swap rootId new) := by
  rw [h.retyped.frame.results, results_redirect, (h.grown_of.extends hg).results]

theorem reads_updated (h : rule.Spliced g rootId m root new grown updated) (hg : g.WellFormed) : updated.Reads u v ↔
    (grown.Reads u v ∧ (v = rootId → u.node ∈ grown.nodesFrom g.nodeSlots)) ∨
      (v = new ∧ grown.Reads u rootId ∧ u.node ∉ grown.nodesFrom g.nodeSlots) :=
  h.retyped.sameEdges.reads_iff.trans (reads_redirect (h.grown_wellFormed hg))

/-- The old nodes read in the grown graph what they read before. -/
theorem reads_old (h : rule.Spliced g rootId m root new grown updated) (hg : g.WellFormed)
    (hold : u.node.index < g.nodeSlots) : grown.Reads u v ↔ g.Reads u v := by
  unfold Reads
  rw [(h.grown_of.extends hg).node?_old hold]

/-- The replacement is read in place of the root wherever the root was read before. -/
theorem reads_new_of_reads_root (h : rule.Spliced g rootId m root new grown updated) (hg : g.WellFormed)
    (hread : g.Reads u rootId) : updated.Reads u new := by
  have hold := hread.lt_nodeSlots
  have hgrown := (h.reads_old hg hold).2 hread
  exact (h.reads_updated hg).2 (Or.inr ⟨rfl, hgrown, fun hmem => Nat.not_le.2 hold (hgrown.mem_nodesFrom_iff.1 hmem)⟩)

/-- A node that is still there does what it did, and has the outputs that it had. -/
theorem node_updated (h : rule.Spliced g rootId m root new grown updated) (hg : g.WellFormed) {id : NodeId} {n : Node}
    (hn : updated.node? id = some n) : ∃ old, grown.node? id = some old ∧ n.op = old.op ∧ n.outputs = old.outputs := by
  rw [h.retyped.node?_eq] at hn
  obtain ⟨old, hold, rfl⟩ := node?_of_redirect (h.grown_wellFormed hg) hn
  exact ⟨old, hold, rfl, rfl⟩

/-- An old node is still there before the dead are removed, and reads the replacement in place of the root. -/
theorem node?_updated (h : rule.Spliced g rootId m root new grown updated) (hg : g.WellFormed)
    (hn : g.node? id = some n) : updated.node? id = some { n with inputs := n.inputs.map (swap rootId new) } := by
  have hkept : id ∉ grown.nodesFrom g.nodeSlots := fun hmem =>
    Nat.not_le.2 (node?_lt hn) (Atop.mem_nodesFrom.1 hmem).1
  rw [h.retyped.node?_eq, node?_redirect_of (h.grown_wellFormed hg) ((h.grown_of.extends hg).node?_of_node? hn),
    if_neg hkept]

theorem value?_moved (h : rule.Spliced g rootId m root new grown updated) (hg : g.WellFormed) {val : Value}
    (hv : g.value? v = some val) : ∃ moved, moved.producer = val.producer ∧
      (grown.redirect rootId new (grown.nodesFrom g.nodeSlots)).2.value? v = some moved := by
  obtain ⟨more, -, hgrown⟩ := (h.grown_of.extends hg).value?_of_value? hv
  obtain ⟨moved, hmoved, hp, -⟩ := value?_redirect_of h.ne.symm hgrown
  exact ⟨moved, hp, hmoved⟩

/-- An old value is still there, and is the output that it was. -/
theorem value?_updated (h : rule.Spliced g rootId m root new grown updated) (hg : g.WellFormed) {val : Value}
    (hv : g.value? v = some val) : ∃ now, updated.value? v = some now ∧ now.producer = val.producer := by
  obtain ⟨moved, hp, hmoved⟩ := h.value?_moved hg hv
  have hproducer := h.retyped.producerId? v
  rw [producerId?_eq_some hmoved, hp] at hproducer
  exact Option.map_eq_some_iff.1 hproducer

theorem parameters_updated (h : rule.Spliced g rootId m root new grown updated) (hg : g.WellFormed) :
    updated.parameters = g.parameters := by
  rw [h.retyped.frame.parameters, parameters_redirect, (h.grown_of.extends hg).parameters]

/-- **Types change downstream of the readers of the root only.** -/
theorem type?_updated (h : rule.Spliced g rootId m root new grown updated) (hg : g.WellFormed) {val : Value}
    (hv : g.value? v = some val) (hdown : ∀ u, g.Reads u rootId → ¬ ReflTransGen g.DependsOn val.producer u.node) :
    updated.type? v = g.type? v := by
  have hgg := h.grown_of.extends hg
  have hgrown := h.grown_wellFormed hg
  obtain ⟨more, -, hval⟩ := hgg.value?_of_value? hv
  obtain ⟨moved, hp, hmoved⟩ := h.value?_moved hg hv
  have hseeds : ∀ id ∈ (grown.movedUses rootId (grown.nodesFrom g.nodeSlots)).map Use.node,
      ((grown.redirect rootId new (grown.nodesFrom g.nodeSlots)).2.node? id).isSome = true := by
    intro id hid
    obtain ⟨u, hu, rfl⟩ := List.mem_map.1 hid
    obtain ⟨n, hn⟩ := ((mem_movedUses hgrown).1 hu).1.exists_node
    rw [node?_redirect_of hgrown hn]
    rfl
  rw [type?_propagate (h.moved_wellFormed hg) hseeds h.propagated hmoved, type?_redirect h.ne.symm, type?, type?, hval, hv]
  · rfl
  rintro hmovedDown
  obtain ⟨s, hs, hpath⟩ := hmovedDown.of_redirect hgrown h.ne.symm
  obtain ⟨u, hu, rfl⟩ := List.mem_map.1 hs
  obtain ⟨hread, hkept⟩ := (mem_movedUses hgrown).1 hu
  obtain ⟨n, hn, -⟩ := hg.produced hv
  have hold : u.node.index < g.nodeSlots := Nat.lt_of_not_le (fun hle => hkept (hread.mem_nodesFrom_iff.2 hle))
  exact hdown u ((h.reads_old hg hold).1 hread) (hgg.path_old hg (node?_lt hn) (hp ▸ hpath))

end Spliced

/-- **The frame of an application**: an old node that is left has its operation, its name and its outputs, and its inputs
but for the replacement in place of the root; so have the results.  The parameters stay if they are parameters, what is
new has a new identifier, and types change downstream of the readers of the root only. -/
theorem framed_of_applied (hg : g.WellFormed) {new : ValueId} {final : Graph}
    (h : rule.applyAt g rootId = (.applied new, final)) : Framed g rootId new final := by
  obtain ⟨m, root, grown, updated, hs, rfl⟩ := applyAt_eq_applied_iff.1 h
  have hw := without_removeDead (hs.updated_wellFormed hg) (root.producer :: grown.nodesFrom g.nodeSlots)
  refine ⟨fun {id old n} hold hn => ?_, hw.results.trans (hs.results_updated hg), fun hparameters => ?_,
    fun {id n} hn hnone => ?_, fun {v val} hv hlive hdown => ?_⟩
  · have hn := (hw.node?_eq_some.1 hn).2
    rw [hs.node?_updated hg hold] at hn
    exact (Option.some.inj hn).symm
  · rw [hw.parameters, hs.parameters_updated hg]
    refine List.filter_eq_self.2 (fun v hv => ?_)
    obtain ⟨n, hn, hkind⟩ := hparameters v hv
    obtain ⟨val, hval, hnode⟩ := producer?_eq_some hn
    obtain ⟨now, hnow, hp⟩ := hs.value?_updated hg hval
    rw [hw.value?_eq_some.2 ⟨now, hnow, fun hgone => ?_, rfl⟩]
    · rfl
    obtain ⟨n', hn', hkind', -⟩ := expendable_of_removed (hs.updated_wellFormed hg) hgone
    rw [hp, hs.node?_updated hg hnode] at hn'
    exact hkind' (Option.some.inj hn' ▸ hkind)
  · obtain ⟨old, hold, -⟩ := hs.node_updated hg (hw.node?_eq_some.1 hn).2
    by_contra hlt
    rw [(hs.grown_of.extends hg).node?_old (Nat.lt_of_not_le hlt), hnone] at hold
    cases hold
  · exact (hw.type?_eq hlive).trans (hs.type?_updated hg hv hdown)

/-- A rectified vector of unknown size is a result, and so are its sigmoid and its absolute value. -/
def activations : Graph :=
  [Edit.addParameter none ⟨.f32, .ofRank 1⟩, .addParameter none ⟨.f32, .ofSizes [3]⟩,
    .addValue none (.unary .relu) [⟨0⟩], .addValue none (.unary .sigmoid) [⟨2⟩], .addValue none (.unary .abs) [⟨0⟩],
    .setResults [⟨2⟩, ⟨3⟩, ⟨4⟩]].foldl Edit.apply (.empty .full)

/-- Add a vector of known size to a rectified one. -/
def offset : Rule :=
  ⟨"Offset", ⟨#[.op [.unary .relu] [] true], ⟨0⟩⟩,
    fun m => Construction.orInvalid (Construction.addValue none (.binary .add .numpy) [m.root, ⟨1⟩])⟩

/-- The sum keeps reading the rectified vector; the sigmoid reads the sum now, and has its type.  The absolute value is
not downstream of the sigmoid. -/
theorem framed_activations : activations.WellFormed ∧ ∃ final, offset.applyAt activations ⟨2⟩ = (.applied ⟨5⟩, final) ∧
    Framed activations ⟨2⟩ ⟨5⟩ final ∧ final.results = [⟨5⟩, ⟨3⟩, ⟨4⟩] ∧ final.parameters = [⟨0⟩, ⟨1⟩] ∧
    final.inputsOf ⟨5⟩ = [⟨2⟩, ⟨1⟩] ∧ final.inputsOf ⟨3⟩ = [⟨5⟩] ∧
    final.type? ⟨3⟩ = some ⟨.f32, .ofSizes [3]⟩ ∧ final.type? ⟨4⟩ = some ⟨.f32, .ofRank 1⟩ := by
  have hg : activations.WellFormed := wellFormed_edits _ (wellFormed_empty _)
  have hout : (offset.applyAt activations ⟨2⟩).1 = .applied ⟨5⟩ := by decide +kernel
  have happlied : offset.applyAt activations ⟨2⟩ = (.applied ⟨5⟩, (offset.applyAt activations ⟨2⟩).2) := Prod.ext hout rfl
  have hframed := framed_of_applied hg happlied
  have hkinds : ∀ v ∈ activations.parameters, ((activations.producer? v).map (·.op.type)) = some .parameter := by
    decide +kernel
  refine ⟨hg, _, happlied, hframed, hframed.results.trans (by decide +kernel), ?_, by decide +kernel, by decide +kernel,
    by decide +kernel, by decide +kernel⟩
  exact (hframed.parameters (fun v hv => Option.map_eq_some_iff.1 (hkinds v hv))).trans (by decide +kernel)

end Rule
end TensorGraph
