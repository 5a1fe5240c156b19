import TensorGraph.Proofs.Rewrite.Exchange
import TensorGraph.Proofs.Rewrite.Expansion
import TensorGraph.Proofs.Rewrite.Sweep
/-!
# Decomposition — a pass that leaves no composite operation that can be expanded

An expansion adds simple operations that read the inputs of the composite one and each other.  If it has the
type of the composite one, it takes its place and all types stay as they are; the composite node goes, and
with it those that served it alone.  What the expansion of another composite node comes to depends on its
operation and the types of its inputs, so nothing changes for the others, and no attempt makes new work.
-/
namespace TensorGraph

open TensorGraph.Graph
open Relation (ReflTransGen)

/-! ## Which composite operations are expanded -/

theorem Shape.beside_beside_eq_iff {s a b : Shape} :
    (s.beside a).beside b = s ↔ (a.isRanked = true ∧ b.isRanked = true) ∨ s.isRanked = false := by
  cases s <;> cases a <;> cases b <;> simp [beside, isRanked, dims?]

/-- A shape that is lost is not relaxed by the one that it was. -/
theorem Shape.beside_beside_of_relaxes {s a b : Shape} (h : s.relaxes ((s.beside a).beside b) = true) :
    (s.beside a).beside b = s := by
  cases s with
  | unknown => cases a <;> cases b <;> rfl
  | ranked ds => cases a <;> cases b <;> first | rfl | cases h

/-- **The expansion of the operation on inputs of these types has the type of the operation.** -/
def ExpandsAlike (op : Op) (types : List (Option TensorType)) : Prop :=
  op = .fusedMultiplyAdd ∨ op = .hardSigmoid ∧ ∃ tx ty tz, types = [some tx, some ty, some tz] ∧
    ConstantData.SplatsFloat tx.element ∧ (tx.shape.beside ty.shape).beside tz.shape = tx.shape

theorem Op.expansion?_ne_none {op : Op} : op.expansion? ≠ none ↔ op = .fusedMultiplyAdd ∨ op = .hardSigmoid := by
  cases op <;> simp [expansion?]

theorem ExpandsAlike.composite {op : Op} {types : List (Option TensorType)} (h : ExpandsAlike op types) :
    op.expansion? ≠ none :=
  Op.expansion?_ne_none.2 (h.imp_right And.left)

namespace Graph

variable {g h k : Graph} {src : List ValueId}

/-! ## What an expansion adds -/

/-- **The new nodes are simple operations that read the given values and each other.** -/
structure Confined (g : Graph) (src : List ValueId) (h : Graph) : Prop where
  valueSlots_le : g.valueSlots ≤ h.valueSlots
  node : ∀ {id : NodeId} {n : Node}, h.node? id = some n → g.nodeSlots ≤ id.index →
    n.op.expansion? = none ∧ ∀ v ∈ n.inputs, g.valueSlots ≤ v.index ∨ v ∈ src

theorem Confined.refl (g : Graph) (src : List ValueId) : Confined g src g :=
  ⟨Nat.le_refl _, fun hn hnew => absurd (node?_lt hn) (Nat.not_lt.2 hnew)⟩

/-- **Another simple operation on such values.** -/
theorem Confined.addValue (hgh : Confined g src h) {name : Option String} {op : Op} {inputs : List ValueId} {v : ValueId}
    (hrun : (Construction.addValue name op inputs).run.run h = (.ok v, k)) (hop : op.expansion? = none)
    (hin : ∀ w ∈ inputs, g.valueSlots ≤ w.index ∨ w ∈ src) :
    Confined g src k ∧ g.valueSlots ≤ v.index ∧ k.producer? v ≠ none ∧ ∀ p, k.producer? v = some p → p.op = op := by
  obtain ⟨id, hins⟩ := Construction.run_addValue_eq_ok.1 hrun
  obtain ⟨types, -, -, htypes, -, rfl, rfl⟩ := insert_eq_ok hins
  have hproducer : (h.appendNode name op inputs types).producer? ⟨h.valueSlots⟩ =
      some ⟨name, op, inputs, h.freshValues types.length⟩ := by
    obtain ⟨t, ts, rfl⟩ := List.exists_cons_of_ne_nil htypes
    have hval : (h.appendNode name op inputs (t :: ts)).value? ⟨h.valueSlots⟩ = some ⟨⟨h.nodeSlots⟩, 0, t, _⟩ :=
      h.value?_appendNode_new name op inputs (t :: ts) 0
    rw [producer?_eq hval, node?_appendNode, if_pos rfl]
  refine ⟨⟨?_, fun {id n} hn hnew => ?_⟩, hgh.valueSlots_le, by simp [hproducer], fun p hp => ?_⟩
  · rw [valueSlots_appendNode]
    exact Nat.le_trans hgh.valueSlots_le (Nat.le_add_right _ _)
  · rcases node?_appendNode_cases hn with ⟨-, rfl⟩ | hn
    · exact ⟨hop, hin⟩
    · exact hgh.node hn hnew
  · rw [hproducer] at hp
    rw [← Option.some.inj hp]

theorem confined_fusedMultiplyAddOf {x y z v : ValueId}
    (hrun : (Expansion.fusedMultiplyAddOf x y z).run.run g = (.ok v, h)) :
    Confined g [x, y, z] h ∧ g.valueSlots ≤ v.index ∧ ∀ p, h.producer? v = some p → p.op = .binary .add .numpy := by
  obtain ⟨product, g₁, hrun₁, hrun₂⟩ := Construction.run_bind_eq_ok.1 hrun
  obtain ⟨h₁, hproduct, -⟩ := (Confined.refl g [x, y, z]).addValue hrun₁ rfl (by simp)
  obtain ⟨h₂, hnew, -, hop⟩ := h₁.addValue hrun₂ rfl (by simp [hproduct])
  exact ⟨h₂, hnew, hop⟩

theorem confined_hardSigmoidOf {x y z v : ValueId} (hrun : (Expansion.hardSigmoidOf x y z).run.run g = (.ok v, h)) :
    Confined g [x, y, z] h ∧ g.valueSlots ≤ v.index ∧ ∀ p, h.producer? v = some p → p.op = .binary .minimum .numpy := by
  obtain ⟨_, _, _, _, _, _, _, _, _, _, _, _, _, -, -, -, hrun₁, hrun₂, hrun₃, hrun₄, hrun₅, hrun₆⟩ :=
    Expansion.run_hardSigmoidOf hrun
  obtain ⟨h₁, hzero, -⟩ := (Confined.refl g [x, y, z]).addValue hrun₁ rfl (by simp)
  obtain ⟨h₂, hone, -⟩ := h₁.addValue hrun₂ rfl (by simp)
  obtain ⟨h₃, hscaled, -⟩ := h₂.addValue hrun₃ rfl (by simp)
  obtain ⟨h₄, hshifted, -⟩ := h₃.addValue hrun₄ rfl (by simp [hscaled])
  obtain ⟨h₅, hlower, -⟩ := h₄.addValue hrun₅ rfl (by simp [hshifted, hzero])
  obtain ⟨h₆, hnew, -, hop⟩ := h₅.addValue hrun₆ rfl (by simp [hlower, hone])
  exact ⟨h₆, hnew, hop⟩

/-- **An expansion is confined to the inputs**, and its value is a new one that is not known before the graph runs. -/
theorem confined_of_expandsTo {op : Op} {inputs : List ValueId} {v : ValueId} (hexpand : g.ExpandsTo op inputs v h) :
    Confined g inputs h ∧ g.valueSlots ≤ v.index ∧ h.knownValue? v = none := by
  obtain ⟨expand, hop, hrun⟩ := hexpand
  rcases Op.expansion?_eq_some hop with ⟨rfl, rfl⟩ | ⟨rfl, rfl⟩
  · obtain ⟨x, y, z, rfl, hrun⟩ := Expansion.run_onThree hrun
    obtain ⟨hconfined, hnew, hproducer⟩ := confined_hardSigmoidOf hrun
    exact ⟨hconfined, hnew, knownValue?_eq_none (fun p hp => by rw [hproducer p hp]; rfl)⟩
  · obtain ⟨x, y, z, rfl, hrun⟩ := Expansion.run_onThree hrun
    obtain ⟨hconfined, hnew, hproducer⟩ := confined_fusedMultiplyAddOf hrun
    exact ⟨hconfined, hnew, knownValue?_eq_none (fun p hp => by rw [hproducer p hp]; rfl)⟩

/-- **A path from a new node to an old one leads through the producer of one of the values.** -/
theorem Confined.path_old (hgh : Confined g src h) (hg : g.WellFormed) (hgrown : Grown g h) {p a : NodeId}
    (hpath : ReflTransGen h.DependsOn p a) (hp : g.nodeSlots ≤ p.index) (ha : a.index < g.nodeSlots) :
    ∃ x ∈ src, ∃ b, g.producerId? x = some b ∧ ReflTransGen g.DependsOn b a := by
  have hh := hgrown.wellFormed hg
  have hext := hgrown.extends hg
  induction hpath using ReflTransGen.head_induction_on with
  | refl => exact absurd ha (Nat.not_lt.2 hp)
  | @head p c hpc hrest ih =>
    by_cases hc : g.nodeSlots ≤ c.index
    · exact ih hc
    have hc := Nat.lt_of_not_le hc
    obtain ⟨n, x, val, hn, hx, hval, rfl⟩ := dependsOn_iff.1 hpc
    have hold : x.index < g.valueSlots := by
      by_contra hnew
      exact Nat.not_le.2 hc (hext.nodeSlots_le_producer hg hh hval (Nat.le_of_not_lt hnew))
    obtain ⟨more, -, heq⟩ := hext.value?_old hold
    obtain ⟨val', hval', rfl⟩ := Option.map_eq_some_iff.1 (heq.symm.trans hval)
    refine ⟨x, ((hgh.node hn hp).2 x hx).resolve_left (Nat.not_le.2 hold), val'.producer, producerId?_eq_some hval', ?_⟩
    exact hext.path_old hg hc hrest

/-- A composite node does not read its own output, and neither does its expansion. -/
theorem Confined.lt_of_reads {n : Node} {v : ValueId} (hgh : Confined g n.inputs h) (hg : g.WellFormed)
    (hn : g.producer? v = some n) {u : Use} (hread : h.Reads u v) : u.node.index < g.nodeSlots := by
  obtain ⟨val, hval, hnode⟩ := producer?_eq_some hn
  obtain ⟨reader, hreader, hin⟩ := hread
  by_contra hnew
  rcases (hgh.node hreader (Nat.le_of_not_lt hnew)).2 v (List.mem_of_getElem? hin) with hfresh | hself
  · exact Nat.not_le.2 (value?_lt hval) hfresh
  · exact hg.acyclic val.producer (.single (dependsOn_iff.2 ⟨n, v, val, hnode, hself, hval, rfl⟩))

/-! ## What a decomposition keeps -/

/-- **Types are kept, and every composite node was there before**, with inputs of the same types. -/
structure Kept (g h : Graph) : Prop where
  registry : h.registry = g.registry
  valueSlots_le : g.valueSlots ≤ h.valueSlots
  type : ∀ {v : ValueId}, v.index < g.valueSlots → (h.value? v).isSome = true → h.type? v = g.type? v
  composite : ∀ {id : NodeId} {n : Node}, h.node? id = some n → n.op.expansion? ≠ none → ∃ old, g.node? id = some old ∧
    n.op = old.op ∧ n.outputs = old.outputs ∧ n.inputs.map h.type? = old.inputs.map g.type?

namespace Kept

theorem refl (g : Graph) : Kept g g := ⟨rfl, Nat.le_refl _, fun _ _ => rfl, fun hn _ => ⟨_, hn, rfl, rfl, rfl⟩⟩

theorem trans (hgh : Kept g h) (hhk : Kept h k) : Kept g k where
  registry := hhk.registry.trans hgh.registry
  valueSlots_le := Nat.le_trans hgh.valueSlots_le hhk.valueSlots_le
  type {v} hv hlive := by
    have htype := hhk.type (Nat.lt_of_lt_of_le hv hgh.valueSlots_le) hlive
    refine htype.trans (hgh.type hv ?_)
    rw [← Option.isSome_map (f := Value.type), ← type?, ← htype, type?, Option.isSome_map]
    exact hlive
  composite {id n} hn hop := by
    obtain ⟨mid, hmid, hopMid, houtMid, hinMid⟩ := hhk.composite hn hop
    obtain ⟨old, hold, hopOld, houtOld, hinOld⟩ := hgh.composite hmid (hopMid ▸ hop)
    exact ⟨old, hold, hopMid.trans hopOld, houtMid.trans houtOld, hinMid.trans hinOld⟩

theorem spend (g : Graph) (n m : Nat) : Kept g (g.spend n m) := by
  refine ⟨rfl, ?_, fun {v} _ _ => type?_spend g n m v, fun {id node} hn _ => ?_⟩
  · rw [valueSlots_spend]
    exact Nat.le_add_right _ _
  · rw [node?_spend] at hn
    exact ⟨node, hn, rfl, rfl, List.map_congr_left (fun v _ => type?_spend g n m v)⟩

/-- The producer of a value, if it is composite, was the producer before. -/
theorem producer? (hgh : Kept g h) (hg : g.WellFormed) (hh : h.WellFormed) {v : ValueId} {n : Node}
    (hn : h.producer? v = some n) (hop : n.op.expansion? ≠ none) :
    ∃ old, g.producer? v = some old ∧ n.op = old.op ∧ n.inputs.map h.type? = old.inputs.map g.type? := by
  refine exists_old_producer hg hh hn (fun hnode => ?_)
  obtain ⟨old, hold, hopOld, hout, hin⟩ := hgh.composite hnode hop
  exact ⟨old, hold, hout, hopOld, hin⟩

end Kept
end Graph

namespace Rule

variable {rule : Rule} {g : Graph} {rootId new : ValueId} {m : Match} {root : Value} {grown : Graph} {n : Node}

/-- **A replacement of the same type that is confined to the inputs of the root** keeps all types, and the root is gone. -/
theorem Spliced.kept (h : rule.Spliced g rootId m root new grown (grown.redirect rootId new (grown.nodesFrom g.nodeSlots)).2)
    (hg : g.WellFormed) (htype : grown.type? new = some root.type) (hn : g.producer? rootId = some n)
    (hconfined : Confined g n.inputs grown) (hkind : n.op.type ≠ .parameter) (hout : n.outputs = [rootId]) :
    Kept g ((grown.redirect rootId new (grown.nodesFrom g.nodeSlots)).2.removeDead
      (root.producer :: grown.nodesFrom g.nodeSlots)).1 ∧
    ((grown.redirect rootId new (grown.nodesFrom g.nodeSlots)).2.removeDead
      (root.producer :: grown.nodesFrom g.nodeSlots)).1.value? rootId = none := by
  have hext := h.grown_of.extends hg
  have hmoved := h.moved_wellFormed hg
  have hw := without_removeDead hmoved (root.producer :: grown.nodesFrom g.nodeSlots)
  have hfinal := wellFormed_removeDead hmoved (root.producer :: grown.nodesFrom g.nodeSlots)
  have hroot : g.type? rootId = some root.type := by rw [type?, h.root_live]; rfl
  have hsame : grown.type? new = grown.type? rootId := htype.trans (hext.type? hroot).symm
  refine ⟨⟨?_, ?_, fun {v} hv hlive => ?_, fun {id n'} hn' hop => ?_⟩,
    h.root_gone hg hn hkind hout (fun u hread => hconfined.lt_of_reads hg hn hread)⟩
  · exact hw.registry.trans (registry_redirect.trans hext.registry)
  · rw [hw.valueSlots, valueSlots_redirect]
    exact hext.valueSlots_le
  · rw [hw.type?_eq hlive, type?_redirect h.ne.symm]
    obtain ⟨more, -, hval⟩ := hext.value?_old hv
    rw [type?, type?, hval, Option.map_map]
    rfl
  · obtain ⟨old, hold, rfl⟩ := node?_of_redirect (h.grown_wellFormed hg) (hw.node?_eq_some.1 hn').2
    have holder : id.index < g.nodeSlots := Nat.lt_of_not_le (fun hnew => hop (hconfined.node hold hnew).1)
    have holdNode : g.node? id = some old := by rw [← hext.node?_old holder, hold]
    have hkept : id ∉ grown.nodesFrom g.nodeSlots := fun hmem => Nat.not_le.2 holder (Atop.mem_nodesFrom.1 hmem).1
    refine ⟨old, holdNode, rfl, rfl, ?_⟩
    rw [if_neg hkept] at hn' ⊢
    calc (old.inputs.map (swap rootId new)).map _
        = (old.inputs.map (swap rootId new)).map grown.type? := List.map_congr_left (fun v hv => by
          rw [hw.type?_eq (hfinal.input_live hn' hv), type?_redirect h.ne.symm])
      _ = old.inputs.map grown.type? := map_map_swap hsame old.inputs
      _ = old.inputs.map g.type? := List.map_congr_left (fun v hv => by
          obtain ⟨val, hval⟩ := Option.isSome_iff_exists.1 (hg.input_live holdNode hv)
          have ht : g.type? v = some val.type := by rw [type?, hval]; rfl
          rw [ht, hext.type? ht])

/-! ## Where the rule is applied -/

def compositePattern : Pattern := ⟨(compositeSketch.run .empty).2.nodes, (compositeSketch.run .empty).1⟩

/-- The pattern asks nothing of the operands. -/
theorem compositePattern_matches {v x y z : ValueId} (hg : g.WellFormed) (hn : g.producer? v = some n)
    (hop : n.op.expansion? ≠ none) (hin : n.inputs = [x, y, z]) : (compositePattern.matchValue? g v).isSome = true := by
  obtain ⟨val, hval, hnode⟩ := producer?_eq_some hn
  have hlive : ∀ w ∈ [x, y, z], (g.value? w).isSome = true := fun w hw => hg.input_live hnode (hin ▸ hw)
  have htype : [OpType.hardSigmoid, .fusedMultiplyAdd].contains n.op.type = true := by
    rcases Op.expansion?_ne_none.1 hop with hop | hop <;> rw [hop] <;> rfl
  obtain ⟨fuel, hfuel⟩ : ∃ fuel, compositePattern.matchBound g = fuel + 2 :=
    ⟨compositePattern.matchBound g - 2, by have := compositePattern.size_lt_matchBound g; omega⟩
  rw [Pattern.matchValue?, hfuel, Pattern.attempt, show compositePattern.node? compositePattern.root =
    some (.op [.hardSigmoid, .fusedMultiplyAdd] [⟨0⟩, ⟨1⟩, ⟨2⟩] false) from rfl]
  simp only [producerId?_eq_some hval, hnode, htype, hin, Pattern.countFits, Pattern.matchInputs, Attempt.all,
    Pattern.attempt_any_of_live (show compositePattern.node? ⟨0⟩ = some .any from rfl) (hlive x (by simp)),
    Pattern.attempt_any_of_live (show compositePattern.node? ⟨1⟩ = some .any from rfl) (hlive y (by simp)),
    Pattern.attempt_any_of_live (show compositePattern.node? ⟨2⟩ = some .any from rfl) (hlive z (by simp)), Attempt.andThen]
  rfl

theorem run_decompose_of (hn : g.producer? m.root = some n) (hexpand : g.ExpandsTo n.op n.inputs new grown) :
    (decompose m).run.run g = (.ok new, grown) := by
  obtain ⟨expand, hop, hrun⟩ := hexpand
  refine Construction.run_graph_bind_eq_ok.2 ?_
  simp only [hn, hop]
  exact Construction.run_orInvalid_eq_ok.2 hrun

theorem composite_not_split (hop : n.op.expansion? ≠ none) : n.op.type ≠ .split ∧ n.op.type ≠ .parameter := by
  rcases Op.expansion?_ne_none.1 hop with hop | hop <;> rw [hop] <;> simp [Op.type]

/-- A composite node has three inputs, and one output. -/
theorem composite_node (hg : g.TypeConsistent) (hn : g.producer? rootId = some n) (hop : n.op.expansion? ≠ none) :
    ∃ x y z t, n.inputs = [x, y, z] ∧ n.outputs = [rootId] ∧ g.type? rootId = some t ∧
      g.inferOutputs n.op [x, y, z] = .ok [t] := by
  obtain ⟨hout, ins, t, hin, hvalid, ht⟩ := hg.single_output hn (composite_not_split hop).1
  have hinfer := inferOutputs_eq_ok.2 ⟨ins, hin, hvalid⟩
  obtain ⟨x, y, z, hxyz⟩ : ∃ x y z, n.inputs = [x, y, z] := by
    refine List.length_eq_three.1 ?_
    have haccepts := length_accepted_of_inferOutputs hinfer
    rcases Op.expansion?_ne_none.1 hop with hop | hop <;> rw [hop] at haccepts <;> exact of_decide_eq_true haccepts
  exact ⟨x, y, z, t, hxyz, hout, ht, hxyz ▸ hinfer⟩

/-- An operation that expands alike has an expansion of its type. -/
theorem expansion_of_expandsAlike (hreg : g.registry = .full) {op : Op} {x y z : ValueId} {t : TensorType}
    (halike : ExpandsAlike op ([x, y, z].map g.type?)) (hinfer : g.inferOutputs op [x, y, z] = .ok [t]) :
    ∃ v h, g.ExpandsTo op [x, y, z] v h ∧ h.type? v = some t := by
  rcases halike with rfl | ⟨rfl, tx, ty, tz, htypes, hfloat, hshape⟩
  · obtain ⟨v, h, hexpand, hdef⟩ := expand_fusedMultiplyAdd hreg hinfer
    exact ⟨v, h, hexpand, hdef.type⟩
  · simp only [List.map_cons, List.map_nil, List.cons.injEq, and_true] at htypes
    obtain ⟨rfl, v, h, hexpand, hdef⟩ := expand_hardSigmoid hreg hinfer htypes.1 htypes.2.1 htypes.2.2 hfloat
    exact ⟨v, h, hexpand, by rw [hdef.type, hshape]⟩

/-- **A composite node that expands alike can be replaced by its expansion**, and all types stay. -/
theorem spliced_of_expandsAlike (hg : g.TypeConsistent) (hreg : g.registry = .full) (hn : g.producer? rootId = some n)
    (halike : ExpandsAlike n.op (n.inputs.map g.type?)) : ∃ m root new grown,
      Pass.decomposition.Spliced g rootId m root new grown (grown.redirect rootId new (grown.nodesFrom g.nodeSlots)).2 ∧
        grown.type? new = some root.type ∧ Confined g n.inputs grown := by
  obtain ⟨x, y, z, t, hin, -, ht, hinfer⟩ := composite_node hg hn halike.composite
  obtain ⟨new, grown, hexpand, htype⟩ := expansion_of_expandsAlike hreg (hin ▸ halike) hinfer
  rw [← hin] at hexpand
  obtain ⟨hconfined, hnew, hknown⟩ := confined_of_expandsTo hexpand
  obtain ⟨root, hroot, hnode⟩ := producer?_eq_some hn
  obtain ⟨m, hm⟩ := Option.isSome_iff_exists.1 (compositePattern_matches hg.wellFormed hn halike.composite hin)
  have hrun := run_decompose_of ((Pattern.derives_of_matchValue? hm).1.symm ▸ hn) hexpand
  have hgrown : Grown g grown := grown_of_run hrun
  have hext := hgrown.extends hg.wellFormed
  obtain rfl : t = root.type := by
    rw [type?, hroot] at ht
    exact (Option.some.inj ht).symm
  have hindependent := dependsOnAny_eq_false hg.wellFormed hgrown hn (fun {p a} hp ha hpath => by
    obtain ⟨val, hval, rfl⟩ := Option.map_eq_some_iff.1 hp
    exact hconfined.path_old hg.wellFormed hgrown hpath
      (hext.nodeSlots_le_producer hg.wellFormed (hgrown.wellFormed hg.wellFormed) hval hnew) ha)
  have hexchange : Pass.decomposition.Exchanges g rootId m root new grown :=
    ⟨hm, hroot, hrun, fun heq => Nat.not_lt.2 (heq ▸ hnew) (value?_lt hroot), htype, hindependent⟩
  refine ⟨m, root, new, grown, hexchange.spliced hg ?_, htype, hconfined⟩
  rw [hknown, hext.knownValue? hg.wellFormed (by rw [hroot]; rfl)]
  refine (knownValue?_eq_none (fun p hp => ?_)).symm
  obtain rfl := Option.some.inj (hn.symm.trans hp)
  rcases Op.expansion?_ne_none.1 halike.composite with hop | hop <;> rw [hop] <;> rfl

/-- **The rule is applied where the composite node expands alike.** -/
theorem appliesAt_decomposition_iff (hg : g.TypeConsistent) (hreg : g.registry = .full) :
    Pass.decomposition.AppliesAt g rootId ↔
      ∃ n, g.producer? rootId = some n ∧ ExpandsAlike n.op (n.inputs.map g.type?) := by
  constructor
  · rintro ⟨new, hnew⟩
    obtain ⟨m, root, grown, updated, hs, -⟩ := applyAt_eq_applied_iff.1 (Prod.ext hnew rfl)
    obtain ⟨n, expand, hn, hexpand, hrun⟩ := run_decompose hs.built
    rw [(Pattern.derives_of_matchValue? hs.matched).1] at hn
    have hcomposite : n.op.expansion? ≠ none := by rw [hexpand]; exact Option.some_ne_none _
    refine ⟨n, hn, (Op.expansion?_ne_none.1 hcomposite).imp_right (fun hop => ?_)⟩
    obtain ⟨x, y, z, t, hin, -, ht, hinfer⟩ := composite_node hg hn hcomposite
    have hexpands : g.ExpandsTo .hardSigmoid [x, y, z] new grown := ⟨expand, hop ▸ hexpand, hin ▸ hrun⟩
    rw [hop] at hinfer
    obtain ⟨tx, ty, tz, hx, hy, hz, -⟩ := types_of_inferOutputs hinfer
    have hfloat := splatsFloat_of_expandsTo hinfer hx hy hz hexpands
    obtain ⟨rfl, new', grown', hexpands', hdef⟩ := expand_hardSigmoid hreg hinfer hx hy hz hfloat
    obtain ⟨rfl, rfl⟩ : new' = new ∧ grown' = grown := by
      have hsame := (expandsTo_hardSigmoid.1 hexpands').symm.trans (expandsTo_hardSigmoid.1 hexpands)
      simpa using hsame
    -- the driver has checked that nothing was lost
    obtain ⟨⟨type, htype, -, hrelaxes⟩, -⟩ := replacementFault?_eq_none hs.no_fault
    obtain rfl := Option.some.inj (hdef.type.symm.trans htype)
    obtain rfl : t = root.type := by
      rw [type?, hs.root_live] at ht
      exact (Option.some.inj ht).symm
    exact ⟨hop, root.type, ty, tz, by simp [hin, hx, hy, hz], hfloat,
      Shape.beside_beside_of_relaxes (TensorType.shape_relaxes hrelaxes)⟩
  · rintro ⟨n, hn, halike⟩
    obtain ⟨m, root, new, grown, hs, -⟩ := spliced_of_expandsAlike hg hreg hn halike
    exact ⟨new, congrArg Prod.fst hs.applyAt_eq⟩

/-- Where types were kept, the rule is applied only where it was applied before. -/
theorem appliesAt_of_kept {h : Graph} (hgh : Kept g h) (hg : g.TypeConsistent) (hh : h.TypeConsistent)
    (hreg : g.registry = .full) (happlies : Pass.decomposition.AppliesAt h rootId) :
    Pass.decomposition.AppliesAt g rootId := by
  obtain ⟨n, hn, halike⟩ := (appliesAt_decomposition_iff hh (hgh.registry.trans hreg)).1 happlies
  obtain ⟨old, hold, hop, htypes⟩ := hgh.producer? hg.wellFormed hh.wellFormed hn halike.composite
  exact (appliesAt_decomposition_iff hg hreg).2 ⟨old, hold, by rwa [← hop, ← htypes]⟩

/-- **An attempt keeps all types, clears its value, and makes no work.** -/
theorem kept_applyAt (hg : g.TypeConsistent) (hreg : g.registry = .full) (v : ValueId) :
    Kept g (Pass.decomposition.applyAt g v).2 ∧
      PassRun.Tries.Clears Pass.decomposition g v (Pass.decomposition.applyAt g v).2 := by
  have hfinal : (Pass.decomposition.applyAt g v).2.TypeConsistent := typeConsistent_applyAt hg
  by_cases happlies : Pass.decomposition.AppliesAt g v
  · obtain ⟨n, hn, halike⟩ := (appliesAt_decomposition_iff hg hreg).1 happlies
    obtain ⟨m, root, new, grown, hs, htype, hconfined⟩ := spliced_of_expandsAlike hg hreg hn halike
    obtain ⟨-, -, -, -, -, hout, -⟩ := composite_node hg hn halike.composite
    obtain ⟨hkept, hgone⟩ :=
      hs.kept hg.wellFormed htype hn hconfined (composite_not_split halike.composite).2 hout
    rw [hs.applyAt_eq] at hfinal ⊢
    refine ⟨hkept, fun w hw => ⟨appliesAt_of_kept hkept hg hfinal hreg hw, ?_⟩⟩
    rintro rfl
    have hlive := hw.live
    simp only [hgone, Option.isSome_none, Bool.false_eq_true] at hlive
  · obtain ⟨n, m, hspent⟩ := applyAt_snd_of_not_appliesAt hg.wellFormed happlies
    rw [hspent] at hfinal ⊢
    refine ⟨Kept.spend g n m, fun w hw => ?_⟩
    have hbefore := appliesAt_of_kept (Kept.spend g n m) hg hfinal hreg hw
    exact ⟨hbefore, fun heq => happlies (heq ▸ hbefore)⟩

end Rule

/-! ## The pass -/

/-- **What holds throughout a pass of decompositions** that started with this graph. -/
structure PassRun.Decomposes (g : Graph) (s : PassRun) : Prop where
  failure : s.failure = none
  typed : s.graph.TypeConsistent
  kept : Kept g s.graph

theorem PassRun.Decomposes.step {g : Graph} {s : PassRun} {verify : Bool} (hs : s.Decomposes g)
    (hreg : g.registry = .full) (v : ValueId) : (s.applyRule verify Pass.decomposition v).Decomposes g ∧
      PassRun.Tries.Clears Pass.decomposition s.graph v (s.applyRule verify Pass.decomposition v).graph := by
  obtain ⟨hkept, hclears⟩ := Rule.kept_applyAt hs.typed (hs.kept.registry.trans hreg) v
  rw [← graph_applyRule verify] at hkept hclears
  refine ⟨⟨failure_applyRule_of_wellFormed hs.typed.wellFormed hs.failure, ?_, hs.kept.trans hkept⟩, hclears⟩
  rw [graph_applyRule]
  exact Rule.typeConsistent_applyAt hs.typed

namespace Pass

variable {g : Graph}

theorem decomposition_of_built {rule : Rule} (h : Rule.decomposeComposites = .ok rule) : rule = decomposition :=
  Rule.ofSketch_eq_ok h

/-- **The pass of decompositions is done after two sweeps**, in either mode, whatever composite nodes feed each other.
No fused multiplication and addition is left; a hard sigmoid is left if there are no constants of the element type of
its data, or if its scalars are not known to be scalars and would hide a rank that is known.  All types stay. -/
theorem decomposed_of_run (hg : g.TypeConsistent) (hreg : g.registry = .full) {pass : Pass} {rule : Rule}
    (hrule : Rule.decomposeComposites = .ok rule) (hrules : pass.rules = [rule]) (hcap : 2 ≤ pass.options.maxIterations) :
    (pass.run g).1.status = .converged ∧ (pass.run g).1.iterations ≤ 2 ∧
    (∀ id n, (pass.run g).2.node? id = some n → n.op ≠ .fusedMultiplyAdd) ∧
    (∀ id n, (pass.run g).2.node? id = some n → n.op = .hardSigmoid → ∃ x a b tx ta tb, n.inputs = [x, a, b] ∧
      (pass.run g).2.type? x = some tx ∧ (pass.run g).2.type? a = some ta ∧ (pass.run g).2.type? b = some tb ∧
      (¬ (tx.element = .f16 ∨ tx.element = .f32 ∨ tx.element = .f64) ∨
        (ta.shape.isRanked = false ∨ tb.shape.isRanked = false) ∧ tx.shape.isRanked = true)) ∧
    ∀ v, (g.value? v).isSome = true → ((pass.run g).2.value? v).isSome = true → (pass.run g).2.type? v = g.type? v := by
  have hpass : pass.SlotBlind := slotBlind_of_builtIn (fun r hr => by
    obtain rfl := List.mem_singleton.1 (hrules ▸ hr)
    simp [hrule])
  obtain rfl := decomposition_of_built hrule
  obtain ⟨hstatus, hiterations, ⟨s, hs, hfinal⟩, hdone⟩ := run_of_clears (P := PassRun.Decomposes g) hrules
    (fun s hs => ⟨hs.typed.wellFormed, hs.failure⟩) (fun s v hs => (hs.step hreg v).1) (fun s v hs => (hs.step hreg v).2)
    hpass hcap ⟨rfl, hg, .refl g⟩
  have htyped := hs.typed
  have hkept := hs.kept
  rw [hfinal] at hdone ⊢
  have hleft : ∀ {v : ValueId} {n : Node}, s.graph.producer? v = some n →
      ¬ ExpandsAlike n.op (n.inputs.map s.graph.type?) := fun {v n} hn halike =>
    hdone v ((rewritesAt_iff hrules).2
      ((Rule.appliesAt_decomposition_iff htyped (hkept.registry.trans hreg)).2 ⟨n, hn, halike⟩))
  refine ⟨hstatus, hiterations, fun id n hn hop => ?_, fun id n hn hop => ?_, fun v hv hlive => ?_⟩
  · obtain ⟨v, -, hproducer⟩ := htyped.exists_output hn (by simp [hop, Op.type])
    exact hleft hproducer (Or.inl hop)
  · obtain ⟨v, -, hproducer⟩ := htyped.exists_output hn (by simp [hop, Op.type])
    obtain ⟨x, a, b, t, hin, -, -, hinfer⟩ := Rule.composite_node htyped hproducer (by simp [hop, Op.expansion?])
    obtain ⟨tx, ta, tb, hx, ha, hb, -⟩ := types_of_inferOutputs hinfer
    refine ⟨x, a, b, tx, ta, tb, hin, hx, ha, hb, ?_⟩
    by_contra hnone
    rw [not_or, not_not, not_and_or, not_or, Bool.not_eq_false, Bool.not_eq_false, Bool.not_eq_true] at hnone
    exact hleft hproducer (Or.inr ⟨hop, tx, ta, tb, by simp [hin, hx, ha, hb], hnone.1,
      Shape.beside_beside_eq_iff.2 hnone.2⟩)
  · obtain ⟨val, hval⟩ := Option.isSome_iff_exists.1 hv
    exact hkept.type (value?_lt hval) hlive

/-- A line is clamped twice, the second time by something that might not be a scalar. -/
def clampedTwice : Graph :=
  [Edit.addParameter none ⟨.f32, .ranked [.fixed 2, .dynamic]⟩, .addParameter none ⟨.f32, .scalar⟩,
    .addParameter none ⟨.f32, .unknown⟩, .addValue none .fusedMultiplyAdd [⟨0⟩, ⟨1⟩, ⟨1⟩],
    .addValue none .hardSigmoid [⟨3⟩, ⟨1⟩, ⟨1⟩], .addValue none .hardSigmoid [⟨4⟩, ⟨1⟩, ⟨2⟩],
    .setResults [⟨5⟩]].foldl Edit.apply (.empty .full)

def decomposing : Pass := ⟨"Decomposing", [decomposition], ⟨2, .allMatches, true⟩⟩

/-- The line and the first clamp go, and the second one stays. -/
theorem decomposed_of_run_clampedTwice : clampedTwice.TypeConsistent ∧ clampedTwice.registry = .full ∧
    Rule.decomposeComposites = .ok decomposition ∧ (decomposing.run clampedTwice).1.status = .converged ∧
    (decomposing.run clampedTwice).1.iterations ≤ 2 ∧ (decomposing.run clampedTwice).1.applied = 2 ∧
    (∀ id n, (decomposing.run clampedTwice).2.node? id = some n → n.op ≠ .fusedMultiplyAdd) ∧
    ((decomposing.run clampedTwice).2.node? ⟨5⟩).map Node.op = some .hardSigmoid ∧
    (decomposing.run clampedTwice).2.type? ⟨5⟩ = clampedTwice.type? ⟨5⟩ := by
  have htyped : clampedTwice.TypeConsistent := typeConsistent_edits _ (by simp) (typeConsistent_empty _)
  have hbuilt : Rule.decomposeComposites = .ok decomposition :=
    Rule.ofSketch_of_build (PatternBuilder.build_eq_ok.2 ⟨rfl, by decide +kernel, by decide +kernel⟩)
  obtain ⟨hstatus, hiterations, hfused, -, htype⟩ :=
    decomposed_of_run htyped (by decide +kernel) hbuilt (rfl : decomposing.rules = [decomposition]) (by decide)
  exact ⟨htyped, by decide +kernel, hbuilt, hstatus, hiterations, by decide +kernel, hfused, by decide +kernel,
    htype ⟨5⟩ (by decide +kernel) (by decide +kernel)⟩

end Pass
end TensorGraph
