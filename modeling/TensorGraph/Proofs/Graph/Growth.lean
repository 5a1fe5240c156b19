import TensorGraph.Graph.Construction
import TensorGraph.Proofs.Graph.Insert
/-!
# Growth — what constructions leave of the graph before them

`Grown g h` says that `h` came from `g` by adding nodes; whatever a construction does, it has
that outcome.  `Extends` collects what this means for the graph before: its slots are as they
were, but for new uses at the end of the lists of uses, and a node that is new depends on
nothing newer than itself.
-/
namespace TensorGraph
namespace Graph

/-- The second graph came from the first by adding nodes. -/
inductive Grown (g : Graph) : Graph → Prop where
  | refl : Grown g g
  | insert {h k : Graph} {name : Option String} {op : Op} {inputs : List ValueId} {id : NodeId} {v : ValueId} :
    Grown g h → h.insert name op inputs = .ok (id, v, k) → Grown g k

/-- **What was there before is still there**, with more uses perhaps. -/
structure Extends (g h : Graph) : Prop where
  name : h.name = g.name
  registry : h.registry = g.registry
  parameters : h.parameters = g.parameters
  results : h.results = g.results
  nodeSlots_le : g.nodeSlots ≤ h.nodeSlots
  valueSlots_le : g.valueSlots ≤ h.valueSlots
  node?_old : ∀ {id : NodeId}, id.index < g.nodeSlots → h.node? id = g.node? id
  value?_old : ∀ {v : ValueId}, v.index < g.valueSlots → ∃ more : List Use,
    (∀ u ∈ more, g.nodeSlots ≤ u.node.index) ∧
      h.value? v = (g.value? v).map (fun val => { val with uses := val.uses ++ more })
  /-- A new node depends on nothing newer. -/
  new_later : ∀ {a b : NodeId}, g.nodeSlots ≤ a.index → h.DependsOn a b → b.index < a.index

theorem Grown.wellFormed {g h : Graph} (hgh : Grown g h) (hg : g.WellFormed) : h.WellFormed := by
  induction hgh with
  | refl => exact hg
  | insert _ hins ih => exact wellFormed_insert ih hins

theorem Grown.extends {g h : Graph} (hgh : Grown g h) (hg : g.WellFormed) : Extends g h := by
  induction hgh with
  | refl =>
    refine ⟨rfl, rfl, rfl, rfl, Nat.le_refl _, Nat.le_refl _, fun _ => rfl, fun {v} _ => ⟨[], by simp, ?_⟩, ?_⟩
    · cases g.value? v <;> simp
    · intro a b ha hab
      obtain ⟨n, -, -, hn, -⟩ := dependsOn_iff.1 hab
      exact absurd (node?_lt hn) (Nat.not_lt.2 ha)
  | @insert h k name op inputs id v hgh hins ih =>
    obtain ⟨types, -, hinf, -, -, -, rfl⟩ := insert_eq_ok hins
    have hh := hgh.wellFormed hg
    refine ⟨(h.name_appendNode ..).trans ih.name, (h.registry_appendNode ..).trans ih.registry,
      (h.parameters_appendNode ..).trans ih.parameters, (h.results_appendNode ..).trans ih.results, ?_, ?_, ?_, ?_, ?_⟩
    · rw [nodeSlots_appendNode]
      exact Nat.le_succ_of_le ih.nodeSlots_le
    · rw [valueSlots_appendNode]
      exact Nat.le_add_right_of_le ih.valueSlots_le
    · intro a ha
      rw [node?_appendNode, if_neg (Nat.ne_of_lt (Nat.lt_of_lt_of_le ha ih.nodeSlots_le))]
      exact ih.node?_old ha
    · intro w hw
      obtain ⟨more, hmore, hval⟩ := ih.value?_old hw
      refine ⟨more ++ newUses ⟨h.nodeSlots⟩ inputs w, fun u hu => ?_, ?_⟩
      · rcases List.mem_append.1 hu with hu | hu
        · exact hmore u hu
        · rw [(mem_newUses.1 hu).1]
          exact ih.nodeSlots_le
      · rw [value?_appendNode_old _ _ _ _ _ (Nat.lt_of_lt_of_le hw ih.valueSlots_le), hval]
        cases g.value? w <;> simp
    · intro a b ha hab
      obtain ⟨hb, hab | rfl⟩ := dependsOn_appendNode (inputs_live_of_inferOutputs hinf) hh hab
      · exact ih.new_later ha hab
      · exact hb

/-- A parameter that was added reads nothing. -/
theorem Grown.inputs_of_parameter {g h : Graph} (hgh : Grown g h) {id : NodeId} {n : Node} (hn : h.node? id = some n)
    (hnew : g.nodeSlots ≤ id.index) (hop : n.op.type = .parameter) : n.inputs = [] := by
  induction hgh with
  | refl => exact absurd (node?_lt hn) (Nat.not_lt.2 hnew)
  | insert _ hins ih =>
    obtain ⟨types, -, hinf, -, -, -, rfl⟩ := insert_eq_ok hins
    rcases node?_appendNode_cases hn with ⟨-, rfl⟩ | hn
    · have haccepts := length_accepted_of_inferOutputs hinf
      rw [hop] at haccepts
      exact List.length_eq_zero_iff.1 (of_decide_eq_true haccepts)
    · exact ih hn

theorem grown_run {α : Type} : ∀ (c : Construction α) (g : Graph), Grown g (c.run g).2
  | .done _, _ => .refl
  | .look next, g => grown_run (next g) g
  | .add name op inputs next, g => by
    rw [Construction.run]
    cases hins : g.insert name op inputs with
    | error e => exact grown_run (next (.error e)) g
    | ok r =>
      obtain ⟨id, v, h⟩ := r
      exact grown_trans (.insert .refl hins) (grown_run (next (.ok (id, v))) h)
where
  grown_trans {g h k : Graph} (hgh : Grown g h) (hhk : Grown h k) : Grown g k := by
    induction hhk with
    | refl => exact hgh
    | insert _ hins ih => exact .insert ih hins

theorem grown_of_run {α : Type} {c : Construction α} {a : α} {g h : Graph} (hrun : c.run g = (a, h)) : Grown g h := by
  have hgrown := grown_run c g
  rwa [hrun] at hgrown

namespace Extends

variable {g h : Graph}

theorem node?_of_node? (hgh : Extends g h) {id : NodeId} {n : Node} (hn : g.node? id = some n) :
    h.node? id = some n := by rw [hgh.node?_old (node?_lt hn), hn]

theorem value?_of_value? (hgh : Extends g h) {v : ValueId} {val : Value} (hv : g.value? v = some val) :
    ∃ more : List Use, (∀ u ∈ more, g.nodeSlots ≤ u.node.index) ∧
      h.value? v = some { val with uses := val.uses ++ more } := by
  obtain ⟨more, hmore, hval⟩ := hgh.value?_old (value?_lt hv)
  exact ⟨more, hmore, by rw [hval, hv]; rfl⟩

/-- A new value is an output of a new node. -/
theorem nodeSlots_le_producer (hgh : Extends g h) (hg : g.WellFormed) (hh : h.WellFormed) {v : ValueId} {val : Value}
    (hv : h.value? v = some val) (hnew : g.valueSlots ≤ v.index) : g.nodeSlots ≤ val.producer.index := by
  by_contra hlt
  obtain ⟨n, hn, hout⟩ := hh.produced hv
  rw [hgh.node?_old (Nat.lt_of_not_le hlt)] at hn
  obtain ⟨old, hold, -, -⟩ := hg.output_live hn hout
  have := value?_lt hold
  omega

end Extends
end Graph
end TensorGraph
