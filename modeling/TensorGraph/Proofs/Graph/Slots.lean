import Mathlib.Data.List.Basic
import TensorGraph.Graph.Basic
/-!
# Slots — what each way of writing to a graph changes

Every operation on a graph is made of writes to single slots.  The lemmas here say what can be
looked up after such a write, and `SameFrame` says that nothing was touched but the contents of
slots.  `eq_of_lookups` is the converse: a graph is known by its frame and what its slots hold.
-/
namespace TensorGraph

@[ext] theorem NodeId.ext {a b : NodeId} (h : a.index = b.index) : a = b := by
  cases a; cases b; exact congrArg NodeId.mk h

@[ext] theorem ValueId.ext {a b : ValueId} (h : a.index = b.index) : a = b := by
  cases a; cases b; exact congrArg ValueId.mk h

theorem NodeId.index_inj {a b : NodeId} : a.index = b.index ↔ a = b := ⟨NodeId.ext, congrArg _⟩

theorem ValueId.index_inj {a b : ValueId} : a.index = b.index ↔ a = b := ⟨ValueId.ext, congrArg _⟩

namespace Graph

/-! ## Looking up -/

theorem node?_lt {g : Graph} {id : NodeId} {n : Node} (h : g.node? id = some n) : id.index < g.nodeSlots := by
  by_contra hlt
  rw [node?, Array.getElem?_eq_none (Nat.le_of_not_lt hlt)] at h
  cases h

theorem value?_lt {g : Graph} {id : ValueId} {v : Value} (h : g.value? id = some v) : id.index < g.valueSlots := by
  by_contra hlt
  rw [value?, Array.getElem?_eq_none (Nat.le_of_not_lt hlt)] at h
  cases h

theorem producerId?_eq_some {g : Graph} {id : ValueId} {v : Value} (h : g.value? id = some v) :
    g.producerId? id = some v.producer := by
  rw [producerId?, h]; rfl

theorem usesOf_eq {g : Graph} {id : ValueId} {v : Value} (h : g.value? id = some v) : g.usesOf id = v.uses := by
  rw [usesOf, h]; rfl

theorem mem_nodeIds {g : Graph} {id : NodeId} : id ∈ g.nodeIds ↔ (g.node? id).isSome = true := by
  simp only [nodeIds, List.mem_filter, List.mem_map, List.mem_range]
  constructor
  · exact fun h => h.2
  · intro h
    obtain ⟨n, hn⟩ := Option.isSome_iff_exists.1 h
    exact ⟨⟨id.index, node?_lt hn, rfl⟩, h⟩

/-- Nodes are listed in order of creation. -/
theorem nodeIds_ascending (g : Graph) : g.nodeIds.Pairwise (fun a b => a.index < b.index) :=
  List.Pairwise.filter _ (List.pairwise_map.2 List.pairwise_lt_range)

theorem nodup_of_ascending {l : List NodeId} (h : l.Pairwise (fun a b => a.index < b.index)) : l.Nodup :=
  h.imp (fun hlt he => Nat.ne_of_lt hlt (congrArg NodeId.index he))

/-- An ascending list is known by its members. -/
theorem eq_of_ascending {l l' : List NodeId} (h : l.Pairwise (fun a b => a.index < b.index))
    (h' : l'.Pairwise (fun a b => a.index < b.index)) (hmem : ∀ id, id ∈ l ↔ id ∈ l') : l = l' :=
  List.Perm.eq_of_pairwise (fun _ _ _ _ hab hba => absurd hab (Nat.lt_asymm hba)) h h'
    ((List.perm_ext_iff_of_nodup (nodup_of_ascending h) (nodup_of_ascending h')).2 hmem)

theorem mem_valueIds {g : Graph} {v : ValueId} : v ∈ g.valueIds ↔ (g.value? v).isSome = true := by
  simp only [valueIds, List.mem_filter, List.mem_map, List.mem_range]
  constructor
  · exact fun h => h.2
  · intro h
    obtain ⟨val, hval⟩ := Option.isSome_iff_exists.1 h
    exact ⟨⟨v.index, value?_lt hval, rfl⟩, h⟩

/-! ## Single writes -/

@[simp] theorem node?_modifyNode (g : Graph) (id j : NodeId) (f : Node → Node) :
    (g.modifyNode id f).node? j = if id = j then (g.node? j).map f else g.node? j := by
  simp only [node?, modifyNode, Array.getElem?_modify, NodeId.index_inj]
  split
  · cases g.nodes[j.index]? <;> rfl
  · rfl

@[simp] theorem value?_modifyValue (g : Graph) (id j : ValueId) (f : Value → Value) :
    (g.modifyValue id f).value? j = if id = j then (g.value? j).map f else g.value? j := by
  simp only [value?, modifyValue, Array.getElem?_modify, ValueId.index_inj]
  split
  · cases g.values[j.index]? <;> rfl
  · rfl

@[simp] theorem node?_dropNode (g : Graph) (id j : NodeId) :
    (g.dropNode id).node? j = if id = j then none else g.node? j := by
  simp only [node?, dropNode, Array.getElem?_modify, NodeId.index_inj]
  split
  · cases g.nodes[j.index]? <;> rfl
  · rfl

@[simp] theorem value?_dropValue (g : Graph) (id j : ValueId) :
    (g.dropValue id).value? j = if id = j then none else g.value? j := by
  simp only [value?, dropValue, Array.getElem?_modify, ValueId.index_inj]
  split
  · cases g.values[j.index]? <;> rfl
  · rfl

@[simp] theorem value?_modifyNode (g : Graph) (id : NodeId) (j : ValueId) (f : Node → Node) :
    (g.modifyNode id f).value? j = g.value? j := rfl

@[simp] theorem node?_modifyValue (g : Graph) (id : ValueId) (j : NodeId) (f : Value → Value) :
    (g.modifyValue id f).node? j = g.node? j := rfl

@[simp] theorem value?_dropNode (g : Graph) (id : NodeId) (j : ValueId) : (g.dropNode id).value? j = g.value? j := rfl

@[simp] theorem node?_dropValue (g : Graph) (id : ValueId) (j : NodeId) : (g.dropValue id).node? j = g.node? j := rfl

/-! ## The frame -/

/-- **The graphs differ at most in what their slots hold.** -/
structure SameFrame (g h : Graph) : Prop where
  name : h.name = g.name
  registry : h.registry = g.registry
  parameters : h.parameters = g.parameters
  results : h.results = g.results
  nodeSlots : h.nodeSlots = g.nodeSlots
  valueSlots : h.valueSlots = g.valueSlots

namespace SameFrame

theorem refl (g : Graph) : SameFrame g g := ⟨rfl, rfl, rfl, rfl, rfl, rfl⟩

theorem trans {g h k : Graph} (hgh : SameFrame g h) (hhk : SameFrame h k) : SameFrame g k :=
  ⟨hhk.name.trans hgh.name, hhk.registry.trans hgh.registry, hhk.parameters.trans hgh.parameters,
    hhk.results.trans hgh.results, hhk.nodeSlots.trans hgh.nodeSlots, hhk.valueSlots.trans hgh.valueSlots⟩

theorem modifyNode (g : Graph) (id : NodeId) (f : Node → Node) : SameFrame g (g.modifyNode id f) :=
  ⟨rfl, rfl, rfl, rfl, by simp [Graph.nodeSlots, Graph.modifyNode], rfl⟩

theorem modifyValue (g : Graph) (id : ValueId) (f : Value → Value) : SameFrame g (g.modifyValue id f) :=
  ⟨rfl, rfl, rfl, rfl, rfl, by simp [Graph.valueSlots, Graph.modifyValue]⟩

theorem dropNode (g : Graph) (id : NodeId) : SameFrame g (g.dropNode id) :=
  ⟨rfl, rfl, rfl, rfl, by simp [Graph.nodeSlots, Graph.dropNode], rfl⟩

theorem dropValue (g : Graph) (id : ValueId) : SameFrame g (g.dropValue id) :=
  ⟨rfl, rfl, rfl, rfl, rfl, by simp [Graph.valueSlots, Graph.dropValue]⟩

theorem foldl {α : Type} {step : Graph → α → Graph} (hstep : ∀ g a, SameFrame g (step g a)) :
    ∀ (as : List α) (g : Graph), SameFrame g (as.foldl step g)
  | [], g => refl g
  | a :: as, g => (hstep g a).trans (foldl hstep as (step g a))

end SameFrame

theorem eq_of_join_getElem? {α : Type} {xs ys : Array (Option α)} (hsize : ys.size = xs.size)
    (h : ∀ i : Nat, ys[i]?.join = xs[i]?.join) : ys = xs := by
  refine Array.ext hsize (fun i hy hx => ?_)
  have hi := h i
  rw [Array.getElem?_eq_getElem hy, Array.getElem?_eq_getElem hx] at hi
  exact hi

/-- **A graph is known by its frame and what can be looked up in it.** -/
theorem eq_of_lookups {g h : Graph} (hframe : SameFrame g h) (hnode : ∀ id, h.node? id = g.node? id)
    (hvalue : ∀ id, h.value? id = g.value? id) : h = g := by
  have hn : h.nodes = g.nodes := eq_of_join_getElem? hframe.nodeSlots (fun i => hnode ⟨i⟩)
  have hv : h.values = g.values := eq_of_join_getElem? hframe.valueSlots (fun i => hvalue ⟨i⟩)
  obtain ⟨hname, hreg, hpar, hres, -, -⟩ := hframe
  cases g; cases h
  simp only at hname hreg hpar hres hn hv
  subst hname hreg hpar hres hn hv
  rfl

end Graph
end TensorGraph
