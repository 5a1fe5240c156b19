import TensorGraph.Proofs.Digraph.Paths
import TensorGraph.Proofs.Graph.Slots
import TensorGraph.Graph.Order
/-!
# WellFormed — what the two ends of every edge owe each other

A graph is well formed if
- every input of a node is a value;
- the values and the outputs of the nodes are each other's: a value is the output of its
  producer at its index, and an output of a node has the node as its producer;
- the uses stored with a value are the input positions that read it, each once;
- every result and every parameter is a value;
- and no node depends on itself.

`DependsOn` is the relation that the depth-first walks follow, seen from the nodes.
-/
namespace TensorGraph
namespace Graph

open Relation (TransGen)

/-- The input position reads the value. -/
def Reads (g : Graph) (u : Use) (v : ValueId) : Prop := ∃ n, g.node? u.node = some n ∧ n.inputs[u.input]? = some v

/-- The first node reads an output of the second. -/
def DependsOn (g : Graph) (a b : NodeId) : Prop := b ∈ g.producersOf a

/-- No node depends on itself, directly or not. -/
def Acyclic (g : Graph) : Prop := ∀ id, ¬ TransGen g.DependsOn id id

/-- **The two ends of every edge agree, and there is no cycle.** -/
structure WellFormed (g : Graph) : Prop where
  input_live : ∀ {id : NodeId} {n : Node} {v : ValueId}, g.node? id = some n → v ∈ n.inputs → (g.value? v).isSome = true
  produced : ∀ {v : ValueId} {val : Value}, g.value? v = some val →
    ∃ n, g.node? val.producer = some n ∧ n.outputs[val.index]? = some v
  output_live : ∀ {id : NodeId} {n : Node} {i : Nat} {v : ValueId}, g.node? id = some n → n.outputs[i]? = some v →
    ∃ val, g.value? v = some val ∧ val.producer = id ∧ val.index = i
  uses_nodup : ∀ {v : ValueId} {val : Value}, g.value? v = some val → val.uses.Nodup
  mem_uses : ∀ {v : ValueId} {val : Value}, g.value? v = some val → ∀ u, u ∈ val.uses ↔ g.Reads u v
  result_live : ∀ v ∈ g.results, (g.value? v).isSome = true
  parameter_live : ∀ v ∈ g.parameters, (g.value? v).isSome = true
  acyclic : g.Acyclic

theorem Reads.exists_node {g : Graph} {u : Use} {v : ValueId} (h : g.Reads u v) : ∃ n, g.node? u.node = some n := by
  obtain ⟨n, hn, -⟩ := h
  exact ⟨n, hn⟩

theorem reads_of_mem_inputs {g : Graph} {id : NodeId} {n : Node} {v : ValueId} (hn : g.node? id = some n)
    (hv : v ∈ n.inputs) : ∃ i, g.Reads ⟨id, i⟩ v := by
  obtain ⟨i, hi⟩ := List.mem_iff_getElem?.1 hv
  exact ⟨i, n, hn, hi⟩

theorem dependsOn_iff {g : Graph} {a b : NodeId} : g.DependsOn a b ↔
    ∃ n v val, g.node? a = some n ∧ v ∈ n.inputs ∧ g.value? v = some val ∧ val.producer = b := by
  unfold DependsOn producersOf producersAmong inputsOf producerId?
  constructor
  · intro h
    obtain ⟨v, hv, hb⟩ := List.mem_filterMap.1 h
    obtain ⟨val, hval, rfl⟩ := Option.map_eq_some_iff.1 hb
    cases hn : g.node? a with
    | none =>
      rw [hn] at hv
      cases hv
    | some n =>
      rw [hn] at hv
      exact ⟨n, v, val, rfl, hv, hval, rfl⟩
  · rintro ⟨n, v, val, hn, hv, hval, rfl⟩
    refine List.mem_filterMap.2 ⟨v, ?_, by rw [hval]; rfl⟩
    rw [hn]
    exact hv

theorem Reads.dependsOn {g : Graph} {u : Use} {v : ValueId} {val : Value} (hu : g.Reads u v)
    (hv : g.value? v = some val) : g.DependsOn u.node val.producer := by
  obtain ⟨n, hn, hr⟩ := hu
  exact dependsOn_iff.2 ⟨n, v, val, hn, List.mem_of_getElem? hr, hv, rfl⟩

namespace WellFormed

variable {g : Graph}

theorem mem_usesOf (h : g.WellFormed) {u : Use} {v : ValueId} : u ∈ g.usesOf v ↔ g.Reads u v := by
  cases hv : g.value? v with
  | some val => rw [usesOf_eq hv, h.mem_uses hv]
  | none =>
    rw [usesOf, hv]
    constructor
    · intro hu
      cases hu
    · rintro ⟨n, hn, hr⟩
      have := h.input_live hn (List.mem_of_getElem? hr)
      rw [hv] at this
      cases this

theorem usesOf_nodup (h : g.WellFormed) (v : ValueId) : (g.usesOf v).Nodup := by
  cases hv : g.value? v with
  | some val => rw [usesOf_eq hv]; exact h.uses_nodup hv
  | none => rw [usesOf, hv]; exact List.nodup_nil

theorem live_of_reads (h : g.WellFormed) {u : Use} {v : ValueId} (hu : g.Reads u v) : (g.value? v).isSome = true := by
  obtain ⟨n, hn, hr⟩ := hu
  exact h.input_live hn (List.mem_of_getElem? hr)

theorem output_live' (h : g.WellFormed) {id : NodeId} {n : Node} {v : ValueId} (hn : g.node? id = some n)
    (hv : v ∈ n.outputs) : ∃ val, g.value? v = some val ∧ val.producer = id := by
  obtain ⟨i, hi⟩ := List.mem_iff_getElem?.1 hv
  obtain ⟨val, hval, hp, -⟩ := h.output_live hn hi
  exact ⟨val, hval, hp⟩

theorem mem_outputs (h : g.WellFormed) {v : ValueId} {val : Value} {n : Node} (hv : g.value? v = some val)
    (hn : g.node? val.producer = some n) : v ∈ n.outputs := by
  obtain ⟨m, hm, hout⟩ := h.produced hv
  obtain rfl : n = m := Option.some.inj (hn.symm.trans hm)
  exact List.mem_of_getElem? hout

theorem mem_outputs_iff (h : g.WellFormed) {id : NodeId} {n : Node} (hn : g.node? id = some n) {v : ValueId}
    {val : Value} (hv : g.value? v = some val) : v ∈ n.outputs ↔ val.producer = id := by
  constructor
  · intro hmem
    obtain ⟨val', hval', hp⟩ := h.output_live' hn hmem
    obtain rfl : val = val' := Option.some.inj (hv.symm.trans hval')
    exact hp
  · rintro rfl
    exact h.mem_outputs hv hn

theorem outputs_nodup (h : g.WellFormed) {id : NodeId} {n : Node} (hn : g.node? id = some n) : n.outputs.Nodup := by
  refine List.nodup_iff_injective_get.2 (fun i j hij => ?_)
  have hi : n.outputs[i.val]? = some (n.outputs.get i) := by simp
  have hj : n.outputs[j.val]? = some (n.outputs.get i) := by rw [hij]; simp
  obtain ⟨val, hval, -, hidx⟩ := h.output_live hn hi
  obtain ⟨val', hval', -, hidx'⟩ := h.output_live hn hj
  obtain rfl : val = val' := Option.some.inj (hval.symm.trans hval')
  exact Fin.ext (hidx.symm.trans hidx')

theorem outputs_disjoint (h : g.WellFormed) {a b : NodeId} {n m : Node} (hn : g.node? a = some n)
    (hm : g.node? b = some m) (hne : a ≠ b) {v : ValueId} (hv : v ∈ n.outputs) : v ∉ m.outputs := by
  intro hout
  obtain ⟨val, hval, hp⟩ := h.output_live' hn hv
  exact hne (hp.symm.trans ((h.mem_outputs_iff hm hval).1 hout))

end WellFormed

/-! ## The dependencies as a digraph -/

theorem size_dependencies (g : Graph) : g.dependencies.size = g.nodeSlots := by
  simp [dependencies, Digraph.size, nodeSlots]

theorem next_dependencies (g : Graph) (id : NodeId) :
    g.dependencies.next id.index = (g.producersOf id).map NodeId.index := by
  unfold dependencies Digraph.next producersOf inputsOf node?
  rw [Array.getD_eq_getD_getElem?, Array.getElem?_map]
  cases g.nodes[id.index]? with
  | none => rfl
  | some slot => cases slot <;> rfl

theorem edge_dependencies {g : Graph} {a b : NodeId} : g.dependencies.Edge a.index b.index ↔ g.DependsOn a b := by
  unfold Digraph.Edge DependsOn
  rw [next_dependencies, List.mem_map]
  constructor
  · rintro ⟨c, hc, hcb⟩
    exact NodeId.ext hcb ▸ hc
  · exact fun h => ⟨b, h, rfl⟩

theorem acyclic_dependencies {g : Graph} : g.dependencies.Acyclic ↔ g.Acyclic := by
  constructor
  · intro h id hid
    exact h id.index (hid.lift NodeId.index (fun _ _ => edge_dependencies.2))
  · intro h i hi
    exact h ⟨i⟩ (hi.lift NodeId.mk (fun a b hab => edge_dependencies.1 hab))

/-- **Dependencies can be followed only so far.** -/
theorem Acyclic.wellFounded {g : Graph} (h : g.Acyclic) : WellFounded (fun b a => g.DependsOn a b) := by
  refine Subrelation.wf ?_ (InvImage.wf NodeId.index (acyclic_dependencies.2 h).wellFounded)
  exact fun hab => TransGen.single (edge_dependencies.2 hab)

/-- If dependencies can be followed only so far, there is no cycle. -/
theorem acyclic_of_wellFounded {g : Graph} (h : WellFounded (fun b a => g.DependsOn a b)) : g.Acyclic := by
  intro id hid
  refine h.transGen.irrefl.irrefl id ?_
  exact Relation.transGen_swap.1 hid

end Graph
end TensorGraph
