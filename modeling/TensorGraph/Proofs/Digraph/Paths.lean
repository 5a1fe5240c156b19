import Mathlib.Algebra.GroupWithZero.Nat
import Mathlib.Algebra.Order.BigOperators.Group.Finset
import Mathlib.Data.Fintype.EquivFin
import Mathlib.Logic.Relation
import TensorGraph.Digraph
/-!
# Paths in a digraph, and the steps that a walk has left

Paths are the closures of `Edge`.  A walk pays for a node and for each of its edges once;
`weightOn` adds up what the nodes of a set cost, and `steps` is the cost of them all.
-/
namespace TensorGraph

open Relation (ReflTransGen TransGen)

/-- A path to a marked point has a first marked point on it. -/
theorem exists_first {α : Type} {r : α → α → Prop} {marked : α → Prop} {a b : α} (h : ReflTransGen r a b)
    (hb : marked b) : ∃ c, marked c ∧ ReflTransGen (fun x y => r x y ∧ ¬ marked x) a c := by
  induction h using ReflTransGen.head_induction_on with
  | refl => exact ⟨b, hb, .refl⟩
  | @head a c hac _ ih =>
    by_cases ha : marked a
    · exact ⟨a, ha, .refl⟩
    · obtain ⟨d, hd, hpath⟩ := ih
      exact ⟨d, hd, .head ⟨hac, ha⟩ hpath⟩

namespace Digraph

/-- There is an edge from the first node to the second. -/
def Edge (d : Digraph) (i j : Nat) : Prop := j ∈ d.next i

/-- No path along the edges comes back to where it started. -/
def Acyclic (d : Digraph) : Prop := ∀ i, ¬ TransGen d.Edge i i

/-- What a walk pays for a node: one step to leave it and one for each of its edges. -/
def weight (d : Digraph) (i : Nat) : Nat := 1 + (d.next i).length

def weightOn (d : Digraph) (nodes : Finset Nat) : Nat := ∑ i ∈ nodes, d.weight i

theorem next_of_size_le (d : Digraph) {i : Nat} (h : d.size ≤ i) : d.next i = [] := by
  unfold next
  rw [Array.getD_eq_getD_getElem?, Array.getElem?_eq_none h]
  rfl

theorem Edge.lt_size {d : Digraph} {i j : Nat} (h : d.Edge i j) : i < d.size := by
  by_contra hi
  rw [Edge, d.next_of_size_le (Nat.le_of_not_lt hi)] at h
  cases h

/-- **An acyclic digraph has no infinite path**: its nodes are finitely many. -/
theorem Acyclic.wellFounded {d : Digraph} (h : d.Acyclic) : WellFounded (fun j i => TransGen d.Edge i j) := by
  have hstart : ∀ {i j : Nat}, TransGen d.Edge i j → i < d.size := fun hij => by
    obtain ⟨k, hik, -⟩ := TransGen.head'_iff.1 hij
    exact hik.lt_size
  let below : Fin d.size → Fin d.size → Prop := fun j i => TransGen d.Edge i.val j.val
  have : IsTrans (Fin d.size) below := ⟨fun _ _ _ hab hbc => hbc.trans hab⟩
  have : Std.Irrefl below := ⟨fun i => h i.val⟩
  have hwf : WellFounded below := Finite.wellFounded_of_trans_of_irrefl below
  have hacc : ∀ i : Fin d.size, Acc (fun j i => TransGen d.Edge i j) i.val := fun i => by
    induction i using hwf.induction with
    | _ i ih =>
      refine ⟨_, fun j hij => ?_⟩
      by_cases hj : j < d.size
      · exact ih ⟨j, hj⟩ hij
      · exact ⟨_, fun k hjk => absurd (hstart hjk) hj⟩
  refine ⟨fun i => ?_⟩
  by_cases hi : i < d.size
  · exact hacc ⟨i, hi⟩
  · exact ⟨_, fun j hij => absurd (hstart hij) hi⟩

/-! ## Weights -/

theorem weightOn_erase (d : Digraph) (nodes : Finset Nat) {i : Nat} (h : i ∈ nodes) :
    d.weightOn (nodes.erase i) + d.weight i = d.weightOn nodes := by
  unfold weightOn
  rw [Nat.add_comm, Finset.add_sum_erase nodes d.weight h]

theorem foldl_steps : ∀ (rows : List (List Nat)) (n : Nat),
    rows.foldl (fun n js => n + 1 + js.length) n
      = n + ∑ i ∈ Finset.range rows.length, (1 + (rows.getD i []).length)
  | [], n => by simp
  | js :: rows, n => by
    rw [List.foldl_cons, foldl_steps rows, List.length_cons, Finset.sum_range_succ']
    simp only [List.getD_cons_succ, List.getD_cons_zero]
    omega

theorem steps_eq (d : Digraph) : d.steps = d.weightOn (Finset.range d.size) := by
  unfold steps weightOn
  rw [← Array.foldl_toList, foldl_steps, Nat.zero_add]
  refine Finset.sum_congr (by simp [size]) (fun i _ => ?_)
  simp [weight, next, Array.getD_eq_getD_getElem?, List.getD_eq_getElem?_getD]

theorem weightOn_le_steps (d : Digraph) (nodes : Finset Nat) (h : nodes ⊆ Finset.range d.size) :
    d.weightOn nodes ≤ d.steps := by
  rw [steps_eq]
  exact Finset.sum_le_sum_of_subset h

end Digraph
end TensorGraph
