import TensorGraph.Proofs.Rewrite.Edit
/-!
# Trace — an application that comes to nothing

A rule that declines, answers with the matched value or is rejected leaves the graph as it was
in all that can be observed, down to the order of every list of uses.  All it takes are the
identifiers of the nodes and values that it had added.
-/
namespace TensorGraph

open TensorGraph.Graph

/-- **Nothing happened but that slots were spent.** -/
structure Graph.SlotsSpent (g h : Graph) : Prop where
  nodeIds : h.nodeIds = g.nodeIds
  valueIds : h.valueIds = g.valueIds
  node? : ∀ id, h.node? id = g.node? id
  value? : ∀ v, h.value? v = g.value? v
  name : h.name = g.name
  registry : h.registry = g.registry
  parameters : h.parameters = g.parameters
  results : h.results = g.results
  spent : ∃ n m, h = g.spend n m

namespace Graph

theorem filter_map_range_spend {α : Type} (mk : Nat → α) (live : α → Bool) (size n : Nat)
    (hlive : ∀ i, size ≤ i → live (mk i) = false) :
    ((List.range (size + n)).map mk).filter live = ((List.range size).map mk).filter live := by
  induction n with
  | zero => rfl
  | succ n ih =>
    rw [← Nat.add_assoc, List.range_succ, List.map_append, List.filter_append, ih]
    simp [hlive (size + n) (Nat.le_add_right _ _)]

theorem nodeIds_spend (g : Graph) (n m : Nat) : (g.spend n m).nodeIds = g.nodeIds := by
  simp only [nodeIds, node?_spend, nodeSlots_spend]
  refine filter_map_range_spend NodeId.mk _ g.nodeSlots n (fun i hi => ?_)
  cases hn : g.node? ⟨i⟩ with
  | none => rfl
  | some node => exact absurd (node?_lt hn) (Nat.not_lt.2 hi)

theorem valueIds_spend (g : Graph) (n m : Nat) : (g.spend n m).valueIds = g.valueIds := by
  simp only [valueIds, value?_spend, valueSlots_spend]
  refine filter_map_range_spend ValueId.mk _ g.valueSlots m (fun i hi => ?_)
  cases hv : g.value? ⟨i⟩ with
  | none => rfl
  | some val => exact absurd (value?_lt hv) (Nat.not_lt.2 hi)

theorem slotsSpent_spend (g : Graph) (n m : Nat) : SlotsSpent g (g.spend n m) :=
  ⟨g.nodeIds_spend n m, g.valueIds_spend n m, g.node?_spend n m, g.value?_spend n m, rfl, rfl, rfl, rfl, n, m, rfl⟩

end Graph

namespace Rule

/-- **A rule that is not applied leaves no trace**, whether it declined or was rejected for any reason. -/
theorem slotsSpent_of_not_applied (rule : Rule) (g : Graph) (root : ValueId) (hg : g.WellFormed)
    (hout : ∀ new, (rule.applyAt g root).1 ≠ .applied new) : SlotsSpent g (rule.applyAt g root).2 := by
  obtain ⟨n, m, heq⟩ := applyAt_snd_of_not_applied hg hout
  rw [heq]
  exact slotsSpent_spend g n m

/-- A negation that is read by three nodes and is a result; one of the readers adds a vector of size 3. -/
def negated : Graph :=
  [Edit.addParameter none ⟨.i32, .ranked [.dynamic]⟩, .addParameter none ⟨.i32, .ranked [.fixed 3]⟩,
    .addValue none (.unary .negative) [⟨0⟩], .addValue none (.unary .abs) [⟨2⟩],
    .addValue none (.binary .add .exact) [⟨2⟩, ⟨1⟩], .addValue none (.unary .relu) [⟨2⟩],
    .setResults [⟨4⟩, ⟨2⟩]].foldl Edit.apply (.empty .full)

/-- Replace a negation by a vector of size 2, and read the negation in a node of its own. -/
def shorten : Rule where
  name := "Shorten"
  pattern := ⟨#[.any, .op [.unary .negative] [⟨0⟩] false], ⟨1⟩⟩
  replacement m := do
    let short ← Construction.orInvalid (Construction.addValue none (.constant ⟨.i32 [1, 2], [2]⟩) [])
    let _ ← Construction.orInvalid (Construction.addValue none (.unary .abs) [m.root])
    return short

/-- The addition refuses the shorter vector after all readers were moved, and everything is moved back. -/
theorem slotsSpent_shorten : negated.WellFormed ∧
    (shorten.applyAt negated ⟨2⟩).1 = .rejected (.consumerRejected (.op (.binary .add) (some ⟨4⟩)
      (.incompatibleShapes (.ranked [.fixed 2]) (.ranked [.fixed 3])))) ∧
    SlotsSpent negated (shorten.applyAt negated ⟨2⟩).2 := by
  have hg : negated.WellFormed := wellFormed_edits _ (wellFormed_empty _)
  have hout : (shorten.applyAt negated ⟨2⟩).1 = .rejected (.consumerRejected (.op (.binary .add) (some ⟨4⟩)
      (.incompatibleShapes (.ranked [.fixed 2]) (.ranked [.fixed 3])))) := by decide +kernel
  refine ⟨hg, hout, slotsSpent_of_not_applied shorten negated ⟨2⟩ hg (fun new hnew => ?_)⟩
  rw [hout] at hnew
  cases hnew

end Rule
end TensorGraph
