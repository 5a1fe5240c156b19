import TensorGraph.Proofs.Graph.Meaning
import TensorGraph.Proofs.Rewrite.Edit
import TensorGraph.Rewrite.Rules
/-!
# Meaning of rewrites

A rule is sound at a graph if the value it answers with denotes what the matched root denotes, in
the graph as the rule leaves it.  An application of a sound rule keeps the meaning of the graph,
and an application that comes to nothing keeps the graph.  So a run of a pass keeps the meaning if
the rules are sound at every graph that the run can come to.
-/
namespace TensorGraph

open TensorGraph.Graph

variable {D : Type} {I : Interpretation D}

/-- **The rule is sound at a graph**: if it answers with a value at all, that value denotes what the root does. -/
def Rule.SoundAt (rule : Rule) (I : Interpretation D) (g : Graph) : Prop :=
  ∀ (root new : ValueId) (m : Match) (grown : Graph), rule.pattern.matchValue? g root = some m →
    (rule.replacement m).run.run g = (.ok new, grown) → (grown.value? new).isSome = true →
    I.denote grown new = I.denote grown root

namespace Interpretation

variable {g : Graph}

theorem preserves_removeDead (hg : g.WellFormed) (candidates : List NodeId) :
    I.Preserves g (g.removeDead candidates).1 := by
  have hboth := removeDead_induct (P := fun h => h.WellFormed ∧ I.Preserves g h) (fun h id n hh hn hun =>
    ⟨wellFormed_takeOut hh.1 hn hun, hh.2.trans (preserves_takeOut hh.1 hn hun)⟩) candidates ⟨hg, .refl I g⟩
  exact hboth.2

theorem preserves_spend (hg : g.WellFormed) (n m : Nat) : I.Preserves g (g.spend n m) := by
  have hh := (sameEdges_spend g n m).wellFormed hg
  have hdenote := denote_eq_of_step (I := I) hg hh
    (step_of_same (g.node?_spend n m) (fun v => by rw [value?_spend]))
  refine ⟨List.map_congr_left (fun v _ => hdenote v), ?_, fun {v} _ hv => ?_⟩
  · rw [valueSlots_spend]
    exact Nat.le_add_right _ _
  · rw [value?_spend] at hv
    exact ⟨hv, hdenote v⟩

/-- **Applying a sound rule keeps the meaning**, whatever comes of it. -/
theorem preserves_applyAt {rule : Rule} (hg : g.WellFormed) (hsound : rule.SoundAt I g) (rootId : ValueId) :
    I.Preserves g (rule.applyAt g rootId).2 := by
  refine Rule.applyAt_cases hg (preserves_spend hg) (fun m root new grown updated hs => ?_)
  have hgrown := hs.grown_wellFormed hg
  have hmoved := hs.moved_wellFormed hg
  have heq : I.denote grown new = I.denote grown rootId := hsound rootId new m grown hs.matched hs.built hs.new_live
  have hgrew : I.Preserves g grown := preserves_grown hg hs.grown_of
  have hredirected := hgrew.trans (preserves_redirect hgrown hs.ne.symm hmoved heq)
  have hupdated : I.Preserves g updated := hredirected.trans (preserves_retyped hmoved hs.retyped)
  exact hupdated.trans (preserves_removeDead (hs.updated_wellFormed hg) _)

theorem preserves_follow (pass : Pass) (hg : g.WellFormed)
    (hsound : ∀ log : List (Rule × ValueId), (∀ e ∈ log, e.1 ∈ pass.rules) →
      ∀ rule ∈ pass.rules, rule.SoundAt I (pass.follow g log).graph)
    (log : List (Rule × ValueId)) (hlog : ∀ e ∈ log, e.1 ∈ pass.rules) : I.Preserves g (pass.follow g log).graph := by
  -- from the end, since soundness is asked of the graph before the last application
  induction log using List.reverseRecOn with
  | nil => exact .refl I g
  | append_singleton log e ih =>
    have hbefore : ∀ e' ∈ log, e'.1 ∈ pass.rules := fun e' he' => hlog e' (List.mem_append_left _ he')
    have hrule := hlog e (List.mem_append_right _ (List.mem_singleton.2 rfl))
    rw [pass.graph_follow_concat g log e]
    exact (ih hbefore).trans
      (preserves_applyAt (wellFormed_follow pass hg log hbefore).1 (hsound log hbefore e.1 hrule) e.2)

/-- **A run of sound rules keeps the meaning of a graph**: of every result, position by position, and of every value
that is there before and after. -/
theorem denote_run (I : Interpretation D) (pass : Pass) (g : Graph) (hg : g.WellFormed)
    (hsound : ∀ log : List (Rule × ValueId), (∀ e ∈ log, e.1 ∈ pass.rules) →
      ∀ rule ∈ pass.rules, rule.SoundAt I (pass.follow g log).graph) :
    (pass.run g).2.results.length = g.results.length ∧
    (∀ i : Nat, ((pass.run g).2.results[i]?).map (I.denote (pass.run g).2) = (g.results[i]?).map (I.denote g)) ∧
    ∀ v, (g.value? v).isSome = true → ((pass.run g).2.value? v).isSome = true →
      I.denote (pass.run g).2 v = I.denote g v := by
  obtain ⟨log, hlog, heq, -⟩ := pass.run_eq_follow g
  have hkept := preserves_follow pass hg hsound log hlog
  rw [← heq] at hkept
  refine ⟨?_, fun i => ?_, fun v hv hv' => ?_⟩
  · have hlen := congrArg List.length hkept.results
    simpa using hlen
  · have hi := congrArg (fun l => l[i]?) hkept.results
    simpa using hi
  · obtain ⟨val, hval⟩ := Option.isSome_iff_exists.1 hv
    exact (hkept.survived (value?_lt hval) hv').2

/-! ## Double negation -/

/-- Integers with negation and addition; a parameter denotes 7. -/
def integers : Interpretation Int where
  parameter _ := [7]
  apply
    | .unary .negative, [x] => [-x]
    | .binary .add _, [x, y] => [x + y]
    | _, _ => []

/-- What a value negates, if it is a negation. -/
def negand? (g : Graph) (v : ValueId) : Option ValueId :=
  match g.value? v with
  | none => none
  | some val =>
    match (g.node? val.producer).map (fun n => (n.op, n.inputs)), val.index with
    | some (Op.unary .negative, [x]), 0 => some x
    | _, _ => none

theorem denote_of_negand? (hg : g.WellFormed) {v x : ValueId} (h : negand? g v = some x) :
    integers.denote g v = (integers.denote g x).map (fun d => -d) := by
  unfold negand? at h
  split at h
  · cases h
  rename_i val hv
  split at h
  · rename_i y hnode hidx
    obtain rfl := Option.some.inj h
    obtain ⟨n, hn, hop⟩ := Option.map_eq_some_iff.1 hnode
    simp only [Prod.mk.injEq] at hop
    rw [solves_denote hg v, step_eq hv hn, hop.1, hop.2, hidx, List.map_cons, List.map_nil]
    cases integers.denote g y with
    | none => rfl
    | some d => rfl
  · cases h

/-- Replace the negation of a negation by what that negates. -/
def dropNegations : Rule where
  name := "DropNegations"
  pattern := ⟨#[.any], ⟨0⟩⟩
  replacement m := do
    let g ← Rule.currentGraph
    match (negand? g m.root).bind (negand? g) with
    | some x => return x
    | none => throw .declined

theorem matchValue?_root {p : Pattern} {v : ValueId} {m : Match} (h : p.matchValue? g v = some m) : m.root = v := by
  unfold Pattern.matchValue? at h
  split at h
  · exact (Option.some.inj h) ▸ rfl
  · cases h

theorem run_dropNegations (m : Match) : (dropNegations.replacement m).run.run g =
    (match (negand? g m.root).bind (negand? g) with
      | some x => .ok x
      | none => .error .declined, g) := by
  show Construction.run ((match (negand? g m.root).bind (negand? g) with
    | some x => pure x
    | none => throw .declined : Attempted RewriteError ValueId)).run g = _
  split
  · rfl
  · rfl

theorem soundAt_dropNegations (hg : g.WellFormed) : dropNegations.SoundAt integers g := by
  intro root new m grown hm hrun _
  rw [run_dropNegations, matchValue?_root hm] at hrun
  simp only [Prod.mk.injEq] at hrun
  obtain ⟨hanswer, rfl⟩ := hrun
  split at hanswer
  · rename_i x hx
    obtain rfl := Except.ok.inj hanswer
    obtain ⟨y, hy, hyx⟩ := Option.bind_eq_some_iff.1 hx
    rw [denote_of_negand? hg hy, denote_of_negand? hg hyx, Option.map_map]
    cases integers.denote g x <;> simp
  · cases hanswer

/-- The sum of a vector and its double negation. -/
def negatedTwice : Graph :=
  [Edit.addParameter none ⟨.i32, .ranked [.fixed 2]⟩, .addValue none (.unary .negative) [⟨0⟩],
    .addValue none (.unary .negative) [⟨1⟩], .addValue none (.binary .add .exact) [⟨2⟩, ⟨0⟩],
    .setResults [⟨3⟩, ⟨2⟩]].foldl Edit.apply (.empty .full)

def simplification : Pass := ⟨"Simplification", [dropNegations], .default⟩

/-- Both negations go, and the results denote what they did. -/
theorem denote_run_simplification : negatedTwice.WellFormed ∧
    (∀ log : List (Rule × ValueId), (∀ e ∈ log, e.1 ∈ simplification.rules) →
      ∀ rule ∈ simplification.rules, rule.SoundAt integers (simplification.follow negatedTwice log).graph) ∧
    (simplification.run negatedTwice).1.applied = 1 ∧
    (simplification.run negatedTwice).2.valueIds = [⟨0⟩, ⟨3⟩] ∧
    (simplification.run negatedTwice).2.results = [⟨3⟩, ⟨0⟩] ∧ integers.denote negatedTwice ⟨3⟩ = some 14 ∧
    (∀ i : Nat,
      ((simplification.run negatedTwice).2.results[i]?).map (integers.denote (simplification.run negatedTwice).2) =
        (negatedTwice.results[i]?).map (integers.denote negatedTwice)) := by
  have hg : negatedTwice.WellFormed := wellFormed_edits _ (wellFormed_empty _)
  have hsound : ∀ log : List (Rule × ValueId), (∀ e ∈ log, e.1 ∈ simplification.rules) →
      ∀ rule ∈ simplification.rules, rule.SoundAt integers (simplification.follow negatedTwice log).graph := by
    intro log hlog rule hrule
    obtain rfl := List.mem_singleton.1 hrule
    exact soundAt_dropNegations (wellFormed_follow simplification hg log hlog).1
  exact ⟨hg, hsound, by decide +kernel, by decide +kernel, by decide +kernel, by decide +kernel,
    (denote_run integers simplification negatedTwice hg hsound).2.1⟩

end Interpretation
end TensorGraph
