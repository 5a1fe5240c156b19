import TensorGraph.Proofs.Pattern.Adequate
import TensorGraph.Proofs.Rewrite.BuiltIn
import TensorGraph.Proofs.Rewrite.SlotBlind
/-!
# The built-in rules do not notice spent slots

Two constructions are parallel if, on a graph and a renamed one, both fail or both answer alike and
leave renamed graphs.  The steps of the built-in rules are parallel to themselves with renamed values
in place of the values, and so is what `bind` makes of them.  The root and the labels of a match are
values of the graph, so their numbers are the same in a graph with spent slots.
-/
namespace TensorGraph

open TensorGraph.Graph

/-- **The constructions do the same on renamed graphs.** -/
def Renaming.Parallel (s : Renaming) {ε ε' α β : Type} (R : α → β → Prop) (c : Attempted ε α) (c' : Attempted ε' β) :
    Prop :=
  ∀ g h, Renamed s g h → Alike R (c.run.run g).1 (c'.run.run h).1 ∧ Renamed s (c.run.run g).2 (c'.run.run h).2

namespace Renaming.Parallel

variable {s : Renaming} {ε ε' α β γ δ : Type} {R : α → β → Prop} {S : γ → δ → Prop}

theorem pure {a : α} {b : β} (h : R a b) : s.Parallel R (pure a : Attempted ε α) (pure b : Attempted ε' β) :=
  fun _ _ hgh => ⟨h, hgh⟩

theorem throw (e : ε) (e' : ε') : s.Parallel R (throw e : Attempted ε α) (throw e' : Attempted ε' β) :=
  fun _ _ hgh => ⟨trivial, hgh⟩

theorem mk_pure {x : Except ε α} {y : Except ε' β} (h : Alike R x y) :
    s.Parallel R (ExceptT.mk (Pure.pure x) : Attempted ε α) (ExceptT.mk (Pure.pure y) : Attempted ε' β) :=
  fun _ _ hgh => ⟨h, hgh⟩

/-- To look at the graph, whoever does it sees a renamed one. -/
theorem graph : s.Parallel (Renamed s) (liftM Construction.graph : Attempted ε Graph)
    (liftM Construction.graph : Attempted ε' Graph) := fun _ _ hgh => ⟨hgh, hgh⟩

theorem bind {c : Attempted ε α} {c' : Attempted ε' β} {f : α → Attempted ε γ} {f' : β → Attempted ε' δ}
    (h : s.Parallel R c c') (hf : ∀ a b, R a b → s.Parallel S (f a) (f' b)) : s.Parallel S (c >>= f) (c' >>= f') := by
  intro g k hgk
  obtain ⟨hanswer, hgraph⟩ := h g k hgk
  rw [Construction.run_attempted_bind, Construction.run_attempted_bind]
  cases hx : (c.run.run g).1 with
  | error e =>
    cases hy : (c'.run.run k).1 with
    | error e' => exact ⟨trivial, hgraph⟩
    | ok b =>
      rw [hx, hy] at hanswer
      exact hanswer.elim
  | ok a =>
    cases hy : (c'.run.run k).1 with
    | error e' =>
      rw [hx, hy] at hanswer
      exact hanswer.elim
    | ok b =>
      rw [hx, hy] at hanswer
      exact hf a b hanswer _ _ hgraph

theorem orInvalid {c : Attempted ValidationError α} {c' : Attempted ValidationError β} (h : s.Parallel R c c') :
    s.Parallel R (Construction.orInvalid c) (Construction.orInvalid c') := by
  intro g k hgk
  obtain ⟨hanswer, hgraph⟩ := h g k hgk
  rw [Construction.run_orInvalid, Construction.run_orInvalid]
  refine ⟨?_, hgraph⟩
  cases hx : (c.run.run g).1 <;> cases hy : (c'.run.run k).1 <;> rw [hx, hy] at hanswer <;> exact hanswer

/-- **To add a value is to add the renamed value.** -/
theorem addValue (s : Renaming) (name : Option String) (op : Op) (inputs : List ValueId) :
    s.Parallel (fun v w => w = s.onValue v) (Construction.addValue name op inputs)
      (Construction.addValue name op (inputs.map s.onValue)) := by
  intro g k hgk
  have hinsert := hgk.insert name op inputs
  rw [Construction.run_addValue, Construction.run_addValue]
  unfold Construction.addNode Construction.run
  cases hx : g.insert name op inputs <;> cases hy : k.insert name op (inputs.map s.onValue) <;> rw [hx, hy] at hinsert
  · exact ⟨trivial, hgk⟩
  · exact hinsert.elim
  · exact hinsert.elim
  · exact ⟨hinsert.2.1, hinsert.2.2⟩

end Renaming.Parallel

/-! ## Expansions -/

namespace Expansion

variable {s : Renaming}

theorem parallel_elementwise (op : BinaryOp) (x y : ValueId) :
    s.Parallel (fun v w => w = s.onValue v) (elementwise op x y) (elementwise op (s.onValue x) (s.onValue y)) :=
  .addValue s none _ [x, y]

theorem parallel_fusedMultiplyAddOf (x y z : ValueId) : s.Parallel (fun v w => w = s.onValue v)
    (fusedMultiplyAddOf x y z) (fusedMultiplyAddOf (s.onValue x) (s.onValue y) (s.onValue z)) := by
  refine .bind (parallel_elementwise .multiply x y) (fun product _ h => ?_)
  subst h
  exact parallel_elementwise .add product z

theorem parallel_hardSigmoidOf (x alpha beta : ValueId) : s.Parallel (fun v w => w = s.onValue v)
    (hardSigmoidOf x alpha beta) (hardSigmoidOf (s.onValue x) (s.onValue alpha) (s.onValue beta)) := by
  refine .bind .graph (fun g h hgh => ?_)
  rw [hgh.type?]
  split
  · rename_i type _
    refine .bind (.mk_pure (.self _)) (fun zeros _ hzeros => ?_)
    subst hzeros
    refine .bind (.addValue s none _ []) (fun zero _ hzero => ?_)
    refine .bind (.mk_pure (.self _)) (fun ones _ hones => ?_)
    subst hones
    refine .bind (.addValue s none _ []) (fun one _ hone => ?_)
    refine .bind (parallel_elementwise .multiply alpha x) (fun scaled _ hscaled => ?_)
    subst hscaled
    refine .bind (parallel_elementwise .add scaled beta) (fun shifted _ hshifted => ?_)
    subst hzero hone hshifted
    refine .bind (parallel_elementwise .maximum shifted zero) (fun lower _ hlower => ?_)
    subst hlower
    exact parallel_elementwise .minimum lower one
  · exact .throw _ _

theorem parallel_onThree {type : OpType} {expand : ValueId → ValueId → ValueId → Attempted ValidationError ValueId}
    (h : ∀ x y z, s.Parallel (fun v w => w = s.onValue v) (expand x y z)
      (expand (s.onValue x) (s.onValue y) (s.onValue z))) (inputs : List ValueId) :
    s.Parallel (fun v w => w = s.onValue v) (onThree type expand inputs) (onThree type expand (inputs.map s.onValue)) := by
  match inputs with
  | [x, y, z] => exact h x y z
  | [] | [_] | [_, _] | _ :: _ :: _ :: _ :: _ => exact .throw _ _

end Expansion

theorem Op.parallel_expansion {s : Renaming} {op : Op} {expand : List ValueId → Attempted ValidationError ValueId}
    (hexpand : op.expansion? = some expand) (inputs : List ValueId) :
    s.Parallel (fun v w => w = s.onValue v) (expand inputs) (expand (inputs.map s.onValue)) := by
  rcases Op.expansion?_eq_some hexpand with ⟨-, rfl⟩ | ⟨-, rfl⟩
  · exact Expansion.parallel_onThree Expansion.parallel_hardSigmoidOf inputs
  · exact Expansion.parallel_onThree Expansion.parallel_fusedMultiplyAddOf inputs

/-! ## The replacements -/

namespace Rule

/-- The renaming leaves the values of the match alone. -/
structure Fixes (s : Renaming) (m : Match) : Prop where
  root : s.onValue m.root = m.root
  label : ∀ name v, m.get? name = some v → s.onValue v = v

variable {s : Renaming} {m : Match}

theorem Fixes.labelled (h : Fixes s m) (name : String) :
    s.Parallel (fun v w => w = s.onValue v ∧ w = v) (labelled m name) (labelled m name) := by
  unfold Rule.labelled
  cases hv : m.get? name with
  | none => exact .throw _ _
  | some v => exact .pure ⟨(h.label name v hv).symm, rfl⟩

theorem Fixes.producer? (h : Fixes s m) {g k : Graph} (hgk : Renamed s g k) :
    k.producer? m.root = (g.producer? m.root).map s.nodeOf := by
  have hroot := hgk.producer? m.root
  rwa [h.root] at hroot

theorem Fixes.fuseMultiplyAdd (h : Fixes s m) :
    s.Parallel (fun v w => w = s.onValue v) (fuseMultiplyAdd m) (fuseMultiplyAdd m) := by
  refine .bind (h.labelled "a") (fun a _ ha => ?_)
  refine .bind (h.labelled "b") (fun b _ hb => ?_)
  refine .bind (h.labelled "c") (fun c _ hc => ?_)
  refine .bind .graph (fun g k hgk => ?_)
  have hname : (k.producer? m.root).bind Node.name = (g.producer? m.root).bind Node.name := by
    rw [h.producer? hgk]
    cases g.producer? m.root <;> rfl
  rw [hname, ha.1, hb.1, hc.1]
  exact .orInvalid (.addValue s _ _ [a, b, c])

theorem Fixes.decompose (h : Fixes s m) :
    s.Parallel (fun v w => w = s.onValue v) (decompose m) (decompose m) := by
  refine .bind .graph (fun g k hgk => ?_)
  rw [h.producer? hgk]
  cases g.producer? m.root with
  | none => exact .throw _ _
  | some n =>
    simp only [Option.map_some, Renaming.nodeOf]
    cases hexpand : n.op.expansion? with
    | none => exact .throw _ _
    | some expand => exact .orInvalid (Op.parallel_expansion hexpand n.inputs)

theorem Fixes.skipIdentity (h : Fixes s m) :
    s.Parallel (fun v w => w = s.onValue v) (skipIdentity m) (skipIdentity m) := by
  refine .bind (h.labelled "input") (fun input input' hinput => ?_)
  obtain ⟨hfixed, hsame⟩ := hinput
  subst hsame
  refine .bind .graph (fun g k hgk => ?_)
  have hinput := hgk.type? input'
  rw [← hfixed] at hinput
  have hroot := hgk.type? m.root
  rw [h.root] at hroot
  rw [h.producer? hgk, hinput, hroot]
  cases g.producer? m.root with
  | none => exact .throw _ _
  | some n =>
    cases g.type? input' with
    | none => exact .throw _ _
    | some input =>
      cases g.type? m.root with
      | none => exact .throw _ _
      | some output =>
        simp only [Option.map_some, Renaming.nodeOf]
        split
        · exact .pure hfixed
        · exact .throw _ _

/-! ## The rules -/

variable {rule : Rule} {g : Graph}

/-- Spent slots leave the values of a match alone. -/
theorem fixes_of_matchValue? {root : ValueId} (h : rule.pattern.matchValue? g root = some m) (n k : Nat) :
    Fixes (g.shift n k) m where
  root := by
    obtain ⟨hroot, -, -, _, _, hderives, -⟩ := Pattern.derives_of_matchValue? h
    exact onValue_shift_of_live (hroot ▸ hderives.live) n k
  label _ _ hv := onValue_shift_of_live (Pattern.live_of_get? h hv) n k

/-- A replacement that is parallel to itself does not notice spent slots. -/
theorem SlotBlind.of_parallel
    (hholds : ∀ predicate ∈ rule.pattern.predicates, ∀ (g : Graph) (n m : Nat) (v : ValueId),
      predicate.holds (g.spend n m) v = predicate.holds g v)
    (hreplacement : ∀ s m, Fixes s m →
      s.Parallel (fun v w => w = s.onValue v) (rule.replacement m) (rule.replacement m)) : rule.SlotBlind where
  holds := hholds
  replacement {g _ found} hg hfound n k := by
    have h := hreplacement _ found (fixes_of_matchValue? hfound n k) g (g.spend n k) (renamed_spend hg n k)
    obtain ⟨a, grown, hrun⟩ : ∃ a grown, (rule.replacement found).run.run g = (a, grown) := ⟨_, _, rfl⟩
    obtain ⟨a', grown', hrun'⟩ : ∃ a' grown', (rule.replacement found).run.run (g.spend n k) = (a', grown') :=
      ⟨_, _, rfl⟩
    rw [hrun, hrun'] at h ⊢
    cases a <;> cases a'
    · trivial
    · exact h.1.elim
    · exact h.1.elim
    · exact h

theorem holds_singleUse_spend (g : Graph) (n m : Nat) (v : ValueId) :
    Predicate.singleUse.holds (g.spend n m) v = Predicate.singleUse.holds g v := by
  unfold Predicate.singleUse consumerCount
  simp only [value?_spend]
  rfl

theorem built_of_ofSketch {name : String} {sketch : Sketch PatternId}
    {replacement : Match → Attempted RewriteError ValueId} (h : ofSketch name sketch replacement = .ok rule) :
    ∃ (b : PatternBuilder) (start : PatternId), b.build start = .ok rule.pattern := by
  obtain ⟨p, hp, h⟩ := bind_eq_ok.1 h
  obtain rfl := Except.ok.inj h
  exact ⟨_, _, hp⟩

/-- **The built-in rules do not notice spent slots**, and their patterns were built. -/
theorem slotBlind_of_builtIn
    (hrule : Except.ok rule ∈ [multiplyAddFusion, decomposeComposites, identityElimination]) :
    rule.SlotBlind ∧ ∃ (b : PatternBuilder) (start : PatternId), b.build start = .ok rule.pattern := by
  simp only [List.mem_cons, List.not_mem_nil, or_false] at hrule
  rcases hrule with hrule | hrule | hrule
  · refine ⟨?_, built_of_ofSketch hrule.symm⟩
    obtain rfl := ofSketch_eq_ok hrule.symm
    refine .of_parallel (fun predicate hpredicate => ?_) (fun _ _ h => h.fuseMultiplyAdd)
    obtain rfl : predicate = Predicate.singleUse := List.mem_singleton.1 hpredicate
    exact holds_singleUse_spend
  · refine ⟨?_, built_of_ofSketch hrule.symm⟩
    obtain rfl := ofSketch_eq_ok hrule.symm
    exact .of_parallel (fun _ hpredicate => nomatch hpredicate) (fun _ _ h => h.decompose)
  · refine ⟨?_, built_of_ofSketch hrule.symm⟩
    obtain rfl := ofSketch_eq_ok hrule.symm
    exact .of_parallel (fun _ hpredicate => nomatch hpredicate) (fun _ _ h => h.skipIdentity)

end Rule
end TensorGraph
