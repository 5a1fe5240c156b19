import TensorGraph.Proofs.Graph.Growth
import TensorGraph.Proofs.Graph.Order
import TensorGraph.Proofs.Graph.Redirect
import TensorGraph.Proofs.Graph.Remove
import TensorGraph.Proofs.Graph.Retype
/-!
# Meaning — what the values of a graph denote

An interpretation says what the operations compute; a parameter denotes what the interpretation
gives its node.  `denote` evaluates a value by recursion along the inputs.

The denotations of a well-formed graph are the only solution of its equations, one for each
value (`solves_denote`, `solves_unique`).  So to see that an edit keeps the meaning of values it
is enough that the denotations before it solve the equations after it.
-/
namespace TensorGraph

/-- What operations compute: from the denotations of the inputs those of the outputs. -/
structure Interpretation (D : Type) where
  parameter : NodeId → List D
  apply : Op → List D → List D

namespace Interpretation

variable {D : Type} (I : Interpretation D)

/-- All of the denotations, if there are as many as positions. -/
def collect : List (Option D) → Option (List D)
  | [] => some []
  | none :: _ => none
  | some d :: rest => (collect rest).map (fun ds => d :: ds)

/-- The denotations of the outputs of a node. -/
def outputs (id : NodeId) (op : Op) (inputs : List (Option D)) : List D :=
  if op.type = .parameter then I.parameter id
  else ((collect inputs).map (I.apply op)).getD []

/-- The denotation of a value, from those of the inputs of its producer. -/
def step (g : Graph) (e : ValueId → Option D) (v : ValueId) : Option D :=
  (g.value? v).bind (fun val => (g.node? val.producer).bind (fun n =>
    (I.outputs val.producer n.op (n.inputs.map e))[val.index]?))

/-- Evaluate along at most so many inputs. -/
def denoteWithin (g : Graph) : Nat → ValueId → Option D
  | 0, _ => none
  | fuel + 1, v => I.step g (denoteWithin g fuel) v

/-- **The denotation of a value.**  No chain of inputs is longer than there are nodes. -/
def denote (g : Graph) (v : ValueId) : Option D := I.denoteWithin g g.nodeSlots v

/-- The equations of the graph hold. -/
def Solves (g : Graph) (e : ValueId → Option D) : Prop := ∀ v, e v = I.step g e v

variable {I} {g h : Graph} {e e' : ValueId → Option D}

theorem step_eq_none (hv : g.value? v = none) : I.step g e v = none := by
  rw [step, hv, Option.bind_none]

theorem step_eq {v : ValueId} {val : Value} {n : Node} (hv : g.value? v = some val)
    (hn : g.node? val.producer = some n) :
    I.step g e v = (I.outputs val.producer n.op (n.inputs.map e))[val.index]? := by
  rw [step, hv, Option.bind_some, hn, Option.bind_some]

theorem step_congr {v : ValueId} (he : ∀ w, ∀ p, g.producerId? v = some p → w ∈ g.inputsOf p → e w = e' w) :
    I.step g e v = I.step g e' v := by
  unfold step
  cases hv : g.value? v with
  | none => rfl
  | some val =>
    rw [Option.bind_some, Option.bind_some]
    cases hn : g.node? val.producer with
    | none => rfl
    | some n =>
      have hin : g.inputsOf val.producer = n.inputs := by rw [Graph.inputsOf, hn]; rfl
      have hmap : n.inputs.map e = n.inputs.map e' :=
        List.map_congr_left (fun w hw => he w val.producer (Graph.producerId?_eq_some hv) (hin ▸ hw))
      rw [Option.bind_some, Option.bind_some, hmap]

/-! ## The equations have one solution -/

theorem dependsOn_of_mem_inputsOf {w : ValueId} {p q : NodeId} (hw : w ∈ g.inputsOf p) (hq : g.producerId? w = some q) :
    g.DependsOn p q := List.mem_filterMap.2 ⟨w, hw, hq⟩

theorem denoteWithin_dead {v : ValueId} (hv : g.value? v = none) : ∀ fuel, I.denoteWithin g fuel v = none
  | 0 => rfl
  | _ + 1 => step_eq_none hv

/-- More fuel than the rank of the producer makes no difference. -/
theorem denoteWithin_eq (hg : g.WellFormed) : ∀ (m n : Nat) (v : ValueId),
    (∀ p, g.producerId? v = some p → g.rank p < m ∧ g.rank p < n) → I.denoteWithin g m v = I.denoteWithin g n v := by
  intro m
  induction m with
  | zero =>
    intro n v hrank
    cases hv : g.value? v with
    | none => rw [denoteWithin_dead hv, denoteWithin_dead hv]
    | some val => exact absurd (hrank _ (Graph.producerId?_eq_some hv)).1 (Nat.not_lt_zero _)
  | succ m ih =>
    intro n v hrank
    cases n with
    | zero =>
      cases hv : g.value? v with
      | none => rw [denoteWithin_dead hv, denoteWithin_dead hv]
      | some val => exact absurd (hrank _ (Graph.producerId?_eq_some hv)).2 (Nat.not_lt_zero _)
    | succ n =>
      refine step_congr (fun w p hp hw => ih n w (fun q hq => ?_))
      obtain ⟨val, hval, rfl⟩ := Option.map_eq_some_iff.1 hq
      have hlt := Graph.rank_lt_of_dependsOn hg (dependsOn_of_mem_inputsOf hw hq)
      have := hrank p hp
      omega

/-- **The denotations solve the equations of a well-formed graph.** -/
theorem solves_denote (hg : g.WellFormed) : I.Solves g (I.denote g) := by
  intro v
  cases hv : g.value? v with
  | none => rw [denote, denoteWithin_dead hv, step_eq_none hv]
  | some val =>
    obtain ⟨n, hn, -⟩ := hg.produced hv
    have hlt := Graph.rank_lt_nodeSlots hg hn
    obtain ⟨fuel, hfuel⟩ := Nat.exists_eq_succ_of_ne_zero (Nat.ne_of_gt (Nat.zero_lt_of_lt hlt))
    rw [hfuel] at hlt
    have hstep : I.denote g v = I.step g (I.denoteWithin g fuel) v := by
      rw [denote, hfuel]
      rfl
    rw [hstep]
    refine step_congr (fun w p hp hw => denoteWithin_eq hg _ _ w (fun q hq => ?_))
    obtain rfl : val.producer = p := Option.some.inj ((Graph.producerId?_eq_some hv).symm.trans hp)
    obtain ⟨old, hold, rfl⟩ := Option.map_eq_some_iff.1 hq
    have hless := Graph.rank_lt_of_dependsOn hg (dependsOn_of_mem_inputsOf hw hq)
    rw [hfuel]
    omega

/-- **A well-formed graph has one solution.** -/
theorem solves_unique (hg : g.WellFormed) (he : I.Solves g e) (he' : I.Solves g e') (v : ValueId) : e v = e' v := by
  have hnode : ∀ (p : NodeId) (w : ValueId), g.producerId? w = some p → e w = e' w := by
    -- by induction along the dependencies of the producer
    intro p
    induction p using hg.acyclic.wellFounded.induction with
    | _ p ih =>
      intro v hp
      rw [he v, he' v]
      refine step_congr (fun w q hq hw => ?_)
      obtain rfl : p = q := Option.some.inj (hp.symm.trans hq)
      cases hval : g.value? w with
      | none => rw [he w, he' w, step_eq_none hval, step_eq_none hval]
      | some val =>
        have hprod := Graph.producerId?_eq_some hval
        exact ih val.producer (dependsOn_of_mem_inputsOf hw hprod) w hprod
  cases hv : g.value? v with
  | none => rw [he v, he' v, step_eq_none hv, step_eq_none hv]
  | some val => exact hnode val.producer v (Graph.producerId?_eq_some hv)

/-! ## Edits that keep the meaning -/

/-- **The second graph means what the first did**: its results do, and so does every value that is left. -/
structure Preserves (I : Interpretation D) (g h : Graph) : Prop where
  results : h.results.map (I.denote h) = g.results.map (I.denote g)
  valueSlots_le : g.valueSlots ≤ h.valueSlots
  survived : ∀ {v : ValueId}, v.index < g.valueSlots → (h.value? v).isSome = true →
    (g.value? v).isSome = true ∧ I.denote h v = I.denote g v

namespace Preserves

theorem refl (I : Interpretation D) (g : Graph) : I.Preserves g g := ⟨rfl, Nat.le_refl _, fun _ hv => ⟨hv, rfl⟩⟩

theorem trans {k : Graph} (hgh : I.Preserves g h) (hhk : I.Preserves h k) : I.Preserves g k := by
  refine ⟨hhk.results.trans hgh.results, Nat.le_trans hgh.valueSlots_le hhk.valueSlots_le, fun {v} hlt hv => ?_⟩
  obtain ⟨hh, hkh⟩ := hhk.survived (Nat.lt_of_lt_of_le hlt hgh.valueSlots_le) hv
  obtain ⟨hg, hhg⟩ := hgh.survived hlt hh
  exact ⟨hg, hkh.trans hhg⟩

theorem of_denote (hframe : Graph.SameFrame g h) (hlive : ∀ v, (h.value? v).isSome = (g.value? v).isSome)
    (hdenote : ∀ v, I.denote h v = I.denote g v) : I.Preserves g h := by
  refine ⟨?_, Nat.le_of_eq hframe.valueSlots.symm, fun {v} _ hv => ⟨hlive v ▸ hv, hdenote v⟩⟩
  rw [hframe.results]
  exact List.map_congr_left (fun v _ => hdenote v)

end Preserves

/-- Denotations that solve the equations after an edit are kept by it. -/
theorem denote_eq_of_step (hg : g.WellFormed) (hh : h.WellFormed)
    (hstep : ∀ v, I.step h (I.denote g) v = I.step g (I.denote g) v) (v : ValueId) : I.denote h v = I.denote g v :=
  solves_unique hh (solves_denote hh) (fun w => (solves_denote hg w).trans (hstep w).symm) v

theorem step_of_same (hnode : ∀ id, h.node? id = g.node? id)
    (hplace : ∀ v, (h.value? v).map Value.place = (g.value? v).map Value.place) (v : ValueId) :
    I.step h e v = I.step g e v := by
  have hv := hplace v
  cases hold : g.value? v with
  | none =>
    rw [hold] at hv
    rw [step_eq_none hold, step_eq_none (Option.map_eq_none_iff.1 hv)]
  | some old =>
    rw [hold] at hv
    obtain ⟨val, hval, he⟩ := Option.map_eq_some_iff.1 hv
    simp only [Value.place, Prod.mk.injEq] at he
    unfold step
    rw [hval, hold, Option.bind_some, Option.bind_some, hnode, he.1, he.2]

theorem preserves_retyped (hg : g.WellFormed) (hgh : Graph.Retyped g h) : I.Preserves g h :=
  .of_denote hgh.frame hgh.sameEdges.value?_isSome
    (denote_eq_of_step hg (hgh.wellFormed hg) (step_of_same hgh.node?_eq hgh.sameEdges.place))

/-! ### Redirection -/

theorem denote_swap {source target : ValueId} (heq : I.denote g target = I.denote g source) (v : ValueId) :
    I.denote g (Graph.swap source target v) = I.denote g v := by
  unfold Graph.swap
  split
  · rename_i hv
    rw [hv, heq]
  · rfl

theorem step_redirect {source target : ValueId} {keep : List NodeId} (hg : g.WellFormed) (hne : source ≠ target)
    (heq : I.denote g target = I.denote g source) (v : ValueId) :
    I.step (g.redirect source target keep).2 (I.denote g) v = I.step g (I.denote g) v := by
  have hlive : ((g.redirect source target keep).2.value? v).isSome = (g.value? v).isSome :=
    Graph.value?_redirect_isSome hne
  cases hval : (g.redirect source target keep).2.value? v with
  | none =>
    rw [hval, Option.isSome_none] at hlive
    rw [step_eq_none hval, step_eq_none (by simpa using hlive.symm)]
  | some val =>
    obtain ⟨old, hv, hp, hi⟩ := Graph.value?_of_redirect hne hval
    obtain ⟨n, hn, -⟩ := hg.produced hv
    have hn' : (g.redirect source target keep).2.node? val.producer = some _ := hp ▸ Graph.node?_redirect_of hg hn
    rw [step_eq hv hn, step_eq hval hn', hp, hi]
    simp only
    split
    · rfl
    · have hmap : n.inputs.map (I.denote g ∘ Graph.swap source target) = n.inputs.map (I.denote g) :=
        List.map_congr_left (fun w _ => denote_swap heq w)
      rw [List.map_map, hmap]

/-- **Moving readers to a value of the same denotation keeps the meaning.** -/
theorem preserves_redirect {source target : ValueId} {keep : List NodeId} (hg : g.WellFormed) (hne : source ≠ target)
    (hmoved : (g.redirect source target keep).2.WellFormed) (heq : I.denote g target = I.denote g source) :
    I.Preserves g (g.redirect source target keep).2 := by
  have hdenote := denote_eq_of_step hg hmoved (step_redirect hg hne heq)
  refine ⟨?_, Nat.le_of_eq (g.sameFrame_moveUses source target _).valueSlots.symm, fun {v} _ hv => ?_⟩
  · rw [Graph.results_redirect, List.map_map]
    exact List.map_congr_left (fun v _ => (hdenote _).trans (denote_swap heq v))
  · rw [Graph.value?_redirect_isSome hne] at hv
    exact ⟨hv, hdenote v⟩

/-! ### Taking out and adding -/

theorem solves_takeOut (hg : g.WellFormed) {id : NodeId} {n : Node} (hn : g.node? id = some n)
    (hun : n.outputs.all g.isUnused = true) :
    I.Solves (g.takeOut id n) (fun v => if v ∈ n.outputs then none else I.denote g v) := by
  intro v
  have hvalue := Graph.value?_takeOut (hg.mem_inputs_of_use hn) v
  simp only
  by_cases hout : v ∈ n.outputs
  · rw [if_pos hout] at hvalue
    rw [if_pos hout, step_eq_none hvalue]
  rw [if_neg hout, solves_denote hg v]
  cases hv : g.value? v with
  | none =>
    rw [if_neg hout, hv, Option.map_none] at hvalue
    rw [step_eq_none hv, step_eq_none hvalue]
  | some val =>
    obtain ⟨m, hm, -⟩ := hg.produced hv
    have hne : id ≠ val.producer := fun he => hout ((hg.mem_outputs_iff hn hv).2 he.symm)
    have hm' : (g.takeOut id n).node? val.producer = some m := by rw [Graph.node?_takeOut, if_neg hne, hm]
    have hinputs : m.inputs.map (fun v => if v ∈ n.outputs then none else I.denote g v) =
        m.inputs.map (I.denote g) := by
      refine List.map_congr_left (fun w hw => ?_)
      obtain ⟨i, hreads⟩ := Graph.reads_of_mem_inputs hm hw
      rw [if_neg (Graph.not_mem_outputs_of_reads hg hun hreads)]
    rw [step_eq hv hm, step_eq (Graph.value?_takeOut_of hg hn hv hout) hm', hinputs]
    rfl

/-- **Taking out a node whose outputs are unused keeps the meaning of what is left.** -/
theorem preserves_takeOut (hg : g.WellFormed) {id : NodeId} {n : Node} (hn : g.node? id = some n)
    (hun : n.outputs.all g.isUnused = true) : I.Preserves g (g.takeOut id n) := by
  have hh := Graph.wellFormed_takeOut hg hn hun
  have hdenote : ∀ v, v ∉ n.outputs → I.denote (g.takeOut id n) v = I.denote g v := fun v hv => by
    rw [solves_unique hh (solves_denote hh) (solves_takeOut hg hn hun) v, if_neg hv]
  refine ⟨?_, Nat.le_of_eq (g.valueSlots_takeOut id n).symm, fun {v} _ hv => ?_⟩
  · rw [Graph.results_takeOut]
    exact List.map_congr_left (fun v hv =>
      hdenote v (fun hout => (Graph.isUnused_iff.1 (List.all_eq_true.1 hun v hout)).1 hv))
  · obtain ⟨val, hval⟩ := Option.isSome_iff_exists.1 hv
    obtain ⟨hout, old, hold, -⟩ := Graph.value?_of_takeOut hg hn hval
    exact ⟨by rw [hold]; rfl, hdenote v hout⟩

theorem solves_of_extends (hg : g.WellFormed) (hh : h.WellFormed) (hgh : Graph.Extends g h) :
    I.Solves g (fun v => if (g.value? v).isSome then I.denote h v else none) := by
  intro v
  simp only
  cases hv : g.value? v with
  | none => rw [step_eq_none hv, Option.isSome_none, if_neg Bool.false_ne_true]
  | some val =>
    obtain ⟨more, -, hval⟩ := hgh.value?_of_value? hv
    obtain ⟨n, hn, -⟩ := hg.produced hv
    have hinputs : n.inputs.map (fun v => if (g.value? v).isSome then I.denote h v else none) =
        n.inputs.map (I.denote h) :=
      List.map_congr_left (fun w hw => by rw [if_pos (hg.input_live hn hw)])
    rw [Option.isSome_some, if_pos rfl, solves_denote hh v, step_eq hv hn, step_eq hval (hgh.node?_of_node? hn),
      hinputs]

/-- **Adding nodes keeps the meaning of what was there.** -/
theorem preserves_grown (hg : g.WellFormed) (hgh : Graph.Grown g h) : I.Preserves g h := by
  have hh := hgh.wellFormed hg
  have hext := hgh.extends hg
  have hdenote : ∀ v, (g.value? v).isSome = true → I.denote h v = I.denote g v := fun v hv => by
    rw [solves_unique hg (solves_denote hg) (solves_of_extends hg hh hext) v, if_pos hv]
  refine ⟨?_, hext.valueSlots_le, fun {v} hlt hv => ?_⟩
  · rw [hext.results]
    exact List.map_congr_left (fun v hv => hdenote v (hg.result_live v hv))
  · obtain ⟨more, -, hval⟩ := hext.value?_old hlt
    rw [hval, Option.isSome_map] at hv
    exact ⟨hv, hdenote v hv⟩

end Interpretation
end TensorGraph
