import TensorGraph.Proofs.Graph.Meaning
import TensorGraph.Proofs.Graph.Typing
import TensorGraph.Proofs.Information.Answers
import TensorGraph.Rewrite.Rules
/-!
# Construct — the meaning of what a rule adds

A construction that succeeds has succeeded at every step (`run_bind_eq_ok`).  A step that adds a
value leaves the denotations that there were, and the new value denotes what its operation makes
of those of the inputs.
-/
namespace TensorGraph

namespace Construction

variable {ε α β : Type} {g h k : Graph}

theorem run_attempted_bind (x : Attempted ε α) (f : α → Attempted ε β) (g : Graph) :
    (x >>= f).run.run g = Construction.run (ExceptT.bindCont f (x.run.run g).1) (x.run.run g).2 :=
  run_bind x.run (ExceptT.bindCont f) g

theorem run_orInvalid (step : Attempted ValidationError α) (g : Graph) : (orInvalid step).run.run g =
    ((step.run.run g).1.mapError RewriteError.invalid, (step.run.run g).2) := run_bind step.run _ g

theorem run_addValue (name : Option String) (op : Op) (inputs : List ValueId) (g : Graph) :
    (addValue name op inputs).run.run g =
      (((addNode name op inputs).run g).1.map Prod.snd, ((addNode name op inputs).run g).2) :=
  run_bind (addNode name op inputs) _ g

theorem run_bind_eq_ok {x : Attempted ε α} {f : α → Attempted ε β} {b : β} :
    (x >>= f).run.run g = (.ok b, k) ↔ ∃ a h, x.run.run g = (.ok a, h) ∧ (f a).run.run h = (.ok b, k) := by
  rw [run_attempted_bind]
  obtain ⟨answer, h⟩ := x.run.run g
  cases answer with
  | ok a => simp [ExceptT.bindCont, ExceptT.run]
  | error e => simp [ExceptT.bindCont, ExceptT.run, pure, Construction.run]

theorem run_pure_eq_ok {a b : α} : (pure a : Attempted ε α).run.run g = (.ok b, k) ↔ a = b ∧ g = k := by
  show (Except.ok a, g) = (.ok b, k) ↔ _
  simp

theorem run_throw_ne_ok {e : ε} {b : α} : (throw e : Attempted ε α).run.run g ≠ (.ok b, k) := nofun

theorem run_mk_pure_eq_ok {x : Except ε α} {a : α} :
    (ExceptT.mk (pure x) : Attempted ε α).run.run g = (.ok a, k) ↔ x = .ok a ∧ g = k := by
  show (x, g) = (.ok a, k) ↔ _
  simp

/-- To look at the graph leaves it as it is. -/
theorem run_graph_bind_eq_ok {f : Graph → Attempted ε β} {b : β} :
    (liftM Construction.graph >>= f).run.run g = (.ok b, k) ↔ (f g).run.run g = (.ok b, k) := by
  rw [run_bind_eq_ok]
  constructor
  · rintro ⟨_, _, ⟨rfl, rfl⟩, hrun⟩
    exact hrun
  · exact fun hrun => ⟨g, g, rfl, hrun⟩

theorem run_orInvalid_eq_ok {step : Attempted ValidationError α} {a : α} :
    (orInvalid step).run.run g = (.ok a, k) ↔ step.run.run g = (.ok a, k) := by
  rw [run_orInvalid]
  simp [mapError_eq_ok, Prod.ext_iff]

theorem run_addValue_eq_ok {name : Option String} {op : Op} {inputs : List ValueId} {v : ValueId} :
    (addValue name op inputs).run.run g = (.ok v, h) ↔ ∃ id, g.insert name op inputs = .ok (id, v, h) := by
  rw [run_addValue]
  cases hins : g.insert name op inputs with
  | error e => simp [addNode, Construction.run, hins, Except.map]
  | ok r =>
    obtain ⟨id, w, k⟩ := r
    simp [addNode, Construction.run, hins, Except.map]

end Construction

/-! ## The built-in replacements -/

namespace Rule

variable {m : Match} {g : Graph}

theorem run_labelled_eq_ok {name : String} {v : ValueId} {h : Graph} :
    (labelled m name).run.run g = (.ok v, h) ↔ m.get? name = some v ∧ g = h := by
  unfold labelled
  cases m.get? name with
  | none => exact ⟨fun hrun => absurd hrun Construction.run_throw_ne_ok, fun hv => nomatch hv.1⟩
  | some w => rw [Construction.run_pure_eq_ok, Option.some.injEq]

theorem run_fuseMultiplyAdd {new x y z : ValueId} {grown : Graph} (hx : m.get? "a" = some x) (hy : m.get? "b" = some y)
    (hz : m.get? "c" = some z) (hrun : (fuseMultiplyAdd m).run.run g = (.ok new, grown)) :
    ∃ name, (Construction.addValue name .fusedMultiplyAdd [x, y, z]).run.run g = (.ok new, grown) := by
  obtain ⟨x', _, h, hrun⟩ := Construction.run_bind_eq_ok.1 hrun
  obtain ⟨hx', rfl⟩ := run_labelled_eq_ok.1 h
  obtain ⟨y', _, h, hrun⟩ := Construction.run_bind_eq_ok.1 hrun
  obtain ⟨hy', rfl⟩ := run_labelled_eq_ok.1 h
  obtain ⟨z', _, h, hrun⟩ := Construction.run_bind_eq_ok.1 hrun
  obtain ⟨hz', rfl⟩ := run_labelled_eq_ok.1 h
  replace hrun := Construction.run_graph_bind_eq_ok.1 hrun
  obtain rfl := Option.some.inj (hx.symm.trans hx')
  obtain rfl := Option.some.inj (hy.symm.trans hy')
  obtain rfl := Option.some.inj (hz.symm.trans hz')
  exact ⟨_, Construction.run_orInvalid_eq_ok.1 hrun⟩

theorem run_decompose {new : ValueId} {grown : Graph} (hrun : (decompose m).run.run g = (.ok new, grown)) :
    ∃ n expand, g.producer? m.root = some n ∧ n.op.expansion? = some expand ∧
      (expand n.inputs).run.run g = (.ok new, grown) := by
  replace hrun := Construction.run_graph_bind_eq_ok.1 hrun
  split at hrun
  · exact absurd hrun Construction.run_throw_ne_ok
  rename_i n hn
  split at hrun
  · exact absurd hrun Construction.run_throw_ne_ok
  rename_i expand hexpand
  exact ⟨n, expand, hn, hexpand, Construction.run_orInvalid_eq_ok.1 hrun⟩

theorem run_skipIdentity {new : ValueId} {grown : Graph} (hrun : (skipIdentity m).run.run g = (.ok new, grown)) :
    ∃ n t t', m.get? "input" = some new ∧ g.producer? m.root = some n ∧ g.type? new = some t ∧
      g.type? m.root = some t' ∧ isIdentity n.op t t' = true ∧ g = grown := by
  obtain ⟨x, _, h, hrun⟩ := Construction.run_bind_eq_ok.1 hrun
  obtain ⟨hx, rfl⟩ := run_labelled_eq_ok.1 h
  replace hrun := Construction.run_graph_bind_eq_ok.1 hrun
  split at hrun
  · rename_i n t t' hn ht ht'
    split at hrun
    · rename_i hidentity
      obtain ⟨rfl, rfl⟩ := Construction.run_pure_eq_ok.1 hrun
      exact ⟨n, t, t', hx, hn, ht, ht', hidentity, rfl⟩
    · exact absurd hrun Construction.run_throw_ne_ok
  · exact absurd hrun Construction.run_throw_ne_ok

end Rule

theorem Expansion.scalarOf_eq_ok {type : ElementType} {x : Double} {c : Constant} (h : scalarOf type x = .ok c) :
    ∃ data, ConstantData.splat? type x = some data ∧ c = .scalar data := by
  unfold scalarOf at h
  split at h
  · exact ⟨_, by assumption, (Except.ok.inj h).symm⟩
  · cases h

/-- The steps of the expansion of a hard sigmoid, each from the graph that the one before left. -/
theorem Expansion.run_hardSigmoidOf {g grown : Graph} {x alpha beta new : ValueId}
    (hrun : (hardSigmoidOf x alpha beta).run.run g = (.ok new, grown)) :
    ∃ t zeros ones zero one scaled shifted lower g₁ g₂ g₃ g₄ g₅, g.type? x = some t ∧
      ConstantData.splat? t.element .zero = some zeros ∧ ConstantData.splat? t.element .one = some ones ∧
      (Construction.addValue none (.constant (.scalar zeros)) []).run.run g = (.ok zero, g₁) ∧
      (Construction.addValue none (.constant (.scalar ones)) []).run.run g₁ = (.ok one, g₂) ∧
      (elementwise .multiply alpha x).run.run g₂ = (.ok scaled, g₃) ∧
      (elementwise .add scaled beta).run.run g₃ = (.ok shifted, g₄) ∧
      (elementwise .maximum shifted zero).run.run g₄ = (.ok lower, g₅) ∧
      (elementwise .minimum lower one).run.run g₅ = (.ok new, grown) := by
  replace hrun := Construction.run_graph_bind_eq_ok.1 hrun
  split at hrun
  case h_2 => exact absurd hrun Construction.run_throw_ne_ok
  rename_i t ht
  obtain ⟨c₀, _, h, hrun⟩ := Construction.run_bind_eq_ok.1 hrun
  obtain ⟨hc₀, rfl⟩ := Construction.run_mk_pure_eq_ok.1 h
  obtain ⟨zero, g₁, hrun₁, hrun⟩ := Construction.run_bind_eq_ok.1 hrun
  obtain ⟨c₁, _, h, hrun⟩ := Construction.run_bind_eq_ok.1 hrun
  obtain ⟨hc₁, rfl⟩ := Construction.run_mk_pure_eq_ok.1 h
  obtain ⟨one, g₂, hrun₂, hrun⟩ := Construction.run_bind_eq_ok.1 hrun
  obtain ⟨scaled, g₃, hrun₃, hrun⟩ := Construction.run_bind_eq_ok.1 hrun
  obtain ⟨shifted, g₄, hrun₄, hrun⟩ := Construction.run_bind_eq_ok.1 hrun
  obtain ⟨lower, g₅, hrun₅, hrun₆⟩ := Construction.run_bind_eq_ok.1 hrun
  obtain ⟨zeros, hzeros, rfl⟩ := scalarOf_eq_ok hc₀
  obtain ⟨ones, hones, rfl⟩ := scalarOf_eq_ok hc₁
  exact ⟨t, zeros, ones, zero, one, scaled, shifted, lower, g₁, g₂, g₃, g₄, g₅, ht, hzeros, hones, hrun₁, hrun₂, hrun₃,
    hrun₄, hrun₅, hrun₆⟩

theorem Expansion.run_onThree {g grown : Graph} {type : OpType} {new : ValueId} {inputs : List ValueId}
    {expand : ValueId → ValueId → ValueId → Attempted ValidationError ValueId}
    (hrun : (onThree type expand inputs).run.run g = (.ok new, grown)) :
    ∃ x y z, inputs = [x, y, z] ∧ (expand x y z).run.run g = (.ok new, grown) := by
  unfold onThree at hrun
  split at hrun
  · exact ⟨_, _, _, rfl, hrun⟩
  · exact absurd hrun Construction.run_throw_ne_ok

theorem Op.expansion?_eq_some {op : Op} {expand : List ValueId → Attempted ValidationError ValueId}
    (h : op.expansion? = some expand) :
    op = .hardSigmoid ∧ Expansion.onThree .hardSigmoid Expansion.hardSigmoidOf = expand ∨
      op = .fusedMultiplyAdd ∧ Expansion.onThree .fusedMultiplyAdd Expansion.fusedMultiplyAddOf = expand := by
  unfold expansion? at h
  split at h
  · exact Or.inl ⟨rfl, Option.some.inj h⟩
  · exact Or.inr ⟨rfl, Option.some.inj h⟩
  · cases h

/-! ## Denotations -/

namespace Interpretation

variable {D : Type} {I : Interpretation D} {g h : Graph}

theorem collect_eq_some : ∀ {os : List (Option D)} {ds : List D}, collect os = some ds ↔ os = ds.map some
  | [], ds => by
    rw [collect, Option.some.injEq, eq_comm, eq_comm (a := []), List.map_eq_nil_iff]
  | none :: os, ds => by
    cases ds <;> simp [collect]
  | some d :: os, ds => by
    rw [collect, Option.map_eq_some_iff]
    constructor
    · rintro ⟨rest, hrest, rfl⟩
      rw [List.map_cons, collect_eq_some.1 hrest]
    · intro h
      obtain ⟨d', rest, rfl, hd, hrest⟩ := List.map_eq_cons_iff.1 h.symm
      obtain rfl := Option.some.inj hd
      exact ⟨rest, collect_eq_some.2 hrest.symm, rfl⟩

/-- What a value denotes that an operation on the values `ds` produces. -/
theorem denote_of_inputs (hg : g.WellFormed) {v : ValueId} {val : Value} {n : Node} (hv : g.value? v = some val)
    (hn : g.node? val.producer = some n) (hop : n.op.type ≠ .parameter) {ds : List D}
    (hds : n.inputs.map (I.denote g) = ds.map some) : I.denote g v = (I.apply n.op ds)[val.index]? := by
  rw [solves_denote hg v, step_eq hv hn, outputs, if_neg hop, collect_eq_some.2 hds]
  rfl

/-- A value that denotes something is produced by an operation on values that do. -/
theorem inputs_of_denote (hg : g.WellFormed) {v : ValueId} {n : Node} (hn : g.producer? v = some n)
    (hop : n.op.type ≠ .parameter) {d : D} (hd : I.denote g v = some d) :
    ∃ (ds : List D) (i : Nat), n.inputs.map (I.denote g) = ds.map some ∧ (I.apply n.op ds)[i]? = some d := by
  obtain ⟨val, hval, hnode⟩ := Graph.producer?_eq_some hn
  cases hds : collect (n.inputs.map (I.denote g)) with
  | none =>
    rw [solves_denote hg v, step_eq hval hnode, outputs, if_neg hop, hds] at hd
    cases hd
  | some ds =>
    have hds := collect_eq_some.1 hds
    exact ⟨ds, val.index, hds, denote_of_inputs hg hval hnode hop hds ▸ hd⟩

theorem denoted_cons {x : ValueId} {xs : List ValueId} {ds : List D} (h : (x :: xs).map (I.denote g) = ds.map some) :
    ∃ a as, ds = a :: as ∧ I.denote g x = some a ∧ xs.map (I.denote g) = as.map some := by
  obtain ⟨a, as, rfl, ha, has⟩ := List.map_eq_cons_iff.1 h.symm
  exact ⟨a, as, rfl, ha.symm, has.symm⟩

theorem denoted_pair {x y : ValueId} {ds : List D} (h : [x, y].map (I.denote g) = ds.map some) :
    ∃ a b, ds = [a, b] ∧ I.denote g x = some a ∧ I.denote g y = some b := by
  obtain ⟨a, as, rfl, hx, h⟩ := denoted_cons h
  obtain ⟨b, bs, rfl, hy, h⟩ := denoted_cons h
  obtain rfl := List.map_eq_nil_iff.1 h.symm
  exact ⟨a, b, rfl, hx, hy⟩

theorem denoted_triple {x y z : ValueId} {ds : List D} (h : [x, y, z].map (I.denote g) = ds.map some) :
    ∃ a b c, ds = [a, b, c] ∧ I.denote g x = some a ∧ I.denote g y = some b ∧ I.denote g z = some c := by
  obtain ⟨a, as, rfl, hx, h⟩ := denoted_cons h
  obtain ⟨b, c, rfl, hy, hz⟩ := denoted_pair h
  exact ⟨a, b, c, rfl, hx, hy, hz⟩

theorem denote_grown (hg : g.WellFormed) (hgh : Graph.Grown g h) {v : ValueId} {d : D} (hd : I.denote g v = some d) :
    I.denote h v = some d := by
  cases hv : g.value? v with
  | none =>
    rw [denote, denoteWithin_dead hv] at hd
    cases hd
  | some val =>
    obtain ⟨more, -, hval⟩ := (hgh.extends hg).value?_of_value? hv
    rw [← hd]
    exact ((preserves_grown hg hgh).survived (Graph.value?_lt hv) (by rw [hval]; rfl)).2

/-- **The meaning of a value that was added**; whatever denoted something still does. -/
theorem denote_addValue (hg : g.WellFormed) {name : Option String} {op : Op} {inputs : List ValueId} {v : ValueId}
    (hrun : (Construction.addValue name op inputs).run.run g = (.ok v, h)) (hop : op.type ≠ .parameter)
    {ds : List D} (hds : inputs.map (I.denote g) = ds.map some) {d : D} (hd : I.apply op ds = [d]) :
    h.WellFormed ∧ (∀ w e, I.denote g w = some e → I.denote h w = some e) ∧ I.denote h v = some d := by
  obtain ⟨id, hins⟩ := Construction.run_addValue_eq_ok.1 hrun
  have hh := Graph.wellFormed_insert hg hins
  have hold : ∀ w e, I.denote g w = some e → I.denote h w = some e := fun w e => denote_grown hg (.insert .refl hins)
  refine ⟨hh, hold, ?_⟩
  obtain ⟨types, -, -, hne, rfl, rfl, rfl⟩ := Graph.insert_eq_ok hins
  obtain ⟨type, types, rfl⟩ := List.exists_cons_of_ne_nil hne
  have hval := g.value?_appendNode_new name op inputs (type :: types) 0
  rw [Nat.add_zero] at hval
  have hnode := g.node?_appendNode name op inputs (type :: types) ⟨g.nodeSlots⟩
  rw [if_pos rfl] at hnode
  have hinputs : inputs.map (I.denote (g.appendNode name op inputs (type :: types))) = ds.map some := by
    rw [← hds]
    refine List.map_congr_left (fun w hw => ?_)
    have hmem : I.denote g w ∈ ds.map some := hds ▸ List.mem_map_of_mem hw
    obtain ⟨e, -, he⟩ := List.mem_map.1 hmem
    rw [← he]
    exact hold w e he.symm
  rw [denote_of_inputs hh hval hnode hop hinputs]
  exact congrArg (fun l : List D => l[0]?) hd

theorem denote_addConstant (hg : g.WellFormed) {name : Option String} {c : Constant} {v : ValueId}
    (hrun : (Construction.addValue name (.constant c) []).run.run g = (.ok v, h)) {d : D}
    (hd : I.apply (.constant c) [] = [d]) :
    h.WellFormed ∧ (∀ w e, I.denote g w = some e → I.denote h w = some e) ∧ I.denote h v = some d :=
  denote_addValue hg hrun (by simp [Op.type]) List.map_nil hd

end Interpretation
end TensorGraph
