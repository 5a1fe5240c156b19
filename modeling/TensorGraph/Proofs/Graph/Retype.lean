import TensorGraph.Graph.Propagate
import TensorGraph.Proofs.Graph.Edges
/-!
# Retype — propagation changes types and nothing else

`Retyped g h` says that the graphs differ in the types of values only.  No step of a propagation
touches the graph: types are staged beside it.  So all that a propagation does to its argument is
done when it commits, and that writes types.
-/
namespace TensorGraph

/-- A value without its type. -/
def Value.edges (v : Value) : NodeId × Nat × List Use := (v.producer, v.index, v.uses)

namespace Graph

/-- **The graphs differ in the types of their values only.** -/
structure Retyped (g h : Graph) : Prop where
  frame : SameFrame g h
  node?_eq : ∀ id, h.node? id = g.node? id
  edges : ∀ v, (h.value? v).map Value.edges = (g.value? v).map Value.edges

namespace Retyped

variable {g h k : Graph}

theorem refl (g : Graph) : Retyped g g := ⟨.refl g, fun _ => rfl, fun _ => rfl⟩

theorem trans (hgh : Retyped g h) (hhk : Retyped h k) : Retyped g k :=
  ⟨hgh.frame.trans hhk.frame, fun id => (hhk.node?_eq id).trans (hgh.node?_eq id),
    fun v => (hhk.edges v).trans (hgh.edges v)⟩

theorem setType (g : Graph) (v : ValueId) (type : TensorType) : Retyped g (g.setType v type) := by
  refine ⟨SameFrame.modifyValue g v _, fun _ => rfl, fun w => ?_⟩
  rw [Graph.setType, value?_modifyValue]
  split
  · rw [Option.map_map]
    rfl
  · rfl

theorem map_eq (hgh : Retyped g h) {α : Type} (f : Value → α) (hf : ∀ a b : Value, a.edges = b.edges → f a = f b)
    (v : ValueId) : (h.value? v).map f = (g.value? v).map f := by
  have hedges := hgh.edges v
  cases hh : h.value? v with
  | none =>
    rw [hh] at hedges
    have : g.value? v = none := Option.map_eq_none_iff.1 hedges.symm
    rw [this]
  | some val =>
    rw [hh] at hedges
    obtain ⟨old, hold, he⟩ := Option.map_eq_some_iff.1 hedges.symm
    rw [hold]
    exact congrArg some (hf val old he.symm)

theorem place_eq {a b : Value} (h : a.edges = b.edges) : a.place = b.place := by
  simp only [Value.edges, Prod.mk.injEq] at h
  rw [Value.place, Value.place, h.1, h.2.1]

theorem producer_eq {a b : Value} (h : a.edges = b.edges) : a.producer = b.producer := congrArg Prod.fst h

theorem uses_eq {a b : Value} (h : a.edges = b.edges) : a.uses = b.uses := congrArg (fun e => e.2.2) h

theorem producerId? (hgh : Retyped g h) (v : ValueId) : h.producerId? v = g.producerId? v :=
  hgh.map_eq Value.producer (fun _ _ => producer_eq) v

theorem producer? (hgh : Retyped g h) (v : ValueId) : h.producer? v = g.producer? v := by
  rw [Graph.producer?, Graph.producer?, hgh.producerId?]
  exact congrArg (Option.bind _) (funext hgh.node?_eq)

theorem usesOf (hgh : Retyped g h) (v : ValueId) : h.usesOf v = g.usesOf v := by
  rw [Graph.usesOf, Graph.usesOf, hgh.map_eq Value.uses (fun _ _ => uses_eq)]

theorem sameEdges (hgh : Retyped g h) : SameEdges g h :=
  ⟨hgh.frame.parameters, hgh.frame.results, fun id => by rw [hgh.node?_eq],
    fun v => hgh.map_eq Value.place (fun _ _ => place_eq) v, fun v => by rw [hgh.usesOf]⟩

theorem wellFormed (hgh : Retyped g h) (hg : g.WellFormed) : h.WellFormed := hgh.sameEdges.wellFormed hg

end Retyped

theorem type?_setType {g : Graph} {v : ValueId} (hv : (g.value? v).isSome = true) (type : TensorType) (w : ValueId) :
    (g.setType v type).type? w = if w = v then some type else g.type? w := by
  rw [type?, setType, value?_modifyValue, type?]
  by_cases hw : w = v
  · subst hw
    obtain ⟨val, hval⟩ := Option.isSome_iff_exists.1 hv
    rw [if_pos rfl, if_pos rfl, hval]
    rfl
  · rw [if_neg (fun he => hw he.symm), if_neg hw]

end Graph

/-! ## Propagation -/

namespace Propagation

open TensorGraph.Graph

theorem graph_stage (rank? : NodeId → Option Nat) (always : Bool) (p : Propagation) (output : ValueId × TensorType) :
    (p.stage rank? always output).graph = p.graph := by
  unfold stage
  split <;> rfl

theorem graph_foldl_stage (rank? : NodeId → Option Nat) (always : Bool) :
    ∀ (outputs : List (ValueId × TensorType)) (p : Propagation), (outputs.foldl (stage rank? always) p).graph = p.graph
  | [], _ => rfl
  | output :: outputs, p => by
    rw [List.foldl_cons, graph_foldl_stage rank? always outputs, graph_stage]

/-- **A visit**: the node is gone, or its types were inferred and staged. -/
theorem visit_eq_ok {rank? : NodeId → Option Nat} {p q : Propagation} {id : NodeId} (h : p.visit rank? id = .ok q) :
    (p.graph.node? id = none ∧ q = p) ∨
      ∃ node types, p.graph.node? id = some node ∧
        p.graph.inferOutputsUnder p.type? node.op node.inputs = .ok types ∧ types.length = node.outputs.length ∧
        q = (node.outputs.zip types).foldl (stage rank? node.op.hasKnownValue)
          { p with visited := id :: p.visited } := by
  unfold visit at h
  split at h
  · rename_i hnode
    exact Or.inl ⟨hnode, (Except.ok.inj h).symm⟩
  rename_i node hnode
  split at h
  · cases h
  rename_i types htypes
  split at h
  · cases h
  rename_i hlen
  exact Or.inr ⟨node, types, hnode, htypes, by simpa using hlen, (Except.ok.inj h).symm⟩

theorem graph_visit {rank? : NodeId → Option Nat} {p q : Propagation} {id : NodeId} (h : p.visit rank? id = .ok q) :
    q.graph = p.graph := by
  rcases visit_eq_ok h with ⟨-, rfl⟩ | ⟨node, types, -, -, -, rfl⟩
  · rfl
  · exact graph_foldl_stage rank? _ _ { p with visited := id :: p.visited }

/-- **One step of a run**: nothing is pending, or the lowest rank is visited. -/
theorem run_succ_eq_ok {order : Array NodeId} {rank? : NodeId → Option Nat} {fuel : Nat} {p q : Propagation}
    (h : run order rank? (fuel + 1) p = .ok q) :
    (p.pending = [] ∧ q = p) ∨ ∃ rank rest, p.pending = rank :: rest ∧
      ((order[rank]? = none ∧ run order rank? fuel { p with pending := rest } = .ok q) ∨
        ∃ id next, order[rank]? = some id ∧ visit rank? { p with pending := rest } id = .ok next ∧
          run order rank? fuel next = .ok q) := by
  rw [run] at h
  split at h
  · rename_i hp
    exact Or.inl ⟨hp, (Except.ok.inj h).symm⟩
  rename_i rank rest hp
  refine Or.inr ⟨rank, rest, hp, ?_⟩
  split at h
  · rename_i hid
    exact Or.inl ⟨hid, h⟩
  rename_i id hid
  cases hv : visit rank? { p with pending := rest } id with
  | error e =>
    rw [hv] at h
    cases h
  | ok next =>
    rw [hv] at h
    exact Or.inr ⟨id, next, hid, hv, h⟩

/-- **A run leaves the graph alone.** -/
theorem graph_run (order : Array NodeId) (rank? : NodeId → Option Nat) : ∀ (fuel : Nat) (p : Propagation)
    {q : Propagation}, run order rank? fuel p = .ok q → q.graph = p.graph
  | 0, p, q, h => Except.ok.inj h ▸ rfl
  | fuel + 1, p, q, h => by
    rcases run_succ_eq_ok h with ⟨-, rfl⟩ | ⟨rank, rest, -, ⟨-, hrun⟩ | ⟨id, next, -, hvisit, hrun⟩⟩
    · rfl
    · exact graph_run order rank? fuel { p with pending := rest } hrun
    · exact (graph_run order rank? fuel next hrun).trans (graph_visit (p := { p with pending := rest }) hvisit)

/-! ### Writing what is staged -/

theorem commit_retyped (p : Propagation) : Retyped p.graph p.commit := by
  obtain ⟨g, staged, pending, visited⟩ := p
  show Retyped g (staged.foldr (fun e g => g.setType e.1 e.2) g)
  induction staged with
  | nil => exact .refl g
  | cons e staged ih => exact ih.trans (.setType _ e.1 e.2)

/-- Types are staged for values of the graph only. -/
def Live (p : Propagation) : Prop := ∀ e ∈ p.staged, (p.graph.value? e.1).isSome = true

/-- What is staged hides what was staged before, and the graph. -/
theorem type?_cons (g : Graph) (e : ValueId × TensorType) (staged : List (ValueId × TensorType)) (pending : List Nat)
    (visited : List NodeId) (v : ValueId) : type? ⟨g, e :: staged, pending, visited⟩ v =
      if v = e.1 then some e.2 else type? ⟨g, staged, pending, visited⟩ v := by
  unfold type?
  rw [List.lookup_cons]
  by_cases hv : v = e.1
  · rw [if_pos hv, beq_iff_eq.2 hv]
    rfl
  · rw [if_neg hv, beq_eq_false_iff_ne.2 hv]

/-- **The types that are written are those that were looked up.** -/
theorem type?_commit {p : Propagation} (hp : p.Live) (v : ValueId) : p.commit.type? v = p.type? v := by
  obtain ⟨g, staged, pending, visited⟩ := p
  induction staged with
  | nil => rfl
  | cons e staged ih =>
    have hrest : Live ⟨g, staged, pending, visited⟩ := fun e' he' => hp e' (List.mem_cons_of_mem e he')
    have hlive : ((commit ⟨g, staged, pending, visited⟩).value? e.1).isSome = true := by
      rw [(commit_retyped ⟨g, staged, pending, visited⟩).sameEdges.value?_isSome]
      exact hp e List.mem_cons_self
    show ((commit ⟨g, staged, pending, visited⟩).setType e.1 e.2).type? v = _
    rw [type?_setType hlive, ih hrest, type?_cons]

end Propagation

namespace Graph

/-- **A propagation that succeeds commits what it has staged.** -/
theorem propagate_eq_ok {g h : Graph} {seeds : List NodeId} (hprop : g.propagate seeds = .ok h) :
    ∃ p, g.propagation seeds = .ok p ∧ p.graph = g ∧ h = p.commit := by
  unfold propagate at hprop
  cases hp : g.propagation seeds with
  | error e =>
    rw [hp] at hprop
    cases hprop
  | ok p =>
    rw [hp] at hprop
    exact ⟨p, rfl, Propagation.graph_run _ _ _ _ hp, (Except.ok.inj hprop).symm⟩

/-- **Propagation changes types only.** -/
theorem propagate_retyped {g h : Graph} {seeds : List NodeId} (hprop : g.propagate seeds = .ok h) : Retyped g h := by
  obtain ⟨p, -, hgraph, rfl⟩ := propagate_eq_ok hprop
  exact hgraph ▸ p.commit_retyped

end Graph
end TensorGraph
