import TensorGraph.Proofs.Graph.Renamed
import TensorGraph.Proofs.Graph.Stage
/-!
# Operations on renamed graphs

Adding a node, moving the uses of a value and propagating types succeed for a graph if and only if
they do for a renamed one, and the outcomes are renamed again.  Errors may name nodes, so they are
not compared (`Alike`).  A propagation keeps its pending nodes as ranks, and these are the same in
both graphs: the walks finish the nodes in the same order.
-/
namespace TensorGraph

/-- Both failed, or both succeeded with answers that are related. -/
def Alike {ε ε' α β : Type} (R : α → β → Prop) : Except ε α → Except ε' β → Prop
  | .ok a, .ok b => R a b
  | .error _, .error _ => True
  | _, _ => False

theorem Alike.self {ε α : Type} : ∀ x : Except ε α, Alike Eq x x
  | .ok _ => rfl
  | .error _ => trivial

theorem Alike.bind {ε ε' α β γ δ : Type} {R : α → β → Prop} {S : γ → δ → Prop} {x : Except ε α} {y : Except ε' β}
    {f : α → Except ε γ} {k : β → Except ε' δ} (h : Alike R x y) (hf : ∀ a b, R a b → Alike S (f a) (k b)) :
    Alike S (x >>= f) (y >>= k) := by
  cases x with
  | error e =>
    cases y with
    | error e' => trivial
    | ok b => exact h.elim
  | ok a =>
    cases y with
    | error e' => exact h.elim
    | ok b => exact hf a b h

theorem Alike.map {ε ε' α β γ δ : Type} {R : α → β → Prop} {S : γ → δ → Prop} {x : Except ε α} {y : Except ε' β}
    {f : α → γ} {k : β → δ} (h : Alike R x y) (hf : ∀ a b, R a b → S (f a) (k b)) : Alike S (x.map f) (y.map k) := by
  cases x <;> cases y <;> first | exact hf _ _ h | exact h

/-- Either both succeeded or neither did. -/
theorem Alike.ok_iff {ε ε' α β : Type} {R : α → β → Prop} {x : Except ε α} {y : Except ε' β} (h : Alike R x y) :
    (∃ b, y = .ok b) ↔ ∃ a, x = .ok a := by
  cases x <;> cases y <;> first | exact h.elim | simp

namespace Graph
namespace Renamed

variable {s : Renaming} {g h : Graph}

/-! ## Writes to single slots -/

theorem modifyNode (hgh : Renamed s g h) (id : NodeId) {f k : Node → Node} (hf : ∀ n, k (s.nodeOf n) = s.nodeOf (f n)) :
    Renamed s (g.modifyNode id f) (h.modifyNode (s.onNode id) k) := by
  refine ⟨hgh.registry, hgh.results, fun j => ?_, hgh.value?, fun j hj => hgh.node_old j ?_, fun i => ?_, hgh.valueSlots⟩
  · simp only [node?_modifyNode, s.onNode_inj, hgh.node?]
    split
    · rw [Option.map_map, Option.map_map]
      congr 1
      exact funext hf
    · rfl
  · rw [node?_modifyNode] at hj
    split at hj
    · rwa [Option.isSome_map] at hj
    · exact hj
  · rw [(SameFrame.modifyNode g id f).nodeSlots, (SameFrame.modifyNode h (s.onNode id) k).nodeSlots]
    exact hgh.nodeSlots i

theorem modifyValue (hgh : Renamed s g h) (v : ValueId) {f k : Value → Value}
    (hf : ∀ val, k (s.valueOf val) = s.valueOf (f val)) :
    Renamed s (g.modifyValue v f) (h.modifyValue (s.onValue v) k) := by
  refine ⟨hgh.registry, hgh.results, hgh.node?, fun w => ?_, hgh.node_old, hgh.nodeSlots, fun i => ?_⟩
  · simp only [value?_modifyValue, s.onValue_inj, hgh.value?]
    split
    · rw [Option.map_map, Option.map_map]
      congr 1
      exact funext hf
    · rfl
  · rw [(SameFrame.modifyValue g v f).valueSlots, (SameFrame.modifyValue h (s.onValue v) k).valueSlots]
    exact hgh.valueSlots i

theorem setType (hgh : Renamed s g h) (v : ValueId) (type : TensorType) :
    Renamed s (g.setType v type) (h.setType (s.onValue v) type) := hgh.modifyValue v (fun _ => rfl)

theorem setInput (hgh : Renamed s g h) (v : ValueId) (u : Use) :
    Renamed s (g.setInput v u) (h.setInput (s.onValue v) (s.onUse u)) :=
  hgh.modifyNode u.node (fun n => by simp [Renaming.nodeOf, Renaming.onUse, List.map_set])

/-! ## Adding a node -/

theorem freshValues (hgh : Renamed s g h) (count : Nat) : h.freshValues count = (g.freshValues count).map s.onValue := by
  rw [Graph.freshValues, Graph.freshValues, List.map_map]
  exact List.map_congr_left (fun i _ => ValueId.ext (hgh.valueSlots i).symm)

theorem newUses_map (s : Renaming) (id : NodeId) (inputs : List ValueId) (v : ValueId) :
    newUses (s.onNode id) (inputs.map s.onValue) (s.onValue v) = (newUses id inputs v).map s.onUse := by
  have huses : inputUses (s.onNode id) (inputs.map s.onValue) =
      (inputUses id inputs).map (fun p => (s.onValue p.1, s.onUse p.2)) := by
    unfold inputUses
    rw [List.mapIdx_eq_zipIdx_map, List.mapIdx_eq_zipIdx_map, List.zipIdx_map, List.map_map, List.map_map]
    rfl
  unfold newUses
  rw [huses, List.filter_map, List.map_map, List.map_map]
  simp [Function.comp_def]

theorem onNode_eq_next (hgh : Renamed s g h) (k : Nat) : s.onNode ⟨g.nodeSlots + k⟩ = ⟨h.nodeSlots + k⟩ :=
  NodeId.ext (hgh.nodeSlots k)

theorem onValue_eq_next (hgh : Renamed s g h) (k : Nat) : s.onValue ⟨g.valueSlots + k⟩ = ⟨h.valueSlots + k⟩ :=
  ValueId.ext (hgh.valueSlots k)

theorem appendNode (hgh : Renamed s g h) (name : Option String) (op : Op) (inputs : List ValueId)
    (types : List TensorType) :
    Renamed s (g.appendNode name op inputs types) (h.appendNode name op (inputs.map s.onValue) types) := by
  have hnext : s.onNode ⟨g.nodeSlots⟩ = ⟨h.nodeSlots⟩ := hgh.onNode_eq_next 0
  refine ⟨?_, ?_, fun id => ?_, fun v => ?_, fun id hid => ?_, fun k => ?_, fun k => ?_⟩
  · rw [registry_appendNode, registry_appendNode, hgh.registry]
  · rw [results_appendNode, results_appendNode, hgh.results]
  · have hindex : (s.onNode id).index = h.nodeSlots ↔ id.index = g.nodeSlots := by
      rw [← hgh.node_nodeSlots]
      exact s.node_strictMono.injective.eq_iff
    simp only [node?_appendNode, hindex]
    split
    · rw [hgh.freshValues]
      rfl
    · exact hgh.node? id
  · by_cases hlt : v.index < g.valueSlots
    · have hlt' : (s.onValue v).index < h.valueSlots := hgh.value_valueSlots ▸ s.value_strictMono hlt
      rw [value?_appendNode_old _ _ _ _ _ hlt, value?_appendNode_old _ _ _ _ _ hlt', hgh.value?, ← hnext, newUses_map,
        Option.map_map, Option.map_map]
      congr 1
      funext val
      simp [Renaming.valueOf]
    · obtain ⟨i, hi⟩ := Nat.exists_eq_add_of_le (Nat.le_of_not_lt hlt)
      obtain rfl : v = ⟨g.valueSlots + i⟩ := ValueId.ext hi
      rw [hgh.onValue_eq_next, value?_appendNode_new, value?_appendNode_new, Option.map_map, ← hgh.onValue_eq_next,
        ← hnext, newUses_map]
      rfl
  · rw [node?_appendNode] at hid
    split at hid
    · rename_i hindex
      exact ⟨⟨g.nodeSlots⟩, hnext.trans (NodeId.ext hindex.symm)⟩
    · exact hgh.node_old id hid
  · rw [nodeSlots_appendNode, nodeSlots_appendNode, Nat.add_assoc, Nat.add_assoc]
    exact hgh.nodeSlots (1 + k)
  · rw [valueSlots_appendNode, valueSlots_appendNode, Nat.add_assoc, Nat.add_assoc]
    exact hgh.valueSlots (types.length + k)

/-- **A node can be added to both graphs or to neither.** -/
theorem insert (hgh : Renamed s g h) (name : Option String) (op : Op) (inputs : List ValueId) :
    Alike (fun a b => b.1 = s.onNode a.1 ∧ b.2.1 = s.onValue a.2.1 ∧ Renamed s a.2.2 b.2.2)
      (g.insert name op inputs) (h.insert name op (inputs.map s.onValue)) := by
  unfold Graph.insert
  rw [hgh.registry, hgh.inferOutputs]
  split
  · trivial
  · cases g.inferOutputs op inputs with
    | error cause => trivial
    | ok types =>
      cases types with
      | nil => trivial
      | cons type types =>
        exact ⟨(hgh.onNode_eq_next 0).symm, (hgh.onValue_eq_next 0).symm, hgh.appendNode name op inputs _⟩

/-! ## Moving uses -/

theorem contains_map_onUse (s : Renaming) (uses : List Use) (u : Use) :
    (uses.map s.onUse).contains (s.onUse u) = uses.contains u := by
  rw [Bool.eq_iff_iff, List.contains_iff_mem, List.contains_iff_mem, List.mem_map]
  constructor
  · rintro ⟨u', hu', he⟩
    exact s.onUse_inj.1 he ▸ hu'
  · exact fun hu => ⟨u, hu, rfl⟩

theorem foldl_setInput (v : ValueId) : ∀ (uses : List Use) {g h : Graph}, Renamed s g h →
    Renamed s (uses.foldl (fun g u => g.setInput v u) g)
      ((uses.map s.onUse).foldl (fun h u => h.setInput (s.onValue v) u) h)
  | [], _, _, hgh => hgh
  | u :: uses, _, _, hgh => foldl_setInput v uses (hgh.setInput v u)

theorem moveUses (hgh : Renamed s g h) (source target : ValueId) (uses : List Use) :
    Renamed s (g.moveUses source target uses) (h.moveUses (s.onValue source) (s.onValue target) (uses.map s.onUse)) := by
  refine ((foldl_setInput target uses hgh).modifyValue source (fun val => ?_)).modifyValue target (fun val => ?_)
  · simp only [Renaming.valueOf, List.filter_map, Function.comp_def, contains_map_onUse]
  · simp [Renaming.valueOf]

theorem moveResults (hgh : Renamed s g h) (v : ValueId) (positions : List Nat) :
    Renamed s (g.moveResults v positions) (h.moveResults (s.onValue v) positions) := by
  refine ⟨hgh.registry, ?_, hgh.node?, hgh.value?, hgh.node_old, hgh.nodeSlots, hgh.valueSlots⟩
  have hset : ∀ (positions : List Nat) (l : List ValueId), positions.foldl (fun rs i => rs.set i (s.onValue v))
      (l.map s.onValue) = (positions.foldl (fun rs i => rs.set i v) l).map s.onValue := fun positions => by
    induction positions with
    | nil => exact fun _ => rfl
    | cons i positions ih =>
      intro l
      rw [List.foldl_cons, List.foldl_cons, ← List.map_set, ih]
  show positions.foldl (fun rs i => rs.set i (s.onValue v)) h.results = _
  rw [hgh.results]
  exact hset positions g.results

theorem movedUses (hgh : Renamed s g h) (source : ValueId) {keep keep' : List NodeId}
    (hkeep : ∀ id, s.onNode id ∈ keep' ↔ id ∈ keep) :
    h.movedUses (s.onValue source) keep' = (g.movedUses source keep).map s.onUse := by
  unfold Graph.movedUses
  rw [hgh.usesOf, List.filter_map]
  congr 1
  refine List.filter_congr (fun u _ => ?_)
  have : keep'.contains (s.onNode u.node) = keep.contains u.node := by
    rw [Bool.eq_iff_iff, List.contains_iff_mem, List.contains_iff_mem, hkeep]
  simp only [Function.comp_apply, Renaming.onUse, this]

theorem redirect (hgh : Renamed s g h) (source target : ValueId) {keep keep' : List NodeId}
    (hkeep : ∀ id, s.onNode id ∈ keep' ↔ id ∈ keep) :
    Renamed s (g.redirect source target keep).2 (h.redirect (s.onValue source) (s.onValue target) keep').2 := by
  have hpositions : h.resultPositions (s.onValue source) = g.resultPositions source := by
    unfold resultPositions
    rw [hgh.results, List.zipIdx_map, List.filterMap_map]
    refine List.filterMap_congr (fun e _ => ?_)
    simp
  rw [redirect_snd, redirect_snd, hgh.movedUses source hkeep, hpositions]
  exact (hgh.moveUses source target _).moveResults target _

/-! ## Propagation -/

/-- **The tables of ranks agree**: a node has the rank that it has under its new number. -/
theorem rankTable (hgh : Renamed s g h) (id : NodeId) :
    (h.rankTable h.walkOrder)[(s.onNode id).index]?.join = (g.rankTable g.walkOrder)[id.index]?.join := by
  have hset : ∀ (pairs : List (NodeId × Nat)) (table table' : Array (Option Nat)),
      (∀ i, s.node i < table'.size ↔ i < table.size) →
      (∀ i, table'[s.node i]?.join = table[i]?.join) → ∀ i,
      ((pairs.map (fun e => (s.onNode e.1, e.2))).foldl (fun t e => t.setIfInBounds e.1.index (some e.2)) table')[s.node i]?.join =
        (pairs.foldl (fun t e => t.setIfInBounds e.1.index (some e.2)) table)[i]?.join := fun pairs => by
    induction pairs with
    | nil => exact fun _ _ _ heq => heq
    | cons e pairs ih =>
      intro table table' hsize heq i
      rw [List.map_cons, List.foldl_cons, List.foldl_cons]
      refine ih _ _ (fun j => by simpa using hsize j) (fun j => ?_) i
      simp only [Array.getElem?_setIfInBounds, Renaming.onNode, s.node_strictMono.injective.eq_iff, hsize]
      split
      · rfl
      · exact heq j
  unfold Graph.rankTable
  rw [hgh.walkOrder, List.zipIdx_map]
  refine hset g.walkOrder.zipIdx _ _ (fun i => by simpa using hgh.lt_nodeSlots i) (fun i => ?_) id.index
  simp only [Array.getElem?_replicate, hgh.lt_nodeSlots]

end Renamed
end Graph

namespace Propagation

/-- The second propagation is the first one on the renamed graph. -/
structure Renamed (s : Renaming) (p q : Propagation) : Prop where
  graph : p.graph.Renamed s q.graph
  staged : q.staged = p.staged.map (fun e => (s.onValue e.1, e.2))
  pending : q.pending = p.pending

namespace Renamed

variable {s : Renaming} {p q : Propagation} {rank? rank?' : NodeId → Option Nat}

theorem type? (h : Renamed s p q) (v : ValueId) : q.type? (s.onValue v) = p.type? v := by
  have hlookup : ∀ staged : List (ValueId × TensorType),
      (staged.map (fun e => (s.onValue e.1, e.2))).lookup (s.onValue v) = staged.lookup v := fun staged => by
    induction staged with
    | nil => rfl
    | cons e staged ih =>
      rw [List.map_cons, List.lookup_cons, List.lookup_cons, ih]
      by_cases hv : v = e.1
      · rw [hv, beq_self_eq_true, beq_self_eq_true]
      · rw [beq_eq_false_iff_ne.2 hv, beq_eq_false_iff_ne.2 (fun he => hv (s.onValue_inj.1 he))]
  rw [Propagation.type?, Propagation.type?, h.staged, hlookup, h.graph.type?]

theorem commit (h : Renamed s p q) : p.commit.Renamed s q.commit := by
  rw [Propagation.commit, Propagation.commit, h.staged]
  induction p.staged with
  | nil => exact h.graph
  | cons e staged ih => exact ih.setType e.1 e.2

theorem stage (hrank : ∀ id, rank?' (s.onNode id) = rank? id) (always : Bool) (h : Renamed s p q)
    (output : ValueId × TensorType) : Renamed s (p.stage rank? always output)
      (q.stage rank?' always (s.onValue output.1, output.2)) := by
  unfold Propagation.stage
  rw [h.type?]
  split
  · exact h
  · refine ⟨h.graph, by rw [h.staged]; rfl, ?_⟩
    simp only [h.graph.usesOf, List.filterMap_map, h.pending]
    congr 1
    exact List.filterMap_congr (fun u _ => hrank u.node)

theorem foldl_stage (hrank : ∀ id, rank?' (s.onNode id) = rank? id) (always : Bool) :
    ∀ (outs : List (ValueId × TensorType)) {p q : Propagation}, Renamed s p q →
      Renamed s (outs.foldl (Propagation.stage rank? always) p)
        ((outs.map (fun e => (s.onValue e.1, e.2))).foldl (Propagation.stage rank?' always) q)
  | [], _, _, h => h
  | e :: outs, _, _, h => foldl_stage hrank always outs (h.stage hrank always e)

theorem visit (hrank : ∀ id, rank?' (s.onNode id) = rank? id) (h : Renamed s p q) (id : NodeId) :
    Alike (Renamed s) (p.visit rank? id) (q.visit rank?' (s.onNode id)) := by
  unfold Propagation.visit
  rw [h.graph.node?]
  cases p.graph.node? id with
  | none => exact h
  | some n =>
    simp only [Option.map_some, Renaming.nodeOf, h.graph.inferOutputsUnder h.type?, List.length_map]
    cases p.graph.inferOutputsUnder p.type? n.op n.inputs with
    | error cause => trivial
    | ok types =>
      simp only
      split
      · trivial
      · rw [List.zip_map_left]
        exact foldl_stage hrank _ _ ⟨h.graph, h.staged, h.pending⟩

theorem run (hrank : ∀ id, rank?' (s.onNode id) = rank? id) (order : List NodeId) :
    ∀ (fuel : Nat) {p q : Propagation}, Renamed s p q →
      Alike (Renamed s) (Propagation.run order.toArray rank? fuel p)
        (Propagation.run (order.map s.onNode).toArray rank?' fuel q)
  | 0, _, _, h => h
  | fuel + 1, p, q, h => by
    unfold Propagation.run
    rw [h.pending]
    cases hp : p.pending with
    | nil => exact h
    | cons r rest =>
      simp only [List.getElem?_toArray, List.getElem?_map]
      cases order[r]? with
      | none => exact run hrank order fuel ⟨h.graph, h.staged, rfl⟩
      | some id =>
        have hdropped : Renamed s { p with pending := rest } { q with pending := rest } := ⟨h.graph, h.staged, rfl⟩
        exact (hdropped.visit hrank id).bind (fun _ _ hvisited => run hrank order fuel hvisited)

end Renamed
end Propagation

/-- **Types can be propagated in both graphs or in neither.** -/
theorem Graph.Renamed.propagate {s : Renaming} {g h : Graph} (hgh : Renamed s g h) (seeds : List NodeId) :
    Alike (Renamed s) (g.propagate seeds) (h.propagate (seeds.map s.onNode)) := by
  have hseeds : (seeds.map s.onNode).filterMap (fun id => (h.rankTable h.walkOrder)[id.index]?.join) =
      seeds.filterMap (fun id => (g.rankTable g.walkOrder)[id.index]?.join) := by
    rw [List.filterMap_map]
    exact List.filterMap_congr (fun id _ => hgh.rankTable id)
  unfold Graph.propagate Graph.propagation
  simp only
  rw [hseeds, show h.walkOrder.length = g.walkOrder.length by rw [hgh.walkOrder, List.length_map],
    show h.walkOrder.toArray = (g.walkOrder.map s.onNode).toArray by rw [hgh.walkOrder]]
  refine (Propagation.Renamed.run hgh.rankTable g.walkOrder _ ?_).map (fun _ _ h => h.commit)
  exact ⟨hgh, rfl, rfl⟩

end TensorGraph
