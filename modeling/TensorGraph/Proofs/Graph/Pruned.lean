import TensorGraph.Proofs.Rewrite.Parameters
/-!
# Pruned — what pruning removes

A node that reads an unneeded one is unneeded itself, and it comes later in the dependency order.
Pruning takes the unneeded nodes from the end of that order, so the readers of a node are gone when
its turn comes, and no removal is refused.

The unneeded nodes are also the least set that is closed under the cascade from all nodes: the one
that is read by no other unneeded node is dead, and so on down.  So the collector of dead nodes
leaves the same graph.
-/
namespace TensorGraph
namespace Graph

open Relation (ReflTransGen)

/-- A result depends on the node, directly or not. -/
def Needed (g : Graph) (id : NodeId) : Prop := ∃ p ∈ g.producersAmong g.results, ReflTransGen g.DependsOn p id

/-- The node is no parameter, and no result depends on it. -/
def Unneeded (g : Graph) (id : NodeId) : Prop :=
  (∃ n, g.node? id = some n ∧ n.op.type ≠ .parameter) ∧ ¬ g.Needed id

section

variable {g : Graph} {id c : NodeId}

theorem Needed.of_dependsOn (h : g.Needed c) (hc : g.DependsOn c id) : g.Needed id := by
  obtain ⟨p, hp, hpath⟩ := h
  exact ⟨p, hp, hpath.tail hc⟩

/-- **Who reads an unneeded node is unneeded.** -/
theorem Unneeded.of_dependsOn (hparameters : g.ParametersReadNothing) (h : g.Unneeded id) (hc : g.DependsOn c id) :
    g.Unneeded c := by
  obtain ⟨n, v, val, hn, hv, -⟩ := dependsOn_iff.1 hc
  refine ⟨⟨n, hn, fun hkind => ?_⟩, fun hneeded => h.2 (hneeded.of_dependsOn hc)⟩
  rw [hparameters c n hn hkind] at hv
  cases hv

theorem Unneeded.expendable (hg : g.WellFormed) (h : g.Unneeded id) : g.Expendable id := by
  obtain ⟨⟨n, hn, hkind⟩, hneeded⟩ := h
  refine ⟨n, hn, hkind, fun v hv hresult => hneeded ?_⟩
  obtain ⟨val, hval, rfl⟩ := hg.output_live' hn hv
  exact ⟨val.producer, List.mem_filterMap.2 ⟨v, hresult, producerId?_eq_some hval⟩, .refl⟩

/-- An expendable node is unneeded if all that read it are. -/
theorem Expendable.unneeded (hg : g.WellFormed) (h : g.Expendable id)
    (hreaders : ∀ c, g.DependsOn c id → g.Unneeded c) : g.Unneeded id := by
  obtain ⟨n, hn, hkind, hresult⟩ := h
  refine ⟨⟨n, hn, hkind⟩, ?_⟩
  rintro ⟨p, hp, hpath⟩
  -- the path is that of a result of the node, or goes through one that reads the node
  rcases hpath.cases_tail with rfl | ⟨c, hpath, hc⟩
  · obtain ⟨v, hv, hproducer⟩ := List.mem_filterMap.1 hp
    obtain ⟨val, hval, rfl⟩ := Option.map_eq_some_iff.1 hproducer
    exact hresult v (hg.mem_outputs hval hn) hv
  · exact (hreaders c hc).2 ⟨p, hp, hpath⟩

/-- **The unneeded nodes are what the cascade from all nodes comes to.** -/
theorem isLeast_unneeded (hg : g.WellFormed) (hparameters : g.ParametersReadNothing) :
    IsLeast {D | g.CascadeClosed g.nodeIds D} {id | g.Unneeded id} := by
  refine ⟨fun id hexpendable hreaders _ => hexpendable.unneeded hg hreaders, fun D hD id hid => ?_⟩
  -- readers come later in the order, so those with the highest rank have none
  induction hdist : g.nodeSlots - g.rank id using Nat.strong_induction_on generalizing id with
  | _ dist ih =>
  have hexpendable := hid.expendable hg
  refine hD id hexpendable (fun c hc => ?_) (Or.inr ?_)
  · have hreader := hid.of_dependsOn hparameters hc
    obtain ⟨m, hm, -⟩ := hreader.1
    have hlater := rank_lt_of_dependsOn hg hc
    have hlt := rank_lt_nodeSlots hg hm
    exact ih (g.nodeSlots - g.rank c) (by omega) c hreader rfl
  · obtain ⟨n, hn, -⟩ := hid.1
    exact mem_nodeIds.2 (by rw [hn]; rfl)

/-- No node of the order depends on a later one. -/
theorem walkOrder_pairwise (hg : g.WellFormed) : g.walkOrder.Pairwise (fun a b => ¬ g.DependsOn a b) := by
  refine List.pairwise_iff_getElem.2 (fun i j hi hj hij hdep => ?_)
  have hrank := rank_lt_of_dependsOn hg hdep
  rw [rank, rank, (walkOrder_nodup hg).idxOf_getElem, (walkOrder_nodup hg).idxOf_getElem] at hrank
  exact Nat.lt_asymm hij hrank

end

/-! ## The loop -/

/-- The invariant of pruning: it has left the graph `h` without the nodes in `gone`, and the other unneeded nodes are in
`todo`, readers first. -/
structure Pruning (g : Graph) (todo gone : List NodeId) (h : Graph) : Prop where
  wellFormed : h.WellFormed
  without : Without g gone h
  nodup : gone.Nodup
  sound : ∀ id ∈ gone, g.Unneeded id
  complete : ∀ id, g.Unneeded id → id ∈ gone ∨ id ∈ todo
  listed : ∀ id ∈ todo, (g.node? id).isSome = true → g.Unneeded id
  ordered : todo.Pairwise (fun a b => ¬ g.DependsOn b a)

namespace Pruning

variable {g h : Graph} {todo gone : List NodeId} {id : NodeId} {n : Node}

/-- An identifier in the order may be that of a node that is gone. -/
theorem skip (hs : Pruning g (id :: todo) gone h) (hn : h.node? id = none) : Pruning g todo gone h :=
  { hs with
    complete := fun a ha => by
      rcases hs.complete a ha with hgone | hmem
      · exact Or.inl hgone
      rcases List.mem_cons.1 hmem with rfl | hmem
      · by_contra hleft
        obtain ⟨⟨n, hlive, -⟩, -⟩ := ha
        rw [hs.without.node?_eq, if_neg (fun hgone => hleft (Or.inl hgone)), hlive] at hn
        cases hn
      · exact Or.inr hmem
    listed := fun a ha => hs.listed a (List.mem_cons_of_mem id ha)
    ordered := (List.pairwise_cons.1 hs.ordered).2 }

/-- **When the turn of a node comes its readers are gone.** -/
theorem deadAt (hg : g.WellFormed) (hparameters : g.ParametersReadNothing) (hs : Pruning g (id :: todo) gone h)
    (hn : h.node? id = some n) : h.DeadAt id := by
  obtain ⟨hleft, hlive⟩ := hs.without.node?_eq_some.1 hn
  have hunneeded := hs.listed id List.mem_cons_self (by rw [hlive]; rfl)
  refine (hs.without.deadAt_iff hs.wellFormed).2 ⟨hleft, hunneeded.expendable hg, fun c hc => ?_⟩
  refine (hs.complete c (hunneeded.of_dependsOn hparameters hc)).resolve_right (fun hmem => ?_)
  rcases List.mem_cons.1 hmem with rfl | hmem
  · exact hg.acyclic c (.single hc)
  · exact (List.pairwise_cons.1 hs.ordered).1 c hmem hc

theorem takeOut (hg : g.WellFormed) (hparameters : g.ParametersReadNothing) (hs : Pruning g (id :: todo) gone h)
    (hn : h.node? id = some n) : Pruning g todo (id :: gone) (h.takeOut id n) := by
  obtain ⟨hleft, hlive⟩ := hs.without.node?_eq_some.1 hn
  obtain ⟨m, hm, hdead⟩ := hs.deadAt hg hparameters hn
  obtain rfl : n = m := Option.some.inj (hn.symm.trans hm)
  refine ⟨wellFormed_takeOut hs.wellFormed hn (outputs_unused_of_isDead hdead), hs.without.takeOut hs.wellFormed hn,
    List.nodup_cons.2 ⟨hleft, hs.nodup⟩, fun a ha => ?_, fun a ha => ?_,
    fun a ha => hs.listed a (List.mem_cons_of_mem id ha), (List.pairwise_cons.1 hs.ordered).2⟩
  · rcases List.mem_cons.1 ha with rfl | ha
    · exact hs.listed a List.mem_cons_self (by rw [hlive]; rfl)
    · exact hs.sound a ha
  · rcases hs.complete a ha with hgone | hmem
    · exact Or.inl (List.mem_cons_of_mem id hgone)
    · rcases List.mem_cons.1 hmem with rfl | hmem
      · exact Or.inl List.mem_cons_self
      · exact Or.inr hmem

/-- **No removal is refused.** -/
theorem foldl (hg : g.WellFormed) (hparameters : g.ParametersReadNothing) : ∀ (todo gone : List NodeId) (h : Graph),
    Pruning g todo gone h → ∃ gone', Pruning g [] gone' (todo.foldl removeCounting (h, gone.length)).1 ∧
      (todo.foldl removeCounting (h, gone.length)).2 = gone'.length
  | [], gone, _, hs => ⟨gone, hs, rfl⟩
  | id :: todo, gone, h, hs => by
    rw [List.foldl_cons, removeCounting, isRemovable]
    cases hn : h.node? id with
    | none => exact foldl hg hparameters todo gone h (hs.skip hn)
    | some n =>
      obtain ⟨m, hm, hdead⟩ := hs.deadAt hg hparameters hn
      obtain rfl : n = m := Option.some.inj (hn.symm.trans hm)
      have hun := outputs_unused_of_isDead hdead
      rw [Option.map_some, Option.getD_some, if_pos hun, remove_eq hn hun]
      exact foldl hg hparameters todo (id :: gone) _ (hs.takeOut hg hparameters hn)

end Pruning

variable {g : Graph}

/-- The nodes that pruning sets out to remove. -/
def unreachable (g : Graph) : List NodeId :=
  g.walkOrder.reverse.filter (fun id => !(g.neededBy (g.results.filterMap g.producerId?)).contains id.index &&
    decide ((g.node? id).map (·.op.type) ≠ some .parameter))

theorem mem_unreachable (hg : g.WellFormed) {id : NodeId} {n : Node} (hn : g.node? id = some n) :
    id ∈ g.unreachable ↔ g.Unneeded id := by
  have hneeded : (g.neededBy (g.results.filterMap g.producerId?)).contains id.index = true ↔ g.Needed id :=
    contains_neededBy_iff.trans (and_iff_right (node?_lt hn))
  simp [unreachable, Unneeded, mem_walkOrder hg hn, hn, ← hneeded, and_comm]

theorem pruning_start (hg : g.WellFormed) : Pruning g g.unreachable [] g where
  wellFormed := hg
  without := .refl hg
  nodup := .nil
  sound _ hid := absurd hid List.not_mem_nil
  complete id hid := by
    obtain ⟨n, hn, -⟩ := hid.1
    exact Or.inr ((mem_unreachable hg hn).2 hid)
  listed id hid hlive := by
    obtain ⟨n, hn⟩ := Option.isSome_iff_exists.1 hlive
    exact (mem_unreachable hg hn).1 hid
  ordered := (List.pairwise_reverse.2 (walkOrder_pairwise hg)).filter _

/-- **Pruning removes the nodes that no result depends on, all of them and nothing else**, and tells how many there
were.  The other nodes and their values stay as they were, but for the uses that the removed nodes made, and the graph
is the one that the collector of dead nodes leaves if it looks at every node. -/
theorem prune_exact (hg : g.WellFormed) (hparameters : g.ParametersReadNothing) : ∃ gone : List NodeId,
    gone.Nodup ∧ (∀ id, id ∈ gone ↔ g.Unneeded id) ∧ g.prune.2 = gone.length ∧ Without g gone g.prune.1 ∧
      g.prune.1 = (g.removeDead g.nodeIds).1 := by
  obtain ⟨gone, hend, hcount⟩ := Pruning.foldl hg hparameters _ _ _ (pruning_start hg)
  have hgone : ∀ id, id ∈ gone ↔ g.Unneeded id := fun id =>
    ⟨hend.sound id, fun hid => (hend.complete id hid).resolve_right List.not_mem_nil⟩
  have hleast := (isLeast_removeDead hg g.nodeIds).unique (isLeast_unneeded hg hparameters)
  have hremoved : ∀ id, id ∈ gone ↔ id ∈ (g.removeDead g.nodeIds).2 := fun id =>
    (hgone id).trans (Set.ext_iff.1 hleast id).symm
  exact ⟨gone, hend.nodup, hgone, hcount, hend.without,
    ((without_removeDead hg g.nodeIds).of_mem_iff hremoved).unique hend.without⟩

/-- An absolute value that was made to read a node newer than itself; both serve no result. -/
def detoured : Graph :=
  [Edit.addParameter none ⟨.f32, .ofSizes [3]⟩, .addValue none (.unary .relu) [⟨0⟩],
    .addValue none (.unary .abs) [⟨1⟩], .addValue none (.unary .negative) [⟨0⟩], .addValue none (.unary .sqrt) [⟨0⟩],
    .run ⟨"Detour", [⟨"Detour", ⟨#[.op [.unary .relu] [] true], ⟨0⟩⟩, fun _ => return ⟨3⟩⟩], ⟨2, .firstMatch, true⟩⟩,
    .setResults [⟨4⟩]].foldl Edit.apply (.empty .full)

/-- The newer of the two nodes is removed after the older one, which reads it. -/
theorem prune_exact_detoured : detoured.WellFormed ∧ detoured.ParametersReadNothing ∧ detoured.DependsOn ⟨2⟩ ⟨3⟩ ∧
    detoured.nodeIds = [⟨0⟩, ⟨2⟩, ⟨3⟩, ⟨4⟩] ∧ ∃ gone : List NodeId, (∀ id, id ∈ gone ↔ detoured.Unneeded id) ∧
      gone.length = 2 ∧ Without detoured gone detoured.prune.1 ∧ detoured.prune.1.nodeIds = [⟨0⟩, ⟨4⟩] ∧
      detoured.prune.1 = (detoured.removeDead detoured.nodeIds).1 := by
  have hg : detoured.WellFormed := wellFormed_edits _ (wellFormed_empty _)
  have hparameters : detoured.ParametersReadNothing := by decide +kernel
  obtain ⟨gone, -, hgone, hcount, hwithout, hagree⟩ := prune_exact hg hparameters
  have hnewer : (⟨3⟩ : NodeId) ∈ detoured.producersOf ⟨2⟩ := by decide +kernel
  exact ⟨hg, hparameters, hnewer, by decide +kernel, gone, hgone, hcount ▸ by decide +kernel, hwithout,
    by decide +kernel, hagree⟩

end Graph
end TensorGraph
