import TensorGraph.Proofs.Graph.Remove
/-!
# Collected — what the collector leaves behind

A node dies when the last use of its outputs goes, and that use was made by the node that was just
taken out; so the producers that are put on the stack are the only nodes that can have died.  Nodes
that are dead and were not from the start are therefore always on the stack, and so are dead
candidates (`Awaited`).  Each round takes a node off the stack, or takes it out of the graph and puts
no more nodes on the stack than it had inputs, so the fuel lasts until the stack is empty.
-/
namespace TensorGraph
namespace Graph

/-! ## Input positions -/

/-- The number of input positions in a slot for a node. -/
def slotInputs (slot : Option Node) : Nat := ((slot.map Node.inputs).getD []).length

theorem foldl_slotInputs : ∀ (slots : List (Option Node)) (a : Nat),
    slots.foldl (fun n slot => n + slotInputs slot) a = a + (slots.map slotInputs).sum
  | [], a => by simp
  | slot :: slots, a => by
    rw [List.foldl_cons, foldl_slotInputs slots, List.map_cons, List.sum_cons]
    omega

theorem inputCount_eq (g : Graph) : g.inputCount = (g.nodes.toList.map slotInputs).sum := by
  have hfold := foldl_slotInputs g.nodes.toList 0
  rw [Array.foldl_toList, Nat.zero_add] at hfold
  exact hfold

theorem sum_modify_none {n : Node} : ∀ {slots : List (Option Node)} {i : Nat}, slots[i]? = some (some n) →
    ((slots.modify i (fun _ => none)).map slotInputs).sum + n.inputs.length = (slots.map slotInputs).sum
  | [], _, h => by cases h
  | slot :: slots, 0, h => by
    obtain rfl : slot = some n := Option.some.inj h
    have hzero : slotInputs none = 0 := rfl
    have hslot : slotInputs (some n) = n.inputs.length := rfl
    simp only [List.modify_zero_cons, List.map_cons, List.sum_cons, hzero, hslot]
    omega
  | slot :: slots, i + 1, h => by
    have hrest := sum_modify_none (show slots[i]? = some (some n) from h)
    simp only [List.modify_succ_cons, List.map_cons, List.sum_cons]
    omega

theorem nodes_foldl {α : Type} {step : Graph → α → Graph} (hstep : ∀ g a, (step g a).nodes = g.nodes) :
    ∀ (as : List α) (g : Graph), (as.foldl step g).nodes = g.nodes
  | [], _ => rfl
  | a :: as, g => by rw [List.foldl_cons, nodes_foldl hstep as, hstep]

theorem nodes_takeOut (g : Graph) (id : NodeId) (n : Node) :
    (g.takeOut id n).nodes = g.nodes.modify id.index (fun _ => none) := by
  refine (nodes_foldl ?_ n.outputs _).trans (nodes_foldl ?_ n.inputs (g.dropNode id))
  · exact fun _ _ => rfl
  · exact fun _ _ => rfl

/-- **The input positions of a node go with it.** -/
theorem inputCount_takeOut {g : Graph} {id : NodeId} {n : Node} (hn : g.node? id = some n) :
    (g.takeOut id n).inputCount + n.inputs.length = g.inputCount := by
  rw [inputCount_eq, inputCount_eq, nodes_takeOut, Array.toList_modify]
  refine sum_modify_none ?_
  rw [Array.getElem?_toList]
  exact Option.join_eq_some_iff.1 hn

/-! ## Nodes that die -/

/-- The node is there, and it is dead. -/
def DeadAt (g : Graph) (id : NodeId) : Prop := ∃ n, g.node? id = some n ∧ g.isDead n = true

theorem isDead_iff {g : Graph} (hg : g.WellFormed) {id : NodeId} {n : Node} (hn : g.node? id = some n) :
    g.isDead n = true ↔ n.op.type ≠ .parameter ∧ ∀ v ∈ n.outputs, v ∉ g.results ∧ ∀ u, ¬ g.Reads u v := by
  unfold isDead
  rw [Bool.and_eq_true, decide_eq_true_iff, List.all_eq_true]
  refine and_congr_right (fun _ => forall₂_congr (fun v hv => ?_))
  obtain ⟨val, hval, -⟩ := hg.output_live' hn hv
  rw [Bool.and_eq_true, isUnused_iff, hval, List.eq_nil_iff_forall_not_mem]
  simp only [Option.isSome_some, true_and, hg.mem_usesOf]

/-- **A node that was not dead before has died with its last reader.** -/
theorem deadAt_of_takeOut {g : Graph} (hg : g.WellFormed) {id : NodeId} {n : Node} (hn : g.node? id = some n)
    (hun : n.outputs.all g.isUnused = true) {a : NodeId} (ha : (g.takeOut id n).DeadAt a) :
    a ≠ id ∧ (g.DeadAt a ∨ a ∈ g.producersAmong n.inputs) := by
  obtain ⟨m, hm', hdead⟩ := ha
  obtain ⟨hne, hm⟩ := node?_of_takeOut hm'
  rw [isDead_iff (wellFormed_takeOut hg hn hun) hm'] at hdead
  refine ⟨hne.symm, ?_⟩
  by_cases hbefore : g.DeadAt a
  · exact Or.inl hbefore
  · right
    -- an output of the node was read, and by nobody who is still there
    have hread : ∃ v ∈ m.outputs, ∃ u, g.Reads u v := by
      by_contra hnone
      refine hbefore ⟨m, hm, (isDead_iff hg hm).2 ⟨hdead.1, fun v hv => ⟨?_, fun u hu => hnone ⟨v, hv, u, hu⟩⟩⟩⟩
      exact results_takeOut g id n ▸ (hdead.2 v hv).1
    obtain ⟨v, hv, u, hu⟩ := hread
    have hreader : u.node = id := by
      by_contra hother
      exact (hdead.2 v hv).2 u (reads_takeOut_iff.2 ⟨hu, hother⟩)
    obtain ⟨r, hr, hin⟩ := hu
    obtain rfl : n = r := Option.some.inj (hn.symm.trans (hreader ▸ hr))
    obtain ⟨val, hval, hp⟩ := hg.output_live' hm hv
    exact List.mem_filterMap.2 ⟨v, List.mem_of_getElem? hin, by rw [producerId?_eq_some hval, hp]⟩

/-! ## Nodes that are gone -/

/-- **The second graph is the first without some of its nodes.** -/
structure Thinned (g h : Graph) : Prop where
  results : h.results = g.results
  node? : ∀ {id : NodeId} {n : Node}, h.node? id = some n → g.node? id = some n

namespace Thinned

variable {g h : Graph}

theorem takeOut (hgh : Thinned g h) (id : NodeId) (n : Node) : Thinned g (h.takeOut id n) :=
  ⟨(h.results_takeOut id n).trans hgh.results, fun hm => hgh.node? (node?_of_takeOut hm).2⟩

theorem reads (hgh : Thinned g h) {u : Use} {v : ValueId} (hu : h.Reads u v) : g.Reads u v := by
  obtain ⟨n, hn, hv⟩ := hu
  exact ⟨n, hgh.node? hn, hv⟩

/-- A reader reads on, or it is gone. -/
theorem reads_or_gone (hgh : Thinned g h) {u : Use} {v : ValueId} (hu : g.Reads u v) :
    h.Reads u v ∨ h.node? u.node = none := by
  obtain ⟨n, hn, hv⟩ := hu
  cases hm : h.node? u.node with
  | none => exact Or.inr rfl
  | some m =>
    obtain rfl : m = n := Option.some.inj ((hgh.node? hm).symm.trans hn)
    exact Or.inl ⟨m, hm, hv⟩

end Thinned

/-! ## The stack -/

/-- The dead nodes that matter are on the stack. -/
def Awaited (matters : NodeId → Prop) (g : Graph) (stack : List NodeId) : Prop :=
  ∀ a, matters a → g.DeadAt a → a ∈ stack

section Awaited

variable {matters : NodeId → Prop} {g : Graph} {id : NodeId} {n : Node} {stack : List NodeId}

theorem Awaited.skip (h : Awaited matters g (id :: stack)) (hid : ¬ g.DeadAt id) : Awaited matters g stack := by
  intro a ha hdead
  rcases List.mem_cons.1 (h a ha hdead) with rfl | hmem
  · exact absurd hdead hid
  · exact hmem

theorem Awaited.takeOut (h : Awaited matters g (id :: stack)) (hg : g.WellFormed) (hn : g.node? id = some n)
    (hun : n.outputs.all g.isUnused = true) :
    Awaited matters (g.takeOut id n) ((g.producersAmong n.inputs).reverse ++ stack) := by
  intro a ha hdead
  obtain ⟨hne, hbefore | hproducer⟩ := deadAt_of_takeOut hg hn hun hdead
  · exact List.mem_append_right _ ((List.mem_cons.1 (h a ha hbefore)).resolve_left hne)
  · exact List.mem_append_left _ (List.mem_reverse.2 hproducer)

/-- **The collector empties the stack.** -/
theorem awaited_removeDeadFrom : ∀ (fuel : Nat) (stack : List NodeId) (g : Graph) (removed : List NodeId), g.WellFormed →
    g.inputCount + stack.length ≤ fuel → Awaited matters g stack →
      Awaited matters (removeDeadFrom fuel stack (g, removed)).1 []
  | 0, [], _, _, _, _, h => h
  | 0, _ :: _, _, _, _, hfuel, _ => absurd hfuel (by simp)
  | _ + 1, [], _, _, _, _, h => h
  | fuel + 1, id :: stack, g, removed, hg, hfuel, h => by
    rw [List.length_cons] at hfuel
    rw [removeDeadFrom]
    cases hn : g.node? id with
    | none =>
      have hid : ¬ g.DeadAt id := by
        rintro ⟨n, hn', -⟩
        rw [hn] at hn'
        cases hn'
      exact awaited_removeDeadFrom fuel stack g removed hg (by omega) (h.skip hid)
    | some n =>
      simp only
      split
      · rename_i hdead
        have hun := outputs_unused_of_isDead hdead
        -- what goes on the stack is paid for by the input positions that go
        have hcount := inputCount_takeOut hn
        have hlength : (g.producersAmong n.inputs).length ≤ n.inputs.length := List.length_filterMap_le _ _
        refine awaited_removeDeadFrom fuel _ _ _ (wellFormed_takeOut hg hn hun) ?_ (h.takeOut hg hn hun)
        rw [List.length_append, List.length_reverse]
        omega
      · rename_i halive
        have hid : ¬ g.DeadAt id := by
          rintro ⟨m, hm, hdead⟩
          obtain rfl : n = m := Option.some.inj (hn.symm.trans hm)
          exact halive hdead
        exact awaited_removeDeadFrom fuel stack g removed hg (by omega) (h.skip hid)

end Awaited

/-- **The collector leaves nothing dead**, but for nodes that were dead before and are no candidates. -/
theorem deadAt_of_removeDead {g : Graph} (hg : g.WellFormed) {candidates : List NodeId} {a : NodeId}
    (ha : (g.removeDead candidates).1.DeadAt a) : g.DeadAt a ∧ a ∉ candidates := by
  have hstart : Awaited (fun a => ¬ (g.DeadAt a ∧ a ∉ candidates)) g candidates.reverse := by
    intro b hb hdead
    rw [List.mem_reverse]
    by_contra hmem
    exact hb ⟨hdead, hmem⟩
  have hdone := awaited_removeDeadFrom (g.inputCount + candidates.length) candidates.reverse g [] hg
    (by rw [List.length_reverse]) hstart
  by_contra hmatters
  have hempty := hdone a hmatters ha
  cases hempty

/-- **What the collector leaves**: nodes that were there before, and no candidate dead. -/
structure Collected (g : Graph) (candidates : List NodeId) (h : Graph) : Prop where
  thinned : Thinned g h
  wellFormed : h.WellFormed
  alive : ∀ a ∈ candidates, ¬ h.DeadAt a

theorem collected_removeDead {g : Graph} (hg : g.WellFormed) (candidates : List NodeId) :
    Collected g candidates (g.removeDead candidates).1 where
  thinned := removeDead_induct (fun _ id n h _ _ => h.takeOut id n) candidates ⟨rfl, fun h => h⟩
  wellFormed := wellFormed_removeDead hg candidates
  alive _ ha hdead := (deadAt_of_removeDead hg hdead).2 ha

end Graph
end TensorGraph
