import TensorGraph.Graph.Remove
import TensorGraph.Proofs.Digraph.Reach
import TensorGraph.Proofs.Graph.WellFormed
/-!
# What taking out a node changes

The node and its outputs are gone, and the uses it made of other values.  If its outputs were
unused the graph stays well formed.  Both collectors do nothing but take out such nodes, so
whatever holds of a graph and is kept by taking out such a node holds of what they leave.
-/
namespace TensorGraph
namespace Graph

open Relation (ReflTransGen)

/-! ## What is needed -/

/-- **A node is needed by roots if a path along the dependencies leads to it from one of them.** -/
theorem contains_neededBy_iff {g : Graph} {roots : List NodeId} {id : NodeId} :
    (g.neededBy roots).contains id.index = true ↔
      id.index < g.nodeSlots ∧ ∃ root ∈ roots, ReflTransGen g.DependsOn root id := by
  rw [neededBy, Digraph.contains_reach_iff, size_dependencies]
  refine and_congr_right (fun _ => ?_)
  constructor
  · rintro ⟨i, hi, hpath⟩
    obtain ⟨root, hroot, rfl⟩ := List.mem_map.1 hi
    exact ⟨root, hroot, hpath.lift NodeId.mk (fun _ _ => edge_dependencies.1)⟩
  · rintro ⟨root, hroot, hpath⟩
    exact ⟨root.index, List.mem_map.2 ⟨root, hroot, rfl⟩, hpath.lift NodeId.index (fun _ _ => edge_dependencies.2)⟩

/-- A value depends on one of some nodes if a path leads there from its producer. -/
theorem dependsOnAny_iff {g : Graph} {v : ValueId} {nodes : List NodeId} (hlt : ∀ a ∈ nodes, a.index < g.nodeSlots) :
    g.dependsOnAny v nodes = true ↔ ∃ p, g.producerId? v = some p ∧ ∃ a ∈ nodes, ReflTransGen g.DependsOn p a := by
  unfold dependsOnAny
  simp only [List.any_eq_true, contains_neededBy_iff, Option.mem_toList]
  constructor
  · rintro ⟨a, ha, -, p, hp, hpath⟩
    exact ⟨p, hp, a, ha, hpath⟩
  · rintro ⟨p, hp, a, ha, hpath⟩
    exact ⟨a, ha, hlt a ha, p, hp, hpath⟩

/-! ## The parts of taking out a node -/

theorem isUnused_iff {g : Graph} {v : ValueId} : g.isUnused v = true ↔ v ∉ g.results ∧ g.usesOf v = [] := by
  simp [isUnused, isResult, List.isEmpty_iff]

/-- The value without the uses that a node makes of it. -/
def Value.withoutNode (val : Value) (id : NodeId) : Value :=
  { val with uses := val.uses.filter (fun u => u.node ≠ id) }

theorem node?_foldl_forgetUses (id j : NodeId) : ∀ (inputs : List ValueId) (g : Graph),
    (inputs.foldl (fun g v => g.forgetUses id v) g).node? j = g.node? j
  | [], _ => rfl
  | v :: inputs, g => by
    rw [List.foldl_cons, node?_foldl_forgetUses id j inputs]
    rfl

theorem value?_foldl_forgetUses (id : NodeId) (v : ValueId) : ∀ (inputs : List ValueId) (g : Graph),
    (inputs.foldl (fun g v => g.forgetUses id v) g).value? v =
      if v ∈ inputs then (g.value? v).map (fun val => Value.withoutNode val id) else g.value? v
  | [], g => by simp
  | w :: inputs, g => by
    rw [List.foldl_cons, value?_foldl_forgetUses id v inputs, forgetUses, value?_modifyValue]
    by_cases hw : w = v
    · subst hw
      cases g.value? w <;> simp [Value.withoutNode, List.filter_filter]
    · simp [hw, Ne.symm hw]

theorem node?_foldl_dropValue (j : NodeId) : ∀ (outputs : List ValueId) (g : Graph),
    (outputs.foldl dropValue g).node? j = g.node? j
  | [], _ => rfl
  | v :: outputs, g => by
    rw [List.foldl_cons, node?_foldl_dropValue j outputs]
    rfl

theorem value?_foldl_dropValue (v : ValueId) : ∀ (outputs : List ValueId) (g : Graph),
    (outputs.foldl dropValue g).value? v = if v ∈ outputs then none else g.value? v
  | [], g => by simp
  | w :: outputs, g => by
    rw [List.foldl_cons, value?_foldl_dropValue v outputs, value?_dropValue]
    by_cases hw : w = v
    · simp [hw]
    · simp [hw, Ne.symm hw]

/-! ## Taking out a node -/

theorem sameFrame_beforeParameters (g : Graph) (id : NodeId) (n : Node) :
    SameFrame g (n.outputs.foldl dropValue (n.inputs.foldl (fun g v => g.forgetUses id v) (g.dropNode id))) :=
  ((SameFrame.dropNode g id).trans
    (SameFrame.foldl (fun g v => SameFrame.modifyValue g v _) n.inputs _)).trans
    (SameFrame.foldl SameFrame.dropValue n.outputs _)

theorem node?_takeOut (g : Graph) (id : NodeId) (n : Node) (j : NodeId) :
    (g.takeOut id n).node? j = if id = j then none else g.node? j := by
  refine (node?_foldl_dropValue j n.outputs _).trans ?_
  rw [node?_foldl_forgetUses, node?_dropNode]

theorem value?_takeOut_raw (g : Graph) (id : NodeId) (n : Node) (v : ValueId) : (g.takeOut id n).value? v =
    if v ∈ n.outputs then none
    else if v ∈ n.inputs then (g.value? v).map (fun val => Value.withoutNode val id)
    else g.value? v := by
  refine (value?_foldl_dropValue v n.outputs _).trans ?_
  rw [value?_foldl_forgetUses, value?_dropNode]

theorem name_takeOut (g : Graph) (id : NodeId) (n : Node) : (g.takeOut id n).name = g.name :=
  (g.sameFrame_beforeParameters id n).name

theorem registry_takeOut (g : Graph) (id : NodeId) (n : Node) : (g.takeOut id n).registry = g.registry :=
  (g.sameFrame_beforeParameters id n).registry

theorem results_takeOut (g : Graph) (id : NodeId) (n : Node) : (g.takeOut id n).results = g.results :=
  (g.sameFrame_beforeParameters id n).results

theorem nodeSlots_takeOut (g : Graph) (id : NodeId) (n : Node) : (g.takeOut id n).nodeSlots = g.nodeSlots :=
  (g.sameFrame_beforeParameters id n).nodeSlots

theorem valueSlots_takeOut (g : Graph) (id : NodeId) (n : Node) : (g.takeOut id n).valueSlots = g.valueSlots :=
  (g.sameFrame_beforeParameters id n).valueSlots

theorem parameters_takeOut (g : Graph) (id : NodeId) (n : Node) :
    (g.takeOut id n).parameters = g.parameters.filter (fun p => !n.outputs.contains p) :=
  congrArg (List.filter _) (g.sameFrame_beforeParameters id n).parameters

theorem value?_takeOut {g : Graph} {id : NodeId} {n : Node}
    (huses : ∀ v val, g.value? v = some val → ∀ u ∈ val.uses, u.node = id → v ∈ n.inputs) (v : ValueId) :
    (g.takeOut id n).value? v =
      if v ∈ n.outputs then none else (g.value? v).map (fun val => Value.withoutNode val id) := by
  rw [value?_takeOut_raw]
  by_cases hin : v ∈ n.inputs
  · rw [if_pos hin]
  · rw [if_neg hin]
    cases hv : g.value? v with
    | none => rfl
    | some val =>
      have hkeep : val.uses.filter (fun u => u.node ≠ id) = val.uses := by
        refine List.filter_eq_self.2 (fun u hu => ?_)
        have : u.node ≠ id := fun he => hin (huses v val hv u hu he)
        simpa using this
      simp only [Option.map_some, Value.withoutNode, hkeep]

section

variable {g : Graph} {id : NodeId} {n : Node}

theorem WellFormed.mem_inputs_of_use (h : g.WellFormed) (hn : g.node? id = some n) (v : ValueId) (val : Value)
    (hv : g.value? v = some val) (u : Use) (hu : u ∈ val.uses) (hid : u.node = id) : v ∈ n.inputs := by
  obtain ⟨m, hm, hr⟩ := (h.mem_uses hv u).1 hu
  obtain rfl : n = m := Option.some.inj (hn.symm.trans (hid ▸ hm))
  exact List.mem_of_getElem? hr

theorem value?_of_takeOut (h : g.WellFormed) (hn : g.node? id = some n) {v : ValueId} {val : Value}
    (hv : (g.takeOut id n).value? v = some val) :
    v ∉ n.outputs ∧ ∃ old, g.value? v = some old ∧ val = Value.withoutNode old id := by
  rw [value?_takeOut (h.mem_inputs_of_use hn)] at hv
  split at hv
  · cases hv
  · rename_i hout
    obtain ⟨old, hold, rfl⟩ := Option.map_eq_some_iff.1 hv
    exact ⟨hout, old, hold, rfl⟩

theorem value?_takeOut_of (h : g.WellFormed) (hn : g.node? id = some n) {v : ValueId} {old : Value}
    (hv : g.value? v = some old) (hout : v ∉ n.outputs) :
    (g.takeOut id n).value? v = some (Value.withoutNode old id) := by
  rw [value?_takeOut (h.mem_inputs_of_use hn), if_neg hout, hv]
  rfl

theorem node?_of_takeOut {j : NodeId} {m : Node} (hm : (g.takeOut id n).node? j = some m) :
    id ≠ j ∧ g.node? j = some m := by
  rw [node?_takeOut] at hm
  split at hm
  · cases hm
  · exact ⟨by assumption, hm⟩

theorem not_mem_outputs_of_reads (h : g.WellFormed) (hun : n.outputs.all g.isUnused = true) {u : Use} {v : ValueId}
    (hu : g.Reads u v) : v ∉ n.outputs := by
  intro hv
  have hempty := (isUnused_iff.1 (List.all_eq_true.1 hun v hv)).2
  have := h.mem_usesOf.2 hu
  rw [hempty] at this
  cases this

theorem reads_takeOut_iff {u : Use} {v : ValueId} :
    (g.takeOut id n).Reads u v ↔ g.Reads u v ∧ u.node ≠ id := by
  constructor
  · rintro ⟨m, hm, hr⟩
    obtain ⟨hne, hm⟩ := node?_of_takeOut hm
    exact ⟨⟨m, hm, hr⟩, hne.symm⟩
  · rintro ⟨⟨m, hm, hr⟩, hne⟩
    exact ⟨m, by rw [node?_takeOut, if_neg hne.symm, hm], hr⟩

theorem dependsOn_of_takeOut (h : g.WellFormed) (hn : g.node? id = some n) {a b : NodeId}
    (hab : (g.takeOut id n).DependsOn a b) : g.DependsOn a b := by
  obtain ⟨m, v, val, hm, hv, hval, rfl⟩ := dependsOn_iff.1 hab
  obtain ⟨-, old, hold, rfl⟩ := value?_of_takeOut h hn hval
  exact dependsOn_iff.2 ⟨m, v, old, (node?_of_takeOut hm).2, hv, hold, rfl⟩

/-- **A graph stays well formed when a node goes whose outputs are unused.** -/
theorem wellFormed_takeOut (h : g.WellFormed) (hn : g.node? id = some n) (hun : n.outputs.all g.isUnused = true) :
    (g.takeOut id n).WellFormed where
  input_live {j m v} hm hv := by
    obtain ⟨-, hm⟩ := node?_of_takeOut hm
    obtain ⟨i, hreads⟩ := reads_of_mem_inputs hm hv
    obtain ⟨val, hval⟩ := Option.isSome_iff_exists.1 (h.input_live hm hv)
    rw [value?_takeOut_of h hn hval (not_mem_outputs_of_reads h hun hreads)]
    rfl
  produced {v val} hv := by
    obtain ⟨hout, old, hold, rfl⟩ := value?_of_takeOut h hn hv
    obtain ⟨m, hm, hi⟩ := h.produced hold
    refine ⟨m, ?_, hi⟩
    rw [node?_takeOut, if_neg]
    · exact hm
    · intro he
      obtain rfl : n = m := Option.some.inj (hn.symm.trans (he ▸ hm))
      exact hout (List.mem_of_getElem? hi)
  output_live {j m i v} hm hi := by
    obtain ⟨hne, hm⟩ := node?_of_takeOut hm
    obtain ⟨val, hval, hp, hidx⟩ := h.output_live hm hi
    refine ⟨Value.withoutNode val id, value?_takeOut_of h hn hval (fun hout => hne ?_), hp, hidx⟩
    obtain ⟨val', hval', hp'⟩ := h.output_live' hn hout
    obtain rfl : val = val' := Option.some.inj (hval.symm.trans hval')
    exact hp'.symm.trans hp
  uses_nodup hv := by
    obtain ⟨-, old, hold, rfl⟩ := value?_of_takeOut h hn hv
    exact (h.uses_nodup hold).filter _
  mem_uses {v val} hv u := by
    obtain ⟨-, old, hold, rfl⟩ := value?_of_takeOut h hn hv
    rw [reads_takeOut_iff, ← h.mem_uses hold]
    simp [Value.withoutNode]
  result_live v hv := by
    rw [results_takeOut] at hv
    obtain ⟨val, hval⟩ := Option.isSome_iff_exists.1 (h.result_live v hv)
    rw [value?_takeOut_of h hn hval (fun hout => (isUnused_iff.1 (List.all_eq_true.1 hun v hout)).1 hv)]
    rfl
  parameter_live v hv := by
    rw [parameters_takeOut] at hv
    obtain ⟨hv, hout⟩ := List.mem_filter.1 hv
    obtain ⟨val, hval⟩ := Option.isSome_iff_exists.1 (h.parameter_live v hv)
    rw [value?_takeOut_of h hn hval (by simpa using hout)]
    rfl
  acyclic a ha := h.acyclic a (ha.lift (fun b => b) (fun _ _ => dependsOn_of_takeOut h hn))

end

/-! ## The collectors -/

theorem remove_eq {g : Graph} {id : NodeId} {n : Node} (hn : g.node? id = some n)
    (hun : n.outputs.all g.isUnused = true) : g.remove id = g.takeOut id n := by
  simp only [remove, hn]
  rw [if_pos hun]

theorem outputs_unused_of_isDead {g : Graph} {n : Node} (h : g.isDead n = true) : n.outputs.all g.isUnused = true := by
  simp only [isDead, Bool.and_eq_true, List.all_eq_true] at h ⊢
  exact fun v hv => (h.2 v hv).2

section Induct

variable {P : Graph → Prop}
  (step : ∀ (g : Graph) (id : NodeId) (n : Node), P g → g.node? id = some n → n.outputs.all g.isUnused = true →
    P (g.takeOut id n))

include step

theorem remove_induct {g : Graph} (id : NodeId) (h : P g) : P (g.remove id) := by
  unfold remove
  split
  · rename_i n hn
    split
    · exact step g id n h hn (by assumption)
    · exact h
  · exact h

theorem removeDeadFrom_induct : ∀ (fuel : Nat) (stack : List NodeId) (g : Graph) (removed : List NodeId),
    P g → P (removeDeadFrom fuel stack (g, removed)).1
  | 0, _, _, _, h => h
  | _ + 1, [], _, _, h => h
  | fuel + 1, id :: stack, g, removed, h => by
    rw [removeDeadFrom]
    cases hn : g.node? id with
    | none => exact removeDeadFrom_induct fuel stack g removed h
    | some n =>
      simp only
      split
      · rename_i hdead
        exact removeDeadFrom_induct fuel _ _ _ (step g id n h hn (outputs_unused_of_isDead hdead))
      · exact removeDeadFrom_induct fuel stack g removed h

/-- **What taking out unused nodes keeps, the collector of dead nodes keeps.** -/
theorem removeDead_induct {g : Graph} (candidates : List NodeId) (h : P g) : P (g.removeDead candidates).1 :=
  removeDeadFrom_induct step _ _ g [] h

theorem removeCounting_induct {s : Graph × Nat} (id : NodeId) (h : P s.1) : P (removeCounting s id).1 := by
  obtain ⟨g, count⟩ := s
  unfold removeCounting
  simp only
  split
  · exact remove_induct step id h
  · exact h

theorem foldl_removeCounting_induct : ∀ (ids : List NodeId) (s : Graph × Nat), P s.1 → P (ids.foldl removeCounting s).1
  | [], _, h => h
  | id :: ids, _, h => foldl_removeCounting_induct ids _ (removeCounting_induct step id h)

/-- **What taking out unused nodes keeps, pruning keeps.** -/
theorem prune_induct {g : Graph} (h : P g) : P g.prune.1 := foldl_removeCounting_induct step _ (g, 0) h

end Induct

theorem wellFormed_removeDead {g : Graph} (h : g.WellFormed) (candidates : List NodeId) :
    (g.removeDead candidates).1.WellFormed :=
  removeDead_induct (fun _ _ _ => wellFormed_takeOut) candidates h

theorem wellFormed_prune {g : Graph} (h : g.WellFormed) : g.prune.1.WellFormed :=
  prune_induct (fun _ _ _ => wellFormed_takeOut) h

end Graph
end TensorGraph
