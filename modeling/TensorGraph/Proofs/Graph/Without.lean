import TensorGraph.Proofs.Graph.Collected
/-!
# Without — what is left when some nodes are gone

`Without g gone h` says that `h` is `g` less the nodes in `gone`, their outputs and the uses that they
made of other values; everything else is as it was.  Taking out one more node adds it to `gone`, so
this holds of whatever a collector leaves, and the nodes that are gone decide what is left
(`Without.unique`).

A node that is left is dead if it was expendable in `g` and all that read it are gone.
-/
namespace TensorGraph

/-- The value without the uses that some nodes make of it. -/
def Value.withoutNodes (val : Value) (gone : List NodeId) : Value :=
  { val with uses := val.uses.filter (fun u => u.node ∉ gone) }

namespace Graph

/-- **The second graph is the first less some nodes**, their outputs and the uses that they made. -/
structure Without (g : Graph) (gone : List NodeId) (h : Graph) : Prop where
  name : h.name = g.name
  registry : h.registry = g.registry
  results : h.results = g.results
  nodeSlots : h.nodeSlots = g.nodeSlots
  valueSlots : h.valueSlots = g.valueSlots
  parameters : h.parameters = g.parameters.filter (fun v => (h.value? v).isSome)
  gone_live : ∀ id ∈ gone, (g.node? id).isSome = true
  node?_eq : ∀ id, h.node? id = if id ∈ gone then none else g.node? id
  value?_eq : ∀ v, h.value? v =
    (g.value? v).bind (fun val => if val.producer ∈ gone then none else some (val.withoutNodes gone))

/-! ## Expendable nodes -/

/-- The value is a result, or it is read. -/
def InUse (g : Graph) (v : ValueId) : Prop := v ∈ g.results ∨ ∃ u, g.Reads u v

/-- The node can go once nobody reads it: it is no parameter, and none of its outputs is a result. -/
def Expendable (g : Graph) (id : NodeId) : Prop :=
  ∃ n, g.node? id = some n ∧ n.op.type ≠ .parameter ∧ ∀ v ∈ n.outputs, v ∉ g.results

theorem dependsOn_iff_reads {g : Graph} (hg : g.WellFormed) {id c : NodeId} {n : Node} (hn : g.node? id = some n) :
    g.DependsOn c id ↔ ∃ v ∈ n.outputs, ∃ u, g.Reads u v ∧ u.node = c := by
  constructor
  · intro h
    obtain ⟨m, v, val, hm, hv, hval, rfl⟩ := dependsOn_iff.1 h
    obtain ⟨i, hread⟩ := reads_of_mem_inputs hm hv
    exact ⟨v, hg.mem_outputs hval hn, _, hread, rfl⟩
  · rintro ⟨v, hv, u, hread, rfl⟩
    obtain ⟨val, hval, rfl⟩ := hg.output_live' hn hv
    exact hread.dependsOn hval

/-- **A dead node is an expendable one that nobody reads.** -/
theorem deadAt_iff {g : Graph} (hg : g.WellFormed) {id : NodeId} :
    g.DeadAt id ↔ g.Expendable id ∧ ∀ c, ¬ g.DependsOn c id := by
  constructor
  · rintro ⟨n, hn, hdead⟩
    obtain ⟨hkind, hout⟩ := (isDead_iff hg hn).1 hdead
    refine ⟨⟨n, hn, hkind, fun v hv => (hout v hv).1⟩, fun c hc => ?_⟩
    obtain ⟨v, hv, u, hread, -⟩ := (dependsOn_iff_reads hg hn).1 hc
    exact (hout v hv).2 u hread
  · rintro ⟨⟨n, hn, hkind, hout⟩, hunread⟩
    refine ⟨n, hn, (isDead_iff hg hn).2 ⟨hkind, fun v hv => ⟨hout v hv, fun u hread => ?_⟩⟩⟩
    exact hunread u.node ((dependsOn_iff_reads hg hn).2 ⟨v, hv, u, hread, rfl⟩)

namespace Without

variable {g h : Graph} {gone : List NodeId} {id : NodeId} {n : Node}

theorem node?_eq_some (hw : Without g gone h) : h.node? id = some n ↔ id ∉ gone ∧ g.node? id = some n := by
  rw [hw.node?_eq]
  by_cases hid : id ∈ gone <;> simp [hid]

theorem node?_eq_none (hw : Without g gone h) (hn : g.node? id = some n) : h.node? id = none ↔ id ∈ gone := by
  rw [hw.node?_eq, hn]
  simp

theorem value?_eq_some (hw : Without g gone h) {v : ValueId} {val : Value} : h.value? v = some val ↔
    ∃ old, g.value? v = some old ∧ old.producer ∉ gone ∧ val = old.withoutNodes gone := by
  rw [hw.value?_eq, Option.bind_eq_some_iff]
  refine exists_congr (fun old => and_congr_right (fun _ => ?_))
  by_cases hp : old.producer ∈ gone <;> simp [hp, eq_comm]

theorem type?_eq (hw : Without g gone h) {v : ValueId} (hv : (h.value? v).isSome = true) : h.type? v = g.type? v := by
  obtain ⟨val, hval⟩ := Option.isSome_iff_exists.1 hv
  obtain ⟨old, hold, -, rfl⟩ := hw.value?_eq_some.1 hval
  rw [type?, type?, hval, hold]
  rfl

theorem thinned (hw : Without g gone h) : Thinned g h := ⟨hw.results, fun hn => (hw.node?_eq_some.1 hn).2⟩

/-- Who is left depends on the same nodes, as far as they are left. -/
theorem dependsOn_iff (hw : Without g gone h) {a b : NodeId} :
    h.DependsOn a b ↔ g.DependsOn a b ∧ a ∉ gone ∧ b ∉ gone := by
  rw [Graph.dependsOn_iff, Graph.dependsOn_iff]
  constructor
  · rintro ⟨n, v, val, hn, hv, hval, rfl⟩
    obtain ⟨ha, hn⟩ := hw.node?_eq_some.1 hn
    obtain ⟨old, hold, hb, rfl⟩ := hw.value?_eq_some.1 hval
    exact ⟨⟨n, v, old, hn, hv, hold, rfl⟩, ha, hb⟩
  · rintro ⟨⟨n, v, val, hn, hv, hval, rfl⟩, ha, hb⟩
    exact ⟨n, v, _, hw.node?_eq_some.2 ⟨ha, hn⟩, hv, hw.value?_eq_some.2 ⟨val, hval, hb, rfl⟩, rfl⟩

theorem expendable_iff (hw : Without g gone h) : h.Expendable id ↔ id ∉ gone ∧ g.Expendable id := by
  unfold Expendable
  rw [hw.results]
  constructor
  · rintro ⟨n, hn, hrest⟩
    obtain ⟨hid, hn⟩ := hw.node?_eq_some.1 hn
    exact ⟨hid, n, hn, hrest⟩
  · rintro ⟨hid, n, hn, hrest⟩
    exact ⟨n, hw.node?_eq_some.2 ⟨hid, hn⟩, hrest⟩

/-- **What is left is dead if it was expendable and all that read it are gone.** -/
theorem deadAt_iff (hw : Without g gone h) (hh : h.WellFormed) :
    h.DeadAt id ↔ id ∉ gone ∧ g.Expendable id ∧ ∀ c, g.DependsOn c id → c ∈ gone := by
  rw [Graph.deadAt_iff hh, hw.expendable_iff, and_assoc]
  refine and_congr_right (fun hid => and_congr_right (fun _ => forall_congr' (fun c => ?_)))
  rw [hw.dependsOn_iff]
  constructor
  · intro hc hdep
    by_contra hgone
    exact hc ⟨hdep, hgone, hid⟩
  · exact fun hc ⟨hdep, hgone, _⟩ => hgone (hc hdep)

/-! ## Taking out nodes -/

theorem refl (hg : g.WellFormed) : Without g [] g where
  name := rfl
  registry := rfl
  results := rfl
  nodeSlots := rfl
  valueSlots := rfl
  parameters := (List.filter_eq_self.2 hg.parameter_live).symm
  gone_live _ hid := absurd hid List.not_mem_nil
  node?_eq _ := rfl
  value?_eq v := by cases g.value? v <;> simp [Value.withoutNodes]

/-- **One more node is gone.** -/
theorem takeOut (hw : Without g gone h) (hh : h.WellFormed) (hn : h.node? id = some n) :
    Without g (id :: gone) (h.takeOut id n) where
  name := (h.name_takeOut id n).trans hw.name
  registry := (h.registry_takeOut id n).trans hw.registry
  results := (h.results_takeOut id n).trans hw.results
  nodeSlots := (h.nodeSlots_takeOut id n).trans hw.nodeSlots
  valueSlots := (h.valueSlots_takeOut id n).trans hw.valueSlots
  parameters := by
    rw [parameters_takeOut, hw.parameters, List.filter_filter]
    refine List.filter_congr (fun v _ => ?_)
    rw [value?_takeOut (hh.mem_inputs_of_use hn)]
    by_cases hv : v ∈ n.outputs <;> simp [hv]
  gone_live j hj := by
    rcases List.mem_cons.1 hj with rfl | hj
    · rw [(hw.node?_eq_some.1 hn).2]
      rfl
    · exact hw.gone_live j hj
  node?_eq j := by
    rw [node?_takeOut, hw.node?_eq]
    by_cases hj : id = j
    · simp [hj]
    · simp [hj, Ne.symm hj]
  value?_eq v := by
    rw [value?_takeOut (hh.mem_inputs_of_use hn)]
    cases hold : g.value? v with
    | none =>
      have hv : h.value? v = none := by rw [hw.value?_eq, hold, Option.bind_none]
      simp [hv]
    | some old =>
      have hv := hw.value?_eq v
      rw [hold, Option.bind_some] at hv
      rw [hv, Option.bind_some]
      by_cases hp : old.producer ∈ gone
      · simp [hp]
      · rw [if_neg hp] at hv
        by_cases hid : old.producer = id
        · simp [hid, (hh.mem_outputs_iff hn hv).2 hid]
        · have hout : v ∉ n.outputs := fun hout => hid ((hh.mem_outputs_iff hn hv).1 hout)
          simp [hout, hp, hid, Value.withoutNodes, Graph.Value.withoutNode, List.filter_filter]

/-- The order in which nodes went does not show. -/
theorem of_mem_iff {gone' : List NodeId} (hw : Without g gone h) (hmem : ∀ id, id ∈ gone' ↔ id ∈ gone) :
    Without g gone' h where
  name := hw.name
  registry := hw.registry
  results := hw.results
  nodeSlots := hw.nodeSlots
  valueSlots := hw.valueSlots
  parameters := hw.parameters
  gone_live id hid := hw.gone_live id ((hmem id).1 hid)
  node?_eq id := by
    rw [hw.node?_eq]
    simp only [hmem]
  value?_eq v := by
    rw [hw.value?_eq]
    simp only [Value.withoutNodes, hmem]

/-- **The nodes that are gone decide what is left.** -/
theorem unique {h' : Graph} (hw : Without g gone h) (hw' : Without g gone h') : h' = h := by
  have hvalue : ∀ v, h'.value? v = h.value? v := fun v => (hw'.value?_eq v).trans (hw.value?_eq v).symm
  refine eq_of_lookups ⟨hw'.name.trans hw.name.symm, hw'.registry.trans hw.registry.symm, ?_,
    hw'.results.trans hw.results.symm, hw'.nodeSlots.trans hw.nodeSlots.symm,
    hw'.valueSlots.trans hw.valueSlots.symm⟩ (fun id => (hw'.node?_eq id).trans (hw.node?_eq id).symm) hvalue
  rw [hw'.parameters, hw.parameters]
  simp only [hvalue]

end Without
end Graph
end TensorGraph
