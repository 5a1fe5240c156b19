import TensorGraph.Graph.Verify
import TensorGraph.Proofs.Graph.Order
/-!
# `verify` accepts every well-formed graph

The checks of `verify` are taken one by one.  The longest is about the uses: the table that
`verify` reads off the nodes lists, for each value, the input positions that read it, each once.
-/
namespace TensorGraph
namespace Graph

/-! ## The table of input positions -/

/-- Every input position, with the value it reads, in the order in which the table is filled. -/
def readings (g : Graph) : List (ValueId × Use) :=
  g.nodeIds.flatMap (fun id => (g.inputsOf id).zipIdx.map (fun p => (p.1, ⟨id, p.2⟩)))

theorem mem_readings {g : Graph} {v : ValueId} {u : Use} : (v, u) ∈ g.readings ↔ g.Reads u v := by
  unfold readings Reads
  rw [List.mem_flatMap]
  constructor
  · rintro ⟨id, hid, hu⟩
    obtain ⟨⟨w, i⟩, hwi, he⟩ := List.mem_map.1 hu
    obtain ⟨n, hn⟩ := Option.isSome_iff_exists.1 (mem_nodeIds.1 hid)
    simp only [Prod.mk.injEq] at he
    obtain ⟨rfl, rfl⟩ := he
    refine ⟨n, hn, ?_⟩
    have := List.mk_mem_zipIdx_iff_getElem?.1 hwi
    rwa [inputsOf, hn] at this
  · rintro ⟨n, hn, hv⟩
    refine ⟨u.node, mem_nodeIds.2 (by rw [hn]; rfl), List.mem_map.2 ⟨(v, u.input), ?_, rfl⟩⟩
    rw [List.mk_mem_zipIdx_iff_getElem?, inputsOf, hn]
    exact hv

theorem readings_uses_nodup (g : Graph) : (g.readings.map Prod.snd).Nodup := by
  have huses : g.readings.map Prod.snd
      = g.nodeIds.flatMap (fun id => (List.range (g.inputsOf id).length).map (Use.mk id)) := by
    unfold readings
    rw [List.map_flatMap]
    refine List.flatMap_congr (fun id _ => ?_)
    rw [List.range_eq_range', ← List.zipIdx_map_snd 0, List.map_map, List.map_map]
    rfl
  rw [huses, List.nodup_flatMap]
  refine ⟨fun id _ => List.nodup_range.map (fun _ _ he => congrArg Use.input he), ?_⟩
  refine (nodup_of_ascending g.nodeIds_ascending).imp (fun {a b} hab u ha hb => hab ?_)
  obtain ⟨_, -, rfl⟩ := List.mem_map.1 ha
  obtain ⟨_, -, he⟩ := List.mem_map.1 hb
  exact congrArg Use.node he.symm

theorem getD_foldl_modify (j : Nat) : ∀ (pairs : List (ValueId × Use)) (table : Array (List Use)), j < table.size →
    (pairs.foldl (fun t p => t.modify p.1.index (p.2 :: ·)) table).getD j []
      = ((pairs.filter (fun p => p.1.index = j)).map Prod.snd).reverse ++ table.getD j []
  | [], _, _ => by simp
  | p :: pairs, table, hj => by
    rw [List.foldl_cons, getD_foldl_modify j pairs _ (by simpa using hj)]
    simp only [Array.getD_eq_getD_getElem?, Array.getElem?_modify]
    by_cases hp : p.1.index = j
    · simp [hp, hj]
    · simp [hp]

theorem readTable_eq (g : Graph) :
    g.readTable = g.readings.foldl (fun t p => t.modify p.1.index (p.2 :: ·)) (Array.replicate g.valueSlots []) := by
  unfold readTable readings
  rw [List.foldl_flatMap]
  simp only [List.foldl_map]

theorem getD_readTable {g : Graph} {v : ValueId} (hv : v.index < g.valueSlots) :
    g.readTable.getD v.index [] = ((g.readings.filter (fun p => p.1.index = v.index)).map Prod.snd).reverse := by
  rw [readTable_eq, getD_foldl_modify _ _ _ (by simpa using hv)]
  simp [Array.getD_eq_getD_getElem?, hv]

theorem uses_perm_readTable {g : Graph} (h : g.WellFormed) {v : ValueId} {val : Value} (hv : g.value? v = some val) :
    val.uses.Perm (g.readTable.getD v.index []) := by
  rw [getD_readTable (value?_lt hv)]
  refine (List.perm_ext_iff_of_nodup (h.uses_nodup hv) ?_).2 (fun u => ?_)
  · exact List.nodup_reverse.2 ((List.Sublist.map _ List.filter_sublist).nodup g.readings_uses_nodup)
  · rw [h.mem_uses hv, List.mem_reverse, ← mem_readings]
    constructor
    · exact fun hu => List.mem_map.2 ⟨(v, u), List.mem_filter.2 ⟨hu, by simp⟩, rfl⟩
    · intro hu
      obtain ⟨⟨w, u⟩, hw, rfl⟩ := List.mem_map.1 hu
      obtain ⟨hw, hwv⟩ := List.mem_filter.1 hw
      have hwv : w = v := ValueId.ext (by simpa using hwv)
      exact hwv ▸ hw

/-! ## The checks -/

theorem missingInput?_eq_none {g : Graph} (h : g.WellFormed) {id : NodeId} (hid : id ∈ g.nodeIds) :
    g.missingInput? id = none := by
  obtain ⟨n, hn⟩ := Option.isSome_iff_exists.1 (mem_nodeIds.1 hid)
  unfold missingInput?
  rw [List.findSome?_eq_none_iff]
  rintro ⟨v, i⟩ hvi
  have hv : v ∈ n.inputs := by
    have := List.mk_mem_zipIdx_iff_getElem?.1 hvi
    rw [inputsOf, hn] at this
    exact List.mem_of_getElem? this
  have := h.input_live hn hv
  simp [Option.isSome_iff_ne_none.1 this]

theorem valueFault?_eq_none {g : Graph} (h : g.WellFormed) (v : ValueId) : g.valueFault? g.readTable v = none := by
  unfold valueFault?
  cases hv : g.value? v with
  | none => rfl
  | some val =>
    obtain ⟨n, hn, hout⟩ := h.produced hv
    have hproduced : g.isProduced v val = true := by simp [isProduced, hn, hout]
    have hperm : val.uses.isPerm (g.readTable.getD v.index []) = true := List.isPerm_iff.2 (uses_perm_readTable h hv)
    simp only [hproduced, hperm, Bool.not_true, Bool.false_eq_true, if_false, if_true]

/-- **A well-formed graph passes every check.** -/
theorem verify_eq_ok {g : Graph} (h : g.WellFormed) : g.verify = .ok () := by
  have hnodes : g.nodeIds.findSome? g.missingInput? = none :=
    List.findSome?_eq_none_iff.2 (fun _ hid => missingInput?_eq_none h hid)
  have hvalues : g.valueIds.findSome? (g.valueFault? g.readTable) = none :=
    List.findSome?_eq_none_iff.2 (fun v _ => valueFault?_eq_none h v)
  have hends : (g.results ++ g.parameters).findSome? (fun id =>
      if (g.value? id).isNone then some (GraphError.missingProducer id) else none) = none := by
    refine List.findSome?_eq_none_iff.2 (fun v hv => ?_)
    have hlive : (g.value? v).isSome = true := by
      rcases List.mem_append.1 hv with hv | hv
      · exact h.result_live v hv
      · exact h.parameter_live v hv
    simp [Option.isSome_iff_ne_none.1 hlive]
  have hfault : g.fault? = none := by
    unfold fault?
    simp only [hnodes, hvalues, hends]
    rfl
  unfold verify
  rw [hfault, dependencyOrder_eq h]
  rfl

end Graph
end TensorGraph
