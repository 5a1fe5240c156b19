import TensorGraph.Graph.Insert
import TensorGraph.Proofs.Graph.WellFormed
/-!
# What adding a node changes

A new node and its outputs take the next slots.  Of what was there before, only the uses of
the inputs change: each gets the new input positions at its end.  So a graph stays well formed
if the inputs of the new node are values.
-/
namespace TensorGraph
namespace Graph

/-! ## Entering uses -/

/-- The input positions of a new node that read the value, in order. -/
def newUses (id : NodeId) (inputs : List ValueId) (v : ValueId) : List Use :=
  ((inputUses id inputs).filter (fun p => p.1 = v)).map Prod.snd

theorem mem_newUses {id : NodeId} {inputs : List ValueId} {v : ValueId} {u : Use} :
    u ∈ newUses id inputs v ↔ u.node = id ∧ inputs[u.input]? = some v := by
  simp only [newUses, inputUses, List.mem_map, List.mem_filter, List.mem_mapIdx]
  constructor
  · rintro ⟨_, ⟨⟨i, hi, rfl⟩, hv⟩, rfl⟩
    have hv : inputs[i] = v := by simpa using hv
    exact ⟨rfl, by rw [List.getElem?_eq_getElem hi, hv]⟩
  · rintro ⟨rfl, hv⟩
    obtain ⟨hi, hv⟩ := List.getElem?_eq_some_iff.1 hv
    exact ⟨(v, u), ⟨⟨u.input, hi, by rw [hv]⟩, by simp⟩, rfl⟩

theorem newUses_nodup (id : NodeId) (inputs : List ValueId) (v : ValueId) : (newUses id inputs v).Nodup := by
  have hall : ((inputUses id inputs).map Prod.snd).Nodup := by
    unfold inputUses
    rw [List.mapIdx_eq_zipIdx_map, List.map_map]
    have : (Prod.snd ∘ fun p : ValueId × Nat => (p.1, (⟨id, p.2⟩ : Use))) = Use.mk id ∘ Prod.snd := rfl
    rw [this, ← List.map_map, List.zipIdx_map_snd, ← List.range_eq_range']
    exact List.nodup_range.map (fun _ _ he => congrArg Use.input he)
  exact (List.Sublist.map _ List.filter_sublist).nodup hall

theorem sameFrame_addUse (g : Graph) (v : ValueId) (u : Use) : SameFrame g (g.addUse v u) :=
  SameFrame.modifyValue g v _

theorem node?_foldl_addUse (id : NodeId) : ∀ (pairs : List (ValueId × Use)) (g : Graph),
    (pairs.foldl (fun g p => g.addUse p.1 p.2) g).node? id = g.node? id
  | [], _ => rfl
  | p :: pairs, g => by
    rw [List.foldl_cons, node?_foldl_addUse id pairs]
    rfl

theorem value?_foldl_addUse (v : ValueId) : ∀ (pairs : List (ValueId × Use)) (g : Graph),
    (pairs.foldl (fun g p => g.addUse p.1 p.2) g).value? v = (g.value? v).map
      (fun val => { val with uses := val.uses ++ (pairs.filter (fun p => p.1 = v)).map Prod.snd })
  | [], g => by
    rw [List.foldl_nil]
    cases hv : g.value? v <;> simp
  | p :: pairs, g => by
    rw [List.foldl_cons, value?_foldl_addUse v pairs, addUse, value?_modifyValue]
    by_cases hp : p.1 = v
    · cases g.value? v <;> simp [hp]
    · simp [hp]

/-! ## The graph with a new node -/

section Append

variable (g : Graph) (name : Option String) (op : Op) (inputs : List ValueId) (types : List TensorType)

/-- The new node and its outputs, before its uses are entered. -/
def grow : Graph :=
  { g with
    nodes := g.nodes.push (some ⟨name, op, inputs, g.freshValues types.length⟩)
    values := g.values ++ types.mapIdx (fun i type => some (⟨⟨g.nodeSlots⟩, i, type, []⟩ : Value)) }

theorem appendNode_eq : g.appendNode name op inputs types =
    (inputUses ⟨g.nodeSlots⟩ inputs).foldl (fun g p => g.addUse p.1 p.2) (g.grow name op inputs types) := rfl

theorem sameFrame_appendNode : SameFrame (g.grow name op inputs types) (g.appendNode name op inputs types) :=
  SameFrame.foldl (fun g (p : ValueId × Use) => g.sameFrame_addUse p.1 p.2) _ _

theorem values_grow : (g.grow name op inputs types).values =
    g.values ++ (types.mapIdx (fun i type => some (⟨⟨g.nodeSlots⟩, i, type, []⟩ : Value))).toArray :=
  Array.ext' (by simp [grow])

theorem node?_appendNode (id : NodeId) : (g.appendNode name op inputs types).node? id =
    if id.index = g.nodeSlots then some ⟨name, op, inputs, g.freshValues types.length⟩ else g.node? id := by
  rw [appendNode_eq, node?_foldl_addUse]
  have hget : (g.grow name op inputs types).nodes[id.index]? = if id.index = g.nodeSlots
      then some (some ⟨name, op, inputs, g.freshValues types.length⟩) else g.nodes[id.index]? := Array.getElem?_push
  rw [node?, hget]
  split
  · rfl
  · rfl

theorem value?_appendNode_old {v : ValueId} (hv : v.index < g.valueSlots) :
    (g.appendNode name op inputs types).value? v =
      (g.value? v).map (fun val => { val with uses := val.uses ++ newUses ⟨g.nodeSlots⟩ inputs v }) := by
  rw [appendNode_eq, value?_foldl_addUse]
  have : (g.grow name op inputs types).value? v = g.value? v := by
    simp only [value?, values_grow]
    rw [Array.getElem?_append_left hv]
  rw [this]
  rfl

theorem value?_appendNode_new (i : Nat) : (g.appendNode name op inputs types).value? ⟨g.valueSlots + i⟩ =
    (types[i]?).map (fun type => ⟨⟨g.nodeSlots⟩, i, type, newUses ⟨g.nodeSlots⟩ inputs ⟨g.valueSlots + i⟩⟩) := by
  rw [appendNode_eq, value?_foldl_addUse]
  have : (g.grow name op inputs types).value? ⟨g.valueSlots + i⟩ =
      (types[i]?).map (fun type => ⟨⟨g.nodeSlots⟩, i, type, []⟩) := by
    simp only [value?, values_grow]
    rw [Array.getElem?_append_right (show g.values.size ≤ g.valueSlots + i from Nat.le_add_right _ _),
      show g.valueSlots + i - g.values.size = i from Nat.add_sub_cancel_left _ _, List.getElem?_toArray,
      List.getElem?_mapIdx]
    cases types[i]? <;> rfl
  rw [this]
  cases types[i]? <;> simp [newUses]

theorem nodeSlots_appendNode : (g.appendNode name op inputs types).nodeSlots = g.nodeSlots + 1 := by
  rw [(g.sameFrame_appendNode name op inputs types).nodeSlots]
  simp [nodeSlots, grow]

theorem valueSlots_appendNode : (g.appendNode name op inputs types).valueSlots = g.valueSlots + types.length := by
  rw [(g.sameFrame_appendNode name op inputs types).valueSlots, valueSlots, values_grow]
  simp [valueSlots]

theorem name_appendNode : (g.appendNode name op inputs types).name = g.name :=
  (g.sameFrame_appendNode name op inputs types).name

theorem registry_appendNode : (g.appendNode name op inputs types).registry = g.registry :=
  (g.sameFrame_appendNode name op inputs types).registry

theorem parameters_appendNode : (g.appendNode name op inputs types).parameters = g.parameters :=
  (g.sameFrame_appendNode name op inputs types).parameters

theorem results_appendNode : (g.appendNode name op inputs types).results = g.results :=
  (g.sameFrame_appendNode name op inputs types).results

theorem value?_appendNode_cases {v : ValueId} {val : Value}
    (hv : (g.appendNode name op inputs types).value? v = some val) :
    (∃ old, g.value? v = some old ∧ val = { old with uses := old.uses ++ newUses ⟨g.nodeSlots⟩ inputs v }) ∨
    (∃ i type, v = ⟨g.valueSlots + i⟩ ∧ types[i]? = some type ∧
      val = ⟨⟨g.nodeSlots⟩, i, type, newUses ⟨g.nodeSlots⟩ inputs v⟩) := by
  by_cases hlt : v.index < g.valueSlots
  · rw [value?_appendNode_old g name op inputs types hlt] at hv
    obtain ⟨old, hold, rfl⟩ := Option.map_eq_some_iff.1 hv
    exact Or.inl ⟨old, hold, rfl⟩
  · obtain ⟨i, hi⟩ := Nat.exists_eq_add_of_le (Nat.le_of_not_lt hlt)
    obtain rfl : v = ⟨g.valueSlots + i⟩ := ValueId.ext hi
    rw [value?_appendNode_new] at hv
    obtain ⟨type, htype, rfl⟩ := Option.map_eq_some_iff.1 hv
    exact Or.inr ⟨i, type, rfl, htype, rfl⟩

end Append

/-! ## Well-formedness -/

theorem getElem?_freshValues (g : Graph) (count i : Nat) :
    (g.freshValues count)[i]? = if i < count then some ⟨g.valueSlots + i⟩ else none := by
  unfold freshValues
  rw [List.getElem?_map]
  by_cases hi : i < count <;> simp [hi]

section WellFormed

variable {g : Graph} {name : Option String} {op : Op} {inputs : List ValueId} {types : List TensorType}

theorem value?_appendNode_isSome {v : ValueId} (hv : (g.value? v).isSome = true) :
    ((g.appendNode name op inputs types).value? v).isSome = true := by
  obtain ⟨val, hval⟩ := Option.isSome_iff_exists.1 hv
  rw [value?_appendNode_old g name op inputs types (value?_lt hval), hval]
  rfl

theorem node?_appendNode_old {id : NodeId} {n : Node} (hn : g.node? id = some n) :
    (g.appendNode name op inputs types).node? id = some n := by
  rw [node?_appendNode, if_neg (Nat.ne_of_lt (node?_lt hn)), hn]

theorem node?_appendNode_cases {id : NodeId} {n : Node} (hn : (g.appendNode name op inputs types).node? id = some n) :
    (id = ⟨g.nodeSlots⟩ ∧ n = ⟨name, op, inputs, g.freshValues types.length⟩) ∨ g.node? id = some n := by
  rw [node?_appendNode] at hn
  split at hn
  · rename_i hid
    exact Or.inl ⟨NodeId.ext hid, (Option.some.inj hn).symm⟩
  · exact Or.inr hn

theorem reads_appendNode_iff {u : Use} {v : ValueId} : (g.appendNode name op inputs types).Reads u v ↔
    g.Reads u v ∨ (u.node = ⟨g.nodeSlots⟩ ∧ inputs[u.input]? = some v) := by
  constructor
  · rintro ⟨n, hn, hv⟩
    rcases node?_appendNode_cases hn with ⟨hid, rfl⟩ | hn
    · exact Or.inr ⟨hid, hv⟩
    · exact Or.inl ⟨n, hn, hv⟩
  · rintro (⟨n, hn, hv⟩ | ⟨hid, hv⟩)
    · exact ⟨n, node?_appendNode_old hn, hv⟩
    · exact ⟨_, by rw [node?_appendNode, hid, if_pos rfl], hv⟩

theorem Reads.lt_nodeSlots {u : Use} {v : ValueId} (h : g.Reads u v) : u.node.index < g.nodeSlots := by
  obtain ⟨n, hn, -⟩ := h
  exact node?_lt hn

/-- The new node depends on old ones, and old ones depend on what they did. -/
theorem dependsOn_appendNode (hin : ∀ v ∈ inputs, (g.value? v).isSome = true) (hg : g.WellFormed) {a b : NodeId}
    (hab : (g.appendNode name op inputs types).DependsOn a b) :
    b.index < g.nodeSlots ∧ (g.DependsOn a b ∨ a = ⟨g.nodeSlots⟩) := by
  obtain ⟨n, v, val, hn, hv, hval, rfl⟩ := dependsOn_iff.1 hab
  have hlive : (g.value? v).isSome = true := by
    rcases node?_appendNode_cases hn with ⟨-, rfl⟩ | hn
    · exact hin v hv
    · exact hg.input_live hn hv
  obtain ⟨old, hold⟩ := Option.isSome_iff_exists.1 hlive
  rw [value?_appendNode_old g name op inputs types (value?_lt hold), hold] at hval
  obtain rfl := (Option.some.inj hval).symm
  obtain ⟨p, hp, -⟩ := hg.produced hold
  refine ⟨node?_lt hp, ?_⟩
  rcases node?_appendNode_cases hn with ⟨hid, -⟩ | hn
  · exact Or.inr hid
  · exact Or.inl (dependsOn_iff.2 ⟨n, v, old, hn, hv, hold, rfl⟩)

theorem uses_nodup_appendNode (hg : g.WellFormed) {v : ValueId} {val : Value}
    (hv : (g.appendNode name op inputs types).value? v = some val) : val.uses.Nodup := by
  rcases value?_appendNode_cases g name op inputs types hv with ⟨old, hold, rfl⟩ | ⟨i, type, rfl, -, rfl⟩
  · refine List.nodup_append.2 ⟨hg.uses_nodup hold, newUses_nodup _ _ _, fun a ha b hb hab => ?_⟩
    have hlt := ((hg.mem_uses hold a).1 ha).lt_nodeSlots
    rw [hab, (mem_newUses.1 hb).1] at hlt
    exact Nat.lt_irrefl _ hlt
  · exact newUses_nodup _ _ _

theorem mem_uses_appendNode (hg : g.WellFormed) {v : ValueId} {val : Value}
    (hv : (g.appendNode name op inputs types).value? v = some val) (u : Use) :
    u ∈ val.uses ↔ (g.appendNode name op inputs types).Reads u v := by
  rw [reads_appendNode_iff]
  rcases value?_appendNode_cases g name op inputs types hv with ⟨old, hold, rfl⟩ | ⟨i, type, rfl, -, rfl⟩
  · rw [List.mem_append, hg.mem_uses hold, mem_newUses]
  · -- nobody can have read a value that was not there
    have hunread : ¬ g.Reads u ⟨g.valueSlots + i⟩ := fun hu => by
      obtain ⟨val, hval⟩ := Option.isSome_iff_exists.1 (hg.live_of_reads hu)
      have := value?_lt hval
      simp only at this
      omega
    rw [mem_newUses, or_iff_right hunread]

theorem acyclic_appendNode (hg : g.WellFormed) (hin : ∀ v ∈ inputs, (g.value? v).isSome = true) :
    (g.appendNode name op inputs types).Acyclic := by
  refine acyclic_of_wellFounded ⟨fun a => ?_⟩
  have hold : ∀ a : NodeId, a.index < g.nodeSlots →
      Acc (fun b a => (g.appendNode name op inputs types).DependsOn a b) a := fun a => by
    induction a using hg.acyclic.wellFounded.induction with
    | _ a ih =>
      refine fun ha => ⟨_, fun b hab => ?_⟩
      obtain ⟨hb, hab | rfl⟩ := dependsOn_appendNode hin hg hab
      · exact ih b hab hb
      · exact absurd ha (Nat.lt_irrefl _)
  exact ⟨_, fun b hab => hold b (dependsOn_appendNode hin hg hab).1⟩

/-- **A graph stays well formed when a node is added that reads values of the graph.** -/
theorem wellFormed_appendNode (hg : g.WellFormed) (hin : ∀ v ∈ inputs, (g.value? v).isSome = true) :
    (g.appendNode name op inputs types).WellFormed where
  input_live {id n v} hn hv := by
    rcases node?_appendNode_cases hn with ⟨-, rfl⟩ | hn
    · exact value?_appendNode_isSome (hin v hv)
    · exact value?_appendNode_isSome (hg.input_live hn hv)
  produced {v val} hv := by
    rcases value?_appendNode_cases g name op inputs types hv with ⟨old, hold, rfl⟩ | ⟨i, type, rfl, htype, rfl⟩
    · obtain ⟨n, hn, hout⟩ := hg.produced hold
      exact ⟨n, node?_appendNode_old hn, hout⟩
    · refine ⟨_, by rw [node?_appendNode, if_pos rfl], ?_⟩
      rw [getElem?_freshValues, if_pos (List.getElem?_eq_some_iff.1 htype).1]
  output_live {id n i v} hn hout := by
    rcases node?_appendNode_cases hn with ⟨rfl, rfl⟩ | hn
    · rw [getElem?_freshValues] at hout
      split at hout
      · rename_i hi
        obtain rfl := Option.some.inj hout
        rw [value?_appendNode_new, List.getElem?_eq_getElem hi]
        exact ⟨_, rfl, rfl, rfl⟩
      · cases hout
    · obtain ⟨val, hval, hp, hidx⟩ := hg.output_live hn hout
      rw [value?_appendNode_old g name op inputs types (value?_lt hval), hval]
      exact ⟨_, rfl, hp, hidx⟩
  uses_nodup hv := uses_nodup_appendNode hg hv
  mem_uses hv u := mem_uses_appendNode hg hv u
  result_live v hv := by
    rw [results_appendNode] at hv
    exact value?_appendNode_isSome (hg.result_live v hv)
  parameter_live v hv := by
    rw [parameters_appendNode] at hv
    exact value?_appendNode_isSome (hg.parameter_live v hv)
  acyclic := acyclic_appendNode hg hin

end WellFormed

/-! ## Insertion -/

/-- **The types of the inputs are looked up one by one.** -/
theorem inputTypes_eq_ok_iff {type? : ValueId → Option TensorType} : ∀ {inputs : List ValueId} {index : Nat}
    {types : List TensorType}, inputTypes type? index inputs = .ok types ↔ inputs.map type? = types.map some
  | [], _, types => by
    cases types <;> simp [inputTypes]
  | v :: inputs, index, types => by
    rw [inputTypes, List.map_cons]
    cases hv : type? v with
    | none => cases types <;> simp
    | some type =>
      simp only
      cases hrest : inputTypes type? (index + 1) inputs with
      | error e =>
        have hne : ∀ ts : List TensorType, inputs.map type? ≠ ts.map some := fun ts hts => by
          rw [inputTypes_eq_ok_iff.2 hts] at hrest
          cases hrest
        cases types with
        | nil => simp [bind, Except.bind]
        | cons t ts => simpa [bind, Except.bind] using fun _ => hne ts
      | ok ts =>
        rw [inputTypes_eq_ok_iff] at hrest
        cases types with
        | nil => simp [bind, Except.bind, pure, Except.pure]
        | cons t ts' =>
          simp only [bind, Except.bind, pure, Except.pure, Except.ok.injEq, List.cons.injEq, hrest, List.map_cons,
            Option.some.injEq]
          exact and_congr_right (fun _ =>
            (List.map_injective_iff.2 (Option.some_injective TensorType)).eq_iff.symm)

/-- An operation whose output types can be inferred reads values of the graph. -/
theorem inputs_live_of_inferOutputs {g : Graph} {op : Op} {inputs : List ValueId} {types : List TensorType}
    (h : g.inferOutputs op inputs = .ok types) : ∀ v ∈ inputs, (g.value? v).isSome = true := by
  rw [inferOutputs_eq] at h
  cases hin : inputTypes g.type? 0 inputs with
  | error e =>
    rw [hin] at h
    cases h
  | ok ins =>
    intro v hv
    have hmem : g.type? v ∈ ins.map some := inputTypes_eq_ok_iff.1 hin ▸ List.mem_map_of_mem hv
    obtain ⟨t, -, ht⟩ := List.mem_map.1 hmem
    cases hval : g.value? v with
    | none =>
      rw [type?, hval] at ht
      cases ht
    | some val => rfl

/-- An operation whose output types can be inferred has as many inputs as it takes. -/
theorem length_accepted_of_inferOutputs {g : Graph} {op : Op} {inputs : List ValueId} {types : List TensorType}
    (h : g.inferOutputs op inputs = .ok types) : op.type.arity.accepts inputs.length = true := by
  rw [inferOutputs_eq] at h
  cases hin : inputTypes g.type? 0 inputs with
  | error e =>
    rw [hin] at h
    cases h
  | ok ins =>
    rw [hin] at h
    have hlen : inputs.length = ins.length := by
      simpa using congrArg List.length (inputTypes_eq_ok_iff.1 hin)
    have hvalid : op.validate ins (inputs.map g.knownValue?) = .ok types := h
    unfold Op.validate at hvalid
    split at hvalid
    · rename_i haccepts
      rw [hlen]
      exact haccepts
    · cases hvalid

/-- **A node that was added**: its operation is registered, its types were inferred, and it took the next slots. -/
theorem insert_eq_ok {g h : Graph} {name : Option String} {op : Op} {inputs : List ValueId} {id : NodeId} {v : ValueId}
    (hins : g.insert name op inputs = .ok (id, v, h)) :
    ∃ types, g.registry.contains op.type = true ∧ g.inferOutputs op inputs = .ok types ∧ types ≠ [] ∧
      id = ⟨g.nodeSlots⟩ ∧ v = ⟨g.valueSlots⟩ ∧ h = g.appendNode name op inputs types := by
  unfold insert at hins
  split at hins
  · cases hins
  rename_i hreg
  split at hins
  · cases hins
  · cases hins
  rename_i types hne hinf
  simp only [Except.ok.injEq, Prod.mk.injEq] at hins
  obtain ⟨rfl, rfl, rfl⟩ := hins
  exact ⟨types, by simpa using hreg, hinf, fun hnil => hne hnil, rfl, rfl, rfl⟩

theorem wellFormed_insert {g h : Graph} {name : Option String} {op : Op} {inputs : List ValueId} {id : NodeId}
    {v : ValueId} (hg : g.WellFormed) (hins : g.insert name op inputs = .ok (id, v, h)) : h.WellFormed := by
  obtain ⟨types, -, hinf, -, -, -, rfl⟩ := insert_eq_ok hins
  exact wellFormed_appendNode hg (inputs_live_of_inferOutputs hinf)

end Graph
end TensorGraph
