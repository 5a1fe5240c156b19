import TensorGraph.Proofs.Graph.Growth
import TensorGraph.Proofs.Graph.Remove
/-!
# Typing — cached types that are up to date

A node is typed if its operation, asked again, answers with the types that are cached for its
outputs.  The question depends on the types of the inputs, on the nodes that produce them and,
where such a node is a shape, on the type of what it reads.  So a node stays typed if those stay
as they are.
-/
namespace TensorGraph
namespace Graph

/-- Its operation infers the types that are cached for its outputs. -/
def Typed (g : Graph) (n : Node) : Prop :=
  ∃ types, g.inferOutputs n.op n.inputs = .ok types ∧ n.outputs.map g.type? = types.map some

/-- **A well-formed graph whose cached types are up to date.** -/
structure TypeConsistent (g : Graph) : Prop where
  wellFormed : g.WellFormed
  typed : ∀ {id : NodeId} {n : Node}, g.node? id = some n → g.Typed n

/-! ## What inference looks at -/

theorem inputTypes_congr {types types' : ValueId → Option TensorType} : ∀ (inputs : List ValueId) (index : Nat),
    (∀ v ∈ inputs, types' v = types v) → inputTypes types' index inputs = inputTypes types index inputs
  | [], _, _ => rfl
  | v :: inputs, index, hv => by
    rw [inputTypes, inputTypes, hv v List.mem_cons_self,
      inputTypes_congr inputs (index + 1) (fun w hw => hv w (List.mem_cons_of_mem v hw))]

theorem inferOutputsUnder_congr {g h : Graph} {types types' : ValueId → Option TensorType} (op : Op)
    {inputs : List ValueId} (htype : ∀ v ∈ inputs, types' v = types v)
    (hknown : ∀ v ∈ inputs, h.knownValueUnder? types' v = g.knownValueUnder? types v) :
    h.inferOutputsUnder types' op inputs = g.inferOutputsUnder types op inputs := by
  unfold inferOutputsUnder
  rw [inputTypes_congr inputs 0 htype, List.map_congr_left hknown]

theorem inferOutputs_congr {g h : Graph} (op : Op) {inputs : List ValueId}
    (htype : ∀ v ∈ inputs, h.type? v = g.type? v) (hknown : ∀ v ∈ inputs, h.knownValue? v = g.knownValue? v) :
    h.inferOutputs op inputs = g.inferOutputs op inputs :=
  inferOutputsUnder_congr op htype hknown

/-- A known value depends on the producer and, if that is a shape, on the type of what it reads. -/
theorem knownValueUnder?_congr {g h : Graph} {types types' : ValueId → Option TensorType} {v : ValueId}
    (hprod : h.producer? v = g.producer? v) (hshape : ∀ p input rest output, g.producer? v = some p →
      p.op = .shapeOf output → p.inputs = input :: rest → types' input = types input) :
    h.knownValueUnder? types' v = g.knownValueUnder? types v := by
  unfold knownValueUnder?
  rw [hprod]
  cases hp : g.producer? v with
  | none => rfl
  | some p =>
    simp only
    split
    · rfl
    · rename_i output input rest hop hin
      rw [hshape p input rest output hp hop hin]
    · rfl

theorem knownValue?_congr {g h : Graph} {v : ValueId} (hprod : h.producer? v = g.producer? v)
    (hshape : ∀ p input rest output, g.producer? v = some p → p.op = .shapeOf output → p.inputs = input :: rest →
      h.type? input = g.type? input) : h.knownValue? v = g.knownValue? v :=
  knownValueUnder?_congr hprod hshape

/-- The types of its outputs are inferred from those of its inputs, if values have the types that are told. -/
def TypedUnder (g : Graph) (types : ValueId → Option TensorType) (n : Node) : Prop :=
  ∃ outs, g.inferOutputsUnder types n.op n.inputs = .ok outs ∧ n.outputs.map types = outs.map some

theorem TypedUnder.congr {g h : Graph} {types types' : ValueId → Option TensorType} {n : Node} (hn : g.TypedUnder types n)
    (htype : ∀ v ∈ n.inputs, types' v = types v)
    (hknown : ∀ v ∈ n.inputs, h.knownValueUnder? types' v = g.knownValueUnder? types v)
    (hout : ∀ v ∈ n.outputs, types' v = types v) : h.TypedUnder types' n := by
  obtain ⟨outs, hinf, hcached⟩ := hn
  refine ⟨outs, ?_, ?_⟩
  · rw [inferOutputsUnder_congr n.op htype hknown, hinf]
  · rw [List.map_congr_left hout, hcached]

theorem Typed.congr {g h : Graph} {n : Node} (hn : g.Typed n) (htype : ∀ v ∈ n.inputs, h.type? v = g.type? v)
    (hknown : ∀ v ∈ n.inputs, h.knownValue? v = g.knownValue? v) (hout : ∀ v ∈ n.outputs, h.type? v = g.type? v) :
    h.Typed n :=
  TypedUnder.congr hn htype hknown hout

theorem producer?_eq_some {g : Graph} {v : ValueId} {p : Node} (h : g.producer? v = some p) :
    ∃ val, g.value? v = some val ∧ g.node? val.producer = some p := by
  obtain ⟨id, hid, hp⟩ := Option.bind_eq_some_iff.1 h
  obtain ⟨val, hval, rfl⟩ := Option.map_eq_some_iff.1 hid
  exact ⟨val, hval, hp⟩

theorem producer?_eq {g : Graph} {v : ValueId} {val : Value} (hv : g.value? v = some val) :
    g.producer? v = g.node? val.producer := by
  rw [producer?, producerId?_eq_some hv, Option.bind_some]

/-- **A node stays typed if the values that are read keep their types and producers.** -/
theorem Typed.of_reads {g h : Graph} {id : NodeId} {n : Node} (hnode : g.node? id = some n) (hn : g.Typed n)
    (hread : ∀ u w, g.Reads u w → h.type? w = g.type? w ∧ h.producer? w = g.producer? w)
    (hout : ∀ v ∈ n.outputs, h.type? v = g.type? v) : h.Typed n := by
  have hin : ∀ v ∈ n.inputs, h.type? v = g.type? v ∧ h.producer? v = g.producer? v := fun v hv => by
    obtain ⟨i, hreads⟩ := reads_of_mem_inputs hnode hv
    exact hread ⟨id, i⟩ v hreads
  refine hn.congr (fun v hv => (hin v hv).1) (fun v hv => knownValue?_congr (hin v hv).2 ?_) hout
  intro p input rest output hp _ hinputs
  obtain ⟨val, -, hnode'⟩ := producer?_eq_some hp
  exact (hread ⟨val.producer, 0⟩ input ⟨p, hnode', by rw [hinputs]; rfl⟩).1

theorem TypeConsistent.of_lookups {g h : Graph} (hg : g.TypeConsistent) (hh : h.WellFormed)
    (hnode : ∀ id, h.node? id = g.node? id) (hvalue : ∀ v, h.value? v = g.value? v) : h.TypeConsistent := by
  refine ⟨hh, fun {id n} hn => ?_⟩
  rw [hnode] at hn
  have htype : ∀ v, h.type? v = g.type? v := fun v => by rw [type?, type?, hvalue]
  refine (hg.typed hn).of_reads hn (fun _ v _ => ⟨htype v, ?_⟩) (fun v _ => htype v)
  rw [producer?, producer?, producerId?, producerId?, hvalue]
  exact congrArg (Option.bind _) (funext hnode)

/-! ## Operations that keep types up to date -/

section

variable {g h : Graph}

theorem type?_appendNode_old (name : Option String) (op : Op) (inputs : List ValueId) (types : List TensorType)
    {v : ValueId} (hv : (g.value? v).isSome = true) : (g.appendNode name op inputs types).type? v = g.type? v := by
  obtain ⟨val, hval⟩ := Option.isSome_iff_exists.1 hv
  rw [type?, type?, value?_appendNode_old g name op inputs types (value?_lt hval), Option.map_map]
  rfl

theorem producer?_appendNode_old (hg : g.WellFormed) (name : Option String) (op : Op) (inputs : List ValueId)
    (types : List TensorType) {v : ValueId} (hv : (g.value? v).isSome = true) :
    (g.appendNode name op inputs types).producer? v = g.producer? v := by
  obtain ⟨val, hval⟩ := Option.isSome_iff_exists.1 hv
  obtain ⟨p, hp, -⟩ := hg.produced hval
  have hnew := value?_appendNode_old g name op inputs types (value?_lt hval)
  rw [hval, Option.map_some] at hnew
  rw [producer?_eq hnew, producer?_eq hval, hp]
  exact node?_appendNode_old hp

theorem map_type?_freshValues (g : Graph) (name : Option String) (op : Op) (inputs : List ValueId)
    (types : List TensorType) :
    (g.freshValues types.length).map (g.appendNode name op inputs types).type? = types.map some := by
  refine List.ext_getElem? (fun i => ?_)
  rw [List.getElem?_map, getElem?_freshValues, List.getElem?_map]
  split
  · rename_i hi
    rw [Option.map_some, type?, value?_appendNode_new, List.getElem?_eq_getElem hi]
    rfl
  · rename_i hi
    rw [List.getElem?_eq_none (Nat.le_of_not_lt hi)]
    rfl

/-- **Adding a node keeps the types up to date.** -/
theorem typeConsistent_insert (hg : g.TypeConsistent) {name : Option String} {op : Op} {inputs : List ValueId}
    {id : NodeId} {v : ValueId} (hins : g.insert name op inputs = .ok (id, v, h)) : h.TypeConsistent := by
  refine ⟨wellFormed_insert hg.wellFormed hins, fun {j n} hn => ?_⟩
  obtain ⟨types, -, hinf, -, -, -, rfl⟩ := insert_eq_ok hins
  have hread : ∀ u w, g.Reads u w → (g.appendNode name op inputs types).type? w = g.type? w ∧
      (g.appendNode name op inputs types).producer? w = g.producer? w := fun u w hu =>
    ⟨type?_appendNode_old name op inputs types (hg.wellFormed.live_of_reads hu),
      producer?_appendNode_old hg.wellFormed name op inputs types (hg.wellFormed.live_of_reads hu)⟩
  rcases node?_appendNode_cases hn with ⟨-, rfl⟩ | hold
  · refine ⟨types, ?_, map_type?_freshValues g name op inputs types⟩
    have hlive := inputs_live_of_inferOutputs hinf
    rw [← hinf]
    refine inferOutputs_congr op (fun v hv => type?_appendNode_old name op inputs types (hlive v hv))
      (fun v hv => knownValue?_congr
        (producer?_appendNode_old hg.wellFormed name op inputs types (hlive v hv)) ?_)
    intro p input rest output hp _ hinputs
    obtain ⟨val, -, hnode⟩ := producer?_eq_some hp
    exact (hread ⟨val.producer, 0⟩ input ⟨p, hnode, by rw [hinputs]; rfl⟩).1
  · refine (hg.typed hold).of_reads hold hread (fun v hv => ?_)
    obtain ⟨val, hval, -⟩ := hg.wellFormed.output_live' hold hv
    exact type?_appendNode_old name op inputs types (by rw [hval]; rfl)

theorem Grown.typeConsistent (hgh : Grown g h) (hg : g.TypeConsistent) : h.TypeConsistent := by
  induction hgh with
  | refl => exact hg
  | insert _ hins ih => exact typeConsistent_insert ih hins

theorem type?_takeOut_of (hg : g.WellFormed) {id : NodeId} {n : Node} (hn : g.node? id = some n) {v : ValueId}
    (hout : v ∉ n.outputs) : (g.takeOut id n).type? v = g.type? v := by
  rw [type?, type?, value?_takeOut (hg.mem_inputs_of_use hn), if_neg hout, Option.map_map]
  rfl

theorem producer?_takeOut_of (hg : g.WellFormed) {id : NodeId} {n : Node} (hn : g.node? id = some n) {v : ValueId}
    (hout : v ∉ n.outputs) : (g.takeOut id n).producer? v = g.producer? v := by
  cases hv : g.value? v with
  | none =>
    rw [producer?, producer?, producerId?, producerId?, value?_takeOut (hg.mem_inputs_of_use hn), if_neg hout, hv]
    rfl
  | some val =>
    rw [producer?_eq hv, producer?_eq (value?_takeOut_of hg hn hv hout), node?_takeOut, if_neg]
    · rfl
    · exact fun he => hout ((hg.mem_outputs_iff hn hv).2 he.symm)

/-- **Taking out a node whose outputs are unused keeps the types up to date.** -/
theorem typeConsistent_takeOut (hg : g.TypeConsistent) {id : NodeId} {n : Node} (hn : g.node? id = some n)
    (hun : n.outputs.all g.isUnused = true) : (g.takeOut id n).TypeConsistent := by
  have hw := hg.wellFormed
  refine ⟨wellFormed_takeOut hw hn hun, fun {j m} hm => ?_⟩
  obtain ⟨hne, hm⟩ := node?_of_takeOut hm
  refine (hg.typed hm).of_reads hm (fun u w hu => ?_) (fun v hv => type?_takeOut_of hw hn (fun hmem => hne ?_))
  · have hout := not_mem_outputs_of_reads hw hun hu
    exact ⟨type?_takeOut_of hw hn hout, producer?_takeOut_of hw hn hout⟩
  · obtain ⟨val, hval, hp⟩ := hw.output_live' hm hv
    exact ((hw.mem_outputs_iff hn hval).1 hmem).symm.trans hp

theorem typeConsistent_removeDead (hg : g.TypeConsistent) (candidates : List NodeId) :
    (g.removeDead candidates).1.TypeConsistent :=
  removeDead_induct (fun _ _ _ h => typeConsistent_takeOut h) candidates hg

theorem typeConsistent_prune (hg : g.TypeConsistent) : g.prune.1.TypeConsistent :=
  prune_induct (fun _ _ _ h => typeConsistent_takeOut h) hg

end

end Graph
end TensorGraph
