import TensorGraph.Proofs.Graph.Known
/-!
# Refined — graphs that differ in how much their types say

`RefinedBy` relates two graphs with the same nodes and edges: they differ in types alone, and in what
is declared of parameters, and the types of the first relax those of the second.  So at least as much
is known of every value in the second.  A node that the second accepts the first accepts too and
claims no more of it, by the monotonicity of inference, or it misses a rank (`insert_refined`).  The
two may infer it in different ways: sizes that are known in the second may be unknown in the first.

Monotonicity has an exception, an order of unknown value that is not as long as the rank.  Where one
is met the two graphs drift apart (`orderFitsBoth_of_insert`), since a transposition never asks for a
rank.
-/
namespace TensorGraph

open TensorGraph.Graph
open TensorType (RelaxesAll)

/-- The second operation is the first, or a parameter of which it declares more. -/
inductive Op.RefinedBy : Op → Op → Prop where
  | same (op : Op) : Op.RefinedBy op op
  | parameter {t t' : TensorType} (h : t.relaxes t' = true) : Op.RefinedBy (.parameter t) (.parameter t')

theorem Op.RefinedBy.type_eq {op op' : Op} (h : op.RefinedBy op') : op'.type = op.type := by
  cases h <;> rfl

theorem Op.RefinedBy.eq_of_ne_parameter {op op' : Op} (h : op.RefinedBy op') (hop : op.type ≠ .parameter) : op' = op := by
  cases h with
  | same => rfl
  | parameter => exact absurd rfl hop

/-- The nodes differ in what is declared of a parameter, if at all. -/
structure Node.RefinedBy (n m : Node) : Prop where
  name : m.name = n.name
  op : n.op.RefinedBy m.op
  inputs : m.inputs = n.inputs
  outputs : m.outputs = n.outputs

/-- The values differ in their types, if at all. -/
structure Value.RefinedBy (x y : Value) : Prop where
  producer : y.producer = x.producer
  index : y.index = x.index
  uses : y.uses = x.uses
  type : x.type.relaxes y.type = true

namespace Graph

/-- **The second graph is the first with more said in its types.** -/
structure RefinedBy (g h : Graph) : Prop where
  registry : h.registry = g.registry
  parameters : h.parameters = g.parameters
  nodeSlots : h.nodeSlots = g.nodeSlots
  valueSlots : h.valueSlots = g.valueSlots
  node : ∀ id, Option.Rel Node.RefinedBy (g.node? id) (h.node? id)
  value : ∀ v, Option.Rel Value.RefinedBy (g.value? v) (h.value? v)

/-- Every value has a type in both graphs or in none, and its type in the first relaxes that in the second. -/
def TypesRelax (g h : Graph) : Prop := ∀ v, Option.Rel (fun t t' => t.relaxes t' = true) (g.type? v) (h.type? v)

theorem refinedBy_empty (registry : Registry) : (empty registry).RefinedBy (empty registry) :=
  ⟨rfl, rfl, rfl, rfl, fun _ => .none, fun _ => .none⟩

theorem rel_cases {α β : Type} {R : α → β → Prop} {x : Option α} {y : Option β} (h : Option.Rel R x y) :
    (x = none ∧ y = none) ∨ ∃ a b, x = some a ∧ y = some b ∧ R a b := by
  cases h with
  | none => exact Or.inl ⟨rfl, rfl⟩
  | some hab => exact Or.inr ⟨_, _, rfl, rfl, hab⟩

theorem eq_some_of_rel {α β : Type} {R : α → β → Prop} {x : Option α} {b : β} (h : Option.Rel R x (some b)) :
    ∃ a, x = some a ∧ R a b := by
  cases h with
  | some hab => exact ⟨_, rfl, hab⟩

theorem rel_map {α β γ δ : Type} {R : α → β → Prop} {S : γ → δ → Prop} {f : α → γ} {k : β → δ} {x : Option α} {y : Option β}
    (h : Option.Rel R x y) (hfk : ∀ a b, R a b → S (f a) (k b)) : Option.Rel S (x.map f) (y.map k) := by
  cases h with
  | some hab => exact .some (hfk _ _ hab)
  | none => exact .none

theorem rel_getElem? {α β : Type} {R : α → β → Prop} {as : List α} {bs : List β} (h : List.Forall₂ R as bs) (i : Nat) :
    Option.Rel R as[i]? bs[i]? := by
  induction h generalizing i with
  | nil => exact .none
  | cons hab _ ih =>
    cases i with
    | zero => exact .some hab
    | succ i => exact ih i

theorem forall₂_of_rel_getElem? {α β : Type} {R : α → β → Prop} : ∀ {as : List α} {bs : List β},
    (∀ i : Nat, Option.Rel R as[i]? bs[i]?) → List.Forall₂ R as bs
  | [], [], _ => .nil
  | [], _ :: _, h => nomatch h 0
  | _ :: _, [], h => nomatch h 0
  | a :: as, b :: bs, h => by
    obtain ⟨_, ha, hab⟩ := eq_some_of_rel (h 0)
    obtain rfl := Option.some.inj ha
    exact .cons hab (forall₂_of_rel_getElem? (fun i => h (i + 1)))

namespace RefinedBy

variable {g h : Graph}

theorem typesRelax (hgh : g.RefinedBy h) : g.TypesRelax h := fun v => rel_map (hgh.value v) (fun _ _ hxy => hxy.type)

theorem producer? (hgh : g.RefinedBy h) (v : ValueId) :
    Option.Rel Node.RefinedBy (g.producer? v) (h.producer? v) := by
  unfold Graph.producer? producerId?
  rcases rel_cases (hgh.value v) with ⟨hx, hy⟩ | ⟨x, y, hx, hy, hxy⟩
  · rw [hx, hy]
    exact .none
  · rw [hx, hy]
    simp only [Option.map_some, Option.bind_some, hxy.producer]
    exact hgh.node x.producer

/-- **What is known of a value in the first graph is known of it in the second.** -/
theorem knowsMore (hgh : g.RefinedBy h) {v : ValueId} (hv : (h.value? v).isSome = true) : g.KnowsMore v h v := by
  obtain ⟨y, hy⟩ := Option.isSome_iff_exists.1 hv
  have htype : h.type? v = some y.type := by rw [Graph.type?, hy, Option.map_some]
  obtain ⟨t, ht, hrel⟩ := eq_some_of_rel (htype ▸ hgh.typesRelax v)
  refine ⟨⟨t, y.type, ht, htype, hrel⟩, fun d hd => ?_⟩
  unfold knownValue? knownValueUnder? at hd ⊢
  rcases rel_cases (hgh.producer? v) with ⟨hn, -⟩ | ⟨n, m, hn, hm, hnm⟩
  · rw [hn] at hd
    cases hd
  · rw [hn] at hd
    rw [hm]
    dsimp only at hd ⊢
    rw [hnm.inputs]
    split at hd
    · rename_i c _ hop
      rw [hnm.op.eq_of_ne_parameter (by rw [hop]; exact OpType.noConfusion), hop]
      exact hd
    · rename_i output input rest hop hin
      rw [hnm.op.eq_of_ne_parameter (by rw [hop]; exact OpType.noConfusion), hop, hin]
      obtain ⟨s, hs, hd⟩ := Option.bind_eq_some_iff.1 hd
      rcases rel_cases (hgh.typesRelax input) with ⟨hnone, -⟩ | ⟨s', s'', hs', hs'', hrel'⟩
      · rw [hs] at hnone
        cases hnone
      · obtain rfl := Option.some.inj (hs.symm.trans hs')
        exact Option.bind_eq_some_iff.2 ⟨s'', hs'', Infer.sizesOf?_of_relaxes hrel' hd⟩
    · cases hd

/-! ## Adding a node -/

theorem appendNode (hgh : g.RefinedBy h) (name : Option String) {op op' : Op} (hop : op.RefinedBy op')
    (inputs : List ValueId) {types types' : List TensorType} (htypes : RelaxesAll types types') :
    (g.appendNode name op inputs types).RefinedBy (h.appendNode name op' inputs types') where
  registry := by rw [registry_appendNode, registry_appendNode, hgh.registry]
  parameters := by rw [parameters_appendNode, parameters_appendNode, hgh.parameters]
  nodeSlots := by rw [nodeSlots_appendNode, nodeSlots_appendNode, hgh.nodeSlots]
  valueSlots := by rw [valueSlots_appendNode, valueSlots_appendNode, hgh.valueSlots, htypes.length_eq]
  node id := by
    rw [node?_appendNode, node?_appendNode, hgh.nodeSlots]
    split
    · exact .some ⟨rfl, hop, rfl, by rw [freshValues, freshValues, hgh.valueSlots, htypes.length_eq]⟩
    · exact hgh.node id
  value v := by
    by_cases hv : v.index < g.valueSlots
    · rw [value?_appendNode_old g _ _ _ _ hv, value?_appendNode_old h _ _ _ _ (hgh.valueSlots ▸ hv), hgh.nodeSlots]
      exact rel_map (hgh.value v) (fun _ _ hxy => ⟨hxy.producer, hxy.index, by rw [hxy.uses], hxy.type⟩)
    · obtain ⟨i, hi⟩ := Nat.exists_eq_add_of_le (Nat.le_of_not_lt hv)
      obtain rfl : v = ⟨g.valueSlots + i⟩ := ValueId.ext hi
      rw [value?_appendNode_new, ← hgh.valueSlots, value?_appendNode_new, hgh.nodeSlots]
      exact rel_map (rel_getElem? htypes i) (fun _ _ htt => ⟨rfl, rfl, rfl, htt⟩)

end RefinedBy

variable {g h : Graph}

theorem insert_of_infer {name : Option String} {op : Op} {inputs : List ValueId} {types : List TensorType}
    (hreg : g.registry.contains op.type = true) (hinf : g.inferOutputs op inputs = .ok types) (hne : types ≠ []) :
    g.insert name op inputs = .ok (⟨g.nodeSlots⟩, ⟨g.valueSlots⟩, g.appendNode name op inputs types) := by
  unfold insert
  rw [if_neg (by simp [hreg]), hinf]
  cases types with
  | nil => exact absurd rfl hne
  | cons => rfl

theorem insert_of_error {name : Option String} {op : Op} {inputs : List ValueId} {e : InferError}
    (hreg : g.registry.contains op.type = true) (hinf : g.inferOutputs op inputs = .error e) :
    g.insert name op inputs = .error (.op op.type none e) := by
  unfold insert
  rw [if_neg (by simp [hreg]), hinf]

/-- The types of the same inputs in the first graph and in the second. -/
theorem RefinedBy.inputTypes (hgh : g.RefinedBy h) {inputs : List ValueId} {ts' : List TensorType}
    (hts' : inputs.map h.type? = ts'.map some) : ∃ ts, inputs.map g.type? = ts.map some ∧ RelaxesAll ts ts' := by
  induction inputs generalizing ts' with
  | nil =>
    obtain rfl := List.map_eq_nil_iff.1 hts'.symm
    exact ⟨[], rfl, .nil⟩
  | cons v inputs ih =>
    obtain ⟨t', rest', rfl, ht', hrest'⟩ := List.map_eq_cons_iff.1 hts'.symm
    obtain ⟨t, ht, hrel⟩ := eq_some_of_rel (ht'.symm ▸ hgh.typesRelax v)
    obtain ⟨rest, hrest, hrels⟩ := ih hrest'.symm
    exact ⟨t :: rest, by rw [List.map_cons, List.map_cons, ht, hrest], .cons hrel hrels⟩

theorem RefinedBy.lessKnown (hgh : g.RefinedBy h) (hh : h.TypeConsistent) {inputs : List ValueId}
    {ts ts' : List TensorType} (hts : inputs.map g.type? = ts.map some) (hts' : inputs.map h.type? = ts'.map some) :
    LessKnown ts (inputs.map g.knownValue?) ts' (inputs.map h.knownValue?) := by
  refine lessKnown_of_knowsMore hh (List.forall₂_same.2 (fun v hv => hgh.knowsMore ?_)) hts hts'
  have hmem : h.type? v ∈ ts'.map some := hts' ▸ List.mem_map_of_mem hv
  obtain ⟨t, -, ht⟩ := List.mem_map.1 hmem
  obtain ⟨y, hy, -⟩ := Option.map_eq_some_iff.1 ht.symm
  rw [hy]
  rfl

/-- The order of the operation fits, on the inputs as they are in the two graphs. -/
def OrderFitsBoth (g h : Graph) (op : Op) (inputs : List ValueId) : Prop :=
  ∀ ts ts', inputs.map g.type? = ts.map some → inputs.map h.type? = ts'.map some →
    op.OrderFits ts ts' (inputs.map h.knownValue?)

end Graph

/-- A parameter of which less is declared is accepted where the other is. -/
theorem Op.RefinedBy.claimsNoMore {op op' : Op} (hop : op.RefinedBy op') {ts ts' outs : List TensorType}
    {values values' : List (Option ConstantData)} (hless : LessKnown ts values ts' values')
    (hok : op'.validate ts' values' = .ok outs) (hfits : op.OrderFits ts ts' values') : op.ClaimsNoMore ts values outs := by
  cases hop with
  | same => exact Op.claimsNoMore_of_orderFits hless hok hfits
  | parameter hrel =>
    unfold validate at hok
    split at hok
    · rename_i haccepts
      obtain rfl := Except.ok.inj hok
      refine Or.inr ⟨[_], ?_, .cons hrel .nil⟩
      unfold validate
      rw [hless.types.length_eq]
      exact if_pos haccepts
    · cases hok

namespace Graph

variable {g h : Graph}

/-- **What the second graph accepts the first accepts too and claims no more of it**, or it misses a rank. -/
theorem insert_refined (hgh : g.RefinedBy h) (hh : h.TypeConsistent) {name : Option String} {op op' : Op}
    (hop : op.RefinedBy op') {inputs : List ValueId} {id : NodeId} {v : ValueId} {h' : Graph}
    (hins : h.insert name op' inputs = .ok (id, v, h')) (hfits : OrderFitsBoth g h op inputs) :
    (∃ axis, g.insert name op inputs = .error (.op op.type none (.dynamicRank axis))) ∨
      ∃ g', g.insert name op inputs = .ok (id, v, g') ∧ g'.RefinedBy h' := by
  obtain ⟨outs', hreg, hinf, hne, rfl, rfl, rfl⟩ := insert_eq_ok hins
  obtain ⟨ts', hts', hvalid'⟩ := bind_eq_ok.1 hinf
  rw [inputTypes_eq_ok_iff] at hts'
  obtain ⟨ts, hts, -⟩ := hgh.inputTypes hts'
  have hclaims := hop.claimsNoMore (hgh.lessKnown hh hts hts') hvalid' (hfits ts ts' hts hts')
  have hreg' : g.registry.contains op.type = true := by rw [← hop.type_eq, ← hgh.registry, hreg]
  have hinfer : g.inferOutputs op inputs = op.validate ts (inputs.map g.knownValue?) := by
    rw [inferOutputs_eq, inputTypes_eq_ok_iff.2 hts]
    rfl
  rcases hclaims with ⟨_, _, axis, -, -, -, herror⟩ | ⟨outs, hvalid, hrel⟩
  · exact Or.inl ⟨axis, insert_of_error hreg' (hinfer.trans herror)⟩
  · have hnonempty : outs ≠ [] := by
      rintro rfl
      cases hrel
      exact hne rfl
    refine Or.inr ⟨_, ?_, hgh.appendNode name hop inputs hrel⟩
    rw [insert_of_infer hreg' (hinfer.trans hvalid) hnonempty, hgh.nodeSlots, hgh.valueSlots]

theorem inferOutputs_of_dynamicRank {name : Option String} {op : Op} {inputs : List ValueId} {type : OpType} {axis : Int}
    (h : g.insert name op inputs = .error (.op type none (.dynamicRank axis))) :
    g.inferOutputs op inputs = .error (.dynamicRank axis) := by
  unfold insert at h
  split at h
  · cases h
  · split at h
    · rename_i cause hinf
      rw [hinf]
      cases h
      rfl
    · cases h
    · cases h

theorem type?_appendNode_new (g : Graph) (name : Option String) (op : Op) (inputs : List ValueId) (types : List TensorType)
    (i : Nat) : (g.appendNode name op inputs types).type? ⟨g.valueSlots + i⟩ = types[i]? := by
  rw [type?, value?_appendNode_new, Option.map_map]
  cases types[i]? <;> rfl

end Graph

/-! ## Transpositions do not ask for a rank -/

/-- If the answer is an error, it is not that a rank is missing. -/
def AsksNoRank {α : Type} (x : Except InferError α) : Prop := ∀ axis, x ≠ .error (.dynamicRank axis)

theorem AsksNoRank.bind {α β : Type} {x : Except InferError α} {f : α → Except InferError β} (hx : AsksNoRank x)
    (hf : ∀ a, AsksNoRank (f a)) : AsksNoRank (x >>= f) := by
  cases x with
  | error e => exact fun axis h => hx axis (congrArg Except.error (Except.error.inj h))
  | ok a => exact hf a

namespace Infer

theorem asksNoRank_checkIntVector (x : TensorType) (index : Nat) : AsksNoRank (checkIntVector x index) := by
  intro axis h
  unfold checkIntVector at h
  split at h
  · cases h
  · split at h
    · split at h <;> cases h
    · cases h

theorem asksNoRank_permute (x : TensorType) (order : List Nat) : AsksNoRank (permute x order) := by
  intro axis h
  unfold permute at h
  split at h
  · cases h
  · split at h
    · cases h
    · split at h <;> cases h

theorem asksNoRank_axesOfInts (axes : List Int) : AsksNoRank (axesOfInts axes) := by
  intro axis h
  unfold axesOfInts at h
  split at h <;> cases h

theorem asksNoRank_transpose (order : Option (List Nat)) (x : TensorType) (second : Option TensorType)
    (axes? : Option (List Int)) : AsksNoRank (transpose order x second axes?) := by
  unfold transpose
  split
  · split
    · exact fun _ h => nomatch h
    · exact asksNoRank_permute x _
  · split
    · exact fun _ h => nomatch h
    · refine (asksNoRank_checkIntVector _ 1).bind (fun _ => ?_)
      split
      · exact fun _ h => nomatch h
      · exact (asksNoRank_axesOfInts _).bind (fun order => asksNoRank_permute x order)
      · exact fun _ h => nomatch h

end Infer

theorem Op.asksNoRank_transpose (order : Option (List Nat)) (ts : List TensorType) (values : List (Option ConstantData)) :
    AsksNoRank ((Op.transpose order).validate ts values) := by
  unfold validate
  split
  · refine AsksNoRank.bind (fun axis h => ?_) (fun p => ?_)
    · unfold Infer.oneOrTwo at h
      split at h <;> cases h
    · exact (Infer.asksNoRank_transpose order p.1 p.2 _).bind (fun _ _ h => nomatch h)
  · exact fun _ h => nomatch h

namespace Graph

variable {g h : Graph}

/-- **Where the order does not fit, the first graph accepts the node and claims what the second denies.** -/
theorem orderFitsBoth_of_insert (hgh : g.RefinedBy h) (hh : h.TypeConsistent) {name : Option String} {op op' : Op}
    (hop : op.RefinedBy op') {inputs : List ValueId} {id : NodeId} {v : ValueId} {h' : Graph}
    (hins : h.insert name op' inputs = .ok (id, v, h'))
    (hclaim : (∃ type axis, g.insert name op inputs = .error (.op type none (.dynamicRank axis))) ∨
      ∃ id v g', g.insert name op inputs = .ok (id, v, g') ∧ g'.TypesRelax h') : OrderFitsBoth g h op inputs := by
  intro ts ts' hts hts'
  by_cases htr : ∃ order, op = .transpose order
  · obtain ⟨order, rfl⟩ := htr
    obtain rfl := hop.eq_of_ne_parameter OpType.noConfusion
    obtain ⟨outs', hreg, hinf', hne, rfl, rfl, rfl⟩ := insert_eq_ok hins
    have hvalid' : (Op.transpose order).validate ts' (inputs.map h.knownValue?) = .ok outs' := by
      rwa [inferOutputs_eq, inputTypes_eq_ok_iff.2 hts'] at hinf'
    have hinfer : g.inferOutputs (.transpose order) inputs = (Op.transpose order).validate ts (inputs.map g.knownValue?) := by
      rw [inferOutputs_eq, inputTypes_eq_ok_iff.2 hts]
      rfl
    refine Op.orderFits_of_claimsNoMore (hgh.lessKnown hh hts hts') hvalid' (Or.inr ?_)
    rcases hclaim with ⟨type, axis, herror⟩ | ⟨id, v, g', hok, hrelax⟩
    · exact absurd (hinfer.symm.trans (inferOutputs_of_dynamicRank herror)) (Op.asksNoRank_transpose order ts _ axis)
    · obtain ⟨outs, -, hinf, -, rfl, rfl, rfl⟩ := insert_eq_ok hok
      refine ⟨outs, hinfer.symm.trans hinf, forall₂_of_rel_getElem? (fun i => ?_)⟩
      have hi := hrelax ⟨g.valueSlots + i⟩
      rwa [type?_appendNode_new, ← hgh.valueSlots, type?_appendNode_new] at hi
  · unfold Op.OrderFits
    split
    · exact absurd ⟨_, rfl⟩ htr
    · trivial

end Graph

end TensorGraph
