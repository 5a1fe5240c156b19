import TensorGraph.Proofs.Graph.Known
import TensorGraph.Proofs.Op.Permutation
import TensorGraph.Proofs.Rewrite.Typing
import TensorGraph.Rewrite.Legalize
/-!
# Orders — the readings of a transposition agree

The order of a transposition is written in one of two places (`WrittenOrder`): in the operation, or in a constant that
the node reads.  What `transposeOrderMatches` accepts is the order that is written, the reversed one if none is; and
it is the order that the inference rule has applied where the types of the graph are up to date.  So it is a permutation,
and the only one that matches.
-/
namespace TensorGraph
namespace Graph

variable {g : Graph} {id : NodeId} {n : Node} {e : ElementType} {dims : List Dimension} {order : List Nat}
  {written o o' : Option (List Nat)}

/-- **The order that a transposition is written with**, if it is written down: no order is one, too, and stands for the
reversed one. -/
inductive WrittenOrder (g : Graph) (n : Node) : Option (List Nat) → Prop where
  | inOperation {o : Option (List Nat)} (hop : n.op = .transpose o) (hone : n.inputs[1]? = none) : WrittenOrder g n o
  | inConstant {o : Option (List Nat)} {vector : ValueId} {c : Constant} {p : List Nat} (hop : n.op = .transpose o)
      (htwo : n.inputs[1]? = some vector) (hproducer : (g.producer? vector).map Node.op = some (.constant c))
      (hints : c.data.ints? = some (p.map Int.ofNat)) : WrittenOrder g n (if p = [] then none else some p)

/-- **An order is written in one place only.** -/
theorem WrittenOrder.unique (h : g.WrittenOrder n o) (h' : g.WrittenOrder n o') : o = o' := by
  cases h with
  | inOperation hop hone =>
    cases h' with
    | inOperation hop' _ => exact Op.transpose.inj (hop.symm.trans hop')
    | inConstant _ htwo => cases hone.symm.trans htwo
  | inConstant _ htwo hproducer hints =>
    cases h' with
    | inOperation _ hone => cases hone.symm.trans htwo
    | inConstant _ htwo' hproducer' hints' =>
      obtain rfl := Option.some.inj (htwo.symm.trans htwo')
      obtain rfl := Op.constant.inj (Option.some.inj (hproducer.symm.trans hproducer'))
      have hp := Option.some.inj (hints.symm.trans hints')
      rw [List.map_injective_iff.2 (fun _ _ => Int.ofNat.inj) hp]

theorem reversesAs_iff (hrank : g.inputRank? n = some dims.length) :
    g.reversesAs n order = true ↔ order = (List.range dims.length).reverse := by
  unfold reversesAs
  rw [hrank]
  simp only [Bool.and_eq_true, decide_eq_true_eq, Option.some.injEq]
  constructor
  · rintro ⟨hlen, horder⟩
    rwa [hlen]
  · rintro rfl
    simp

/-- **An order matches if it is the one that is written**, or the reversed one if none is. -/
theorem transposeOrderMatches_iff (hn : g.node? id = some n) (hop : n.op = .transpose written)
    (hrank : g.inputRank? n = some dims.length) : g.transposeOrderMatches id order = true ↔
      ∃ o, g.WrittenOrder n o ∧ order = Infer.appliedOrder o dims.length := by
  unfold transposeOrderMatches
  simp only [hn, hop]
  constructor
  · intro h
    split at h
    · rename_i vector htwo
      split at h
      · rename_i c hproducer
        split at h
        · cases h
        · rename_i hints
          exact ⟨none, .inConstant (p := []) hop htwo hproducer hints, (reversesAs_iff hrank).1 h⟩
        · rename_i axes hne hints
          have haxes : axes = order.map Int.ofNat := of_decide_eq_true h
          rw [haxes] at hints hne
          have horder : order ≠ [] := fun hnil => hne (by rw [hnil]; rfl)
          have hwritten := WrittenOrder.inConstant hop htwo hproducer hints
          rw [if_neg horder] at hwritten
          exact ⟨some order, hwritten, rfl⟩
      · cases h
    · rename_i hone
      refine ⟨written, .inOperation hop hone, ?_⟩
      cases written with
      | none => exact (reversesAs_iff hrank).1 h
      | some p => exact (of_decide_eq_true h).symm
  · rintro ⟨o, hwritten, rfl⟩
    cases hwritten with
    | inOperation hop' hone =>
      obtain rfl := Op.transpose.inj (hop.symm.trans hop')
      rw [hone]
      cases written with
      | none => exact (reversesAs_iff hrank).2 rfl
      | some p => exact decide_eq_true rfl
    | @inConstant _ vector c p _ htwo hproducer hints =>
      simp only [htwo, hproducer, hints]
      cases p with
      | nil => exact (reversesAs_iff hrank).2 rfl
      | cons i p => exact decide_eq_true rfl

theorem knownValue?_of_constant {v : ValueId} {c : Constant}
    (h : (g.producer? v).map Node.op = some (.constant c)) : g.knownValue? v = some c.data := by
  obtain ⟨p, hp, hop⟩ := Option.map_eq_some_iff.1 h
  rw [knownValue?, knownValueUnder?, hp]
  simp only [hop]

/-- **What a transposition whose type is up to date has been inferred from.** -/
theorem Typed.of_transpose (hn : g.Typed n) (hop : n.op = .transpose written) {input : ValueId}
    (hinput : n.inputs.head? = some input) {x : TensorType} (htype : g.type? input = some x) :
    ∃ t out, n.outputs = [out] ∧ g.type? out = some t ∧
      (n.inputs[1]? = none ∧ Infer.transpose written x none none = .ok t ∨
        ∃ vector y, n.inputs[1]? = some vector ∧
          Infer.transpose written x (some y) ((g.knownValue? vector).bind ConstantData.ints?) = .ok t) := by
  obtain ⟨ins, outs, hins, hvalid, hout⟩ := typed_iff.1 hn
  rw [hop] at hvalid
  obtain ⟨x', second, t, hins', ht, rfl⟩ := Op.validate_transpose_eq_ok.1 hvalid
  obtain ⟨out, houts, hout⟩ := List.map_eq_singleton_iff.1 hout
  refine ⟨t, out, houts, hout, ?_⟩
  rcases hins' with ⟨rfl, rfl⟩ | ⟨y, rfl, rfl⟩
  · obtain ⟨v, hv, hx'⟩ := List.map_eq_singleton_iff.1 hins
    rw [hv] at hinput ⊢
    obtain rfl := Option.some.inj hinput
    obtain rfl := Option.some.inj (htype.symm.trans hx')
    exact Or.inl ⟨rfl, ht⟩
  · obtain ⟨v, rest, hv, hx', hrest⟩ := List.map_eq_cons_iff.1 hins
    obtain ⟨vector, rfl, -⟩ := List.map_eq_singleton_iff.1 hrest
    rw [hv] at hinput ht ⊢
    obtain rfl := Option.some.inj hinput
    obtain rfl := Option.some.inj (htype.symm.trans hx')
    exact Or.inr ⟨vector, y, rfl, ht⟩

/-- **The order that is written is the one that is applied.** -/
theorem WrittenOrder.permute_eq_ok (hn : g.Typed n) {input : ValueId} (hinput : n.inputs.head? = some input)
    (htype : g.type? input = some ⟨e, .ranked dims⟩) (h : g.WrittenOrder n o) :
    ∃ t out, Infer.permute ⟨e, .ranked dims⟩ (Infer.appliedOrder o dims.length) = .ok t ∧ n.outputs = [out] ∧
      g.type? out = some t := by
  cases h with
  | inOperation hop hone =>
    obtain ⟨t, out, houts, hout, ⟨-, ht⟩ | ⟨_, _, htwo, -⟩⟩ := hn.of_transpose hop hinput htype
    · exact ⟨t, out, Infer.transpose_one_eq .. ▸ ht, houts, hout⟩
    · cases hone.symm.trans htwo
  | @inConstant written vector c p hop htwo hproducer hints =>
    obtain ⟨t, out, houts, hout, ⟨hone, -⟩ | ⟨_, y, htwo', ht⟩⟩ := hn.of_transpose hop hinput htype
    · cases hone.symm.trans htwo
    · obtain rfl := Option.some.inj (htwo.symm.trans htwo')
      rw [knownValue?_of_constant hproducer, Option.bind_some, hints] at ht
      obtain ⟨p', hp, ht⟩ := Infer.exists_of_transpose_known ht
      obtain rfl := List.map_injective_iff.2 (fun _ _ => Int.ofNat.inj) hp
      exact ⟨t, out, Infer.transpose_one_eq .. ▸ ht, houts, hout⟩

/-- **The order is written down** unless it is read from a value that is no constant of integers. -/
theorem Typed.exists_writtenOrder (hn : g.Typed n) (hop : n.op = .transpose written) {input : ValueId}
    (hinput : n.inputs.head? = some input) {x : TensorType} (htype : g.type? input = some x)
    (h : n.inputs.length = 1 ∨ ∃ vector c, n.inputs[1]? = some vector ∧
      (g.producer? vector).map Node.op = some (.constant c) ∧ c.data.elementType.isIntegral = true) :
    ∃ o, g.WrittenOrder n o := by
  rcases h with hone | ⟨vector, c, htwo, hproducer, hintegral⟩
  · exact ⟨written, .inOperation hop (List.getElem?_eq_none (Nat.le_of_eq hone))⟩
  · rw [← ConstantData.isSome_ints?] at hintegral
    obtain ⟨axes, hints⟩ := Option.isSome_iff_exists.1 hintegral
    obtain ⟨t, out, -, -, ⟨hone, -⟩ | ⟨_, y, htwo', ht⟩⟩ := hn.of_transpose hop hinput htype
    · cases hone.symm.trans htwo
    · obtain rfl := Option.some.inj (htwo.symm.trans htwo')
      rw [knownValue?_of_constant hproducer, Option.bind_some, hints] at ht
      obtain ⟨p, rfl, -⟩ := Infer.exists_of_transpose_known ht
      exact ⟨_, .inConstant hop htwo hproducer hints⟩

/-- **The readings of a transposition agree.**  In a graph whose types are up to date, let a transposition read data of
known rank.
- An order that matches is a permutation of the axes, and output axis `i` is input axis `order[i]`.
- If there is no second input, or if a constant of integers is, then exactly one order matches.
- If there is no second input, the operation counts as an identity exactly if the axes match as they are. -/
theorem transposeOrder_readings (hg : g.TypeConsistent) (hn : g.node? id = some n) (hop : n.op = .transpose written)
    {input : ValueId} (hinput : n.inputs.head? = some input) (htype : g.type? input = some ⟨e, .ranked dims⟩) :
    (∀ order, g.transposeOrderMatches id order = true → order.Perm (List.range dims.length) ∧
      ∃ out ds, n.outputs = [out] ∧ g.type? out = some ⟨e, .ranked ds⟩ ∧ ∀ i : Nat, ds[i]? = order[i]?.bind (dims[·]?)) ∧
    ((n.inputs.length = 1 ∨ ∃ vector c, n.inputs[1]? = some vector ∧
        (g.producer? vector).map Node.op = some (.constant c) ∧ c.data.elementType.isIntegral = true) →
      ∃! order, g.transposeOrderMatches id order = true) ∧
    (n.inputs.length = 1 → (Infer.isIdentityOrder written dims.length = true ↔
      g.transposeOrderMatches id (List.range dims.length) = true)) := by
  have hrank : g.inputRank? n = some dims.length := by
    rw [inputRank?, hinput, Option.bind_some, htype]
    rfl
  have hmatches {o : List Nat} : g.transposeOrderMatches id o = true ↔
      ∃ p, g.WrittenOrder n p ∧ o = Infer.appliedOrder p dims.length := transposeOrderMatches_iff hn hop hrank
  refine ⟨fun order horder => ?_, fun hwritten => ?_, fun hone => ?_⟩
  · obtain ⟨o, ho, rfl⟩ := hmatches.1 horder
    obtain ⟨t, out, ht, houts, hout⟩ := ho.permute_eq_ok (hg.typed hn) hinput htype
    obtain ⟨hperm, rfl⟩ := Infer.permute_ranked_eq_ok.1 ht
    exact ⟨hperm, out, _, houts, hout,
      Infer.getElem?_reorder (fun i hi => (Infer.mem_iff_of_perm_range hperm).1 hi)⟩
  · obtain ⟨o, ho⟩ := (hg.typed hn).exists_writtenOrder hop hinput htype hwritten
    refine ⟨_, hmatches.2 ⟨o, ho, rfl⟩, fun order horder => ?_⟩
    obtain ⟨o', ho', rfl⟩ := hmatches.1 horder
    rw [ho.unique ho']
  · have ho : g.WrittenOrder n written := .inOperation hop (List.getElem?_eq_none (Nat.le_of_eq hone))
    rw [hmatches, Infer.isIdentityOrder_iff_applied]
    constructor
    · exact fun h => ⟨written, ho, h.symm⟩
    · rintro ⟨o, ho', h⟩
      rw [ho.unique ho', h]

/-- A transposition by a constant, and one back to front. -/
def turned : Graph :=
  [Edit.addParameter none ⟨.f32, .ranked [.fixed 2, .dynamic, .fixed 4]⟩, .addConstant none ⟨.i64 [1, 0, 2], [3]⟩,
    .addValue none (.transpose none) [⟨0⟩, ⟨1⟩], .addValue none (.transpose none) [⟨0⟩],
    .setResults [⟨2⟩, ⟨3⟩]].foldl Edit.apply (.empty .full)

/-- The constant is the only order of the first one; the second one is no identity, since there is more than one axis. -/
theorem transposeOrder_readings_turned : turned.TypeConsistent ∧
    turned.node? ⟨2⟩ = some ⟨none, .transpose none, [⟨0⟩, ⟨1⟩], [⟨2⟩]⟩ ∧
    turned.type? ⟨0⟩ = some ⟨.f32, .ranked [.fixed 2, .dynamic, .fixed 4]⟩ ∧
    (∃! order, turned.transposeOrderMatches ⟨2⟩ order = true) ∧ [1, 0, 2].Perm (List.range 3) ∧
    turned.transposeOrderMatches ⟨3⟩ (List.range 3) = false := by
  have htyped : turned.TypeConsistent := typeConsistent_edits _ (by simp) (typeConsistent_empty _)
  have hfirst : turned.node? ⟨2⟩ = some ⟨none, .transpose none, [⟨0⟩, ⟨1⟩], [⟨2⟩]⟩ := by decide +kernel
  have hsecond : turned.node? ⟨3⟩ = some ⟨none, .transpose none, [⟨0⟩], [⟨3⟩]⟩ := by decide +kernel
  have htype : turned.type? ⟨0⟩ = some ⟨.f32, .ranked [.fixed 2, .dynamic, .fixed 4]⟩ := by decide +kernel
  have hconstant : (turned.producer? ⟨1⟩).map Node.op = some (.constant ⟨.i64 [1, 0, 2], [3]⟩) := by decide +kernel
  obtain ⟨hperm, hunique, -⟩ := transposeOrder_readings htyped hfirst rfl rfl htype
  obtain ⟨-, -, hidentity⟩ := transposeOrder_readings htyped hsecond rfl rfl htype
  refine ⟨htyped, hfirst, htype, hunique (Or.inr ⟨_, _, rfl, hconstant, rfl⟩), (hperm [1, 0, 2] (by decide +kernel)).1, ?_⟩
  exact Bool.eq_false_iff.2 (fun h => absurd ((hidentity rfl).2 h) (by decide))

end Graph
end TensorGraph
