import TensorGraph.Proofs.Graph.Refined
import TensorGraph.Proofs.Information.Broadcast
import TensorGraph.Proofs.Rewrite.Edit
import TensorGraph.Proofs.Rewrite.Laws
/-!
# Expansion — the types of the values that stand in for composite operations

A composite operation is typed by one formula, its expansion by a chain of broadcasting operations.
For a fused multiplication and addition the formula is that chain.  For a hard sigmoid a scalar does not
change the shape it is combined with, so the chain keeps the shape of the data; but a scalar whose rank
is not known hides it, since it might have been wider.  The element type that the data agrees on with the
scalars is its own where constants of it exist, and the others of the chain agree with that.
-/
namespace TensorGraph

/-! ## Combining with scalars -/

namespace Shape

/-- A shape after it was broadcast with a scalar, as far as that is known to be one. -/
def beside (s scalar : Shape) : Shape := if scalar.isRanked then s else unknown

theorem beside_relaxes (s scalar : Shape) : (s.beside scalar).relaxes s = true := by
  unfold beside
  split
  · exact s.relaxes_self
  · exact unknown_relaxes s

theorem beside_of_isRanked {s scalar : Shape} (h : scalar.isRanked = true) : s.beside scalar = s := if_pos h

/-- A shape that may be that of a scalar. -/
def MaybeScalar (s : Shape) : Prop := s = .unknown ∨ s = .scalar

variable {s t : Shape}

theorem MaybeScalar.broadcast_left (h : s.MaybeScalar) : s.broadcast t = .ok (t.beside s) := by
  rcases h with rfl | rfl
  · rfl
  · exact broadcast_scalar_left t

theorem MaybeScalar.broadcast_right (h : s.MaybeScalar) : t.broadcast s = .ok (t.beside s) := by
  rcases h with rfl | rfl
  · exact broadcast_unknown_right t
  · exact broadcast_scalar_right t

end Shape

namespace ElementType

variable {a b c : ElementType}

theorem eq_of_merge (ha : a ≠ .dynamic) (h : a.merge b = .ok c) : c = a := by
  unfold merge at h
  split_ifs at h <;> simp_all

end ElementType

namespace Infer

variable {x y z t : TensorType}

theorem checkScalar_eq_ok {index : Nat} : checkScalar index t = .ok () ↔ t.shape.MaybeScalar := by
  obtain ⟨e, s⟩ := t
  cases s with
  | unknown => simp [checkScalar, TensorType.rank?, Shape.rank?, Shape.dims?, Shape.MaybeScalar]
  | ranked ds => cases ds <;> simp [checkScalar, TensorType.rank?, Shape.rank?, Shape.dims?, Shape.MaybeScalar, Shape.scalar]

theorem hardSigmoid_eq_ok : hardSigmoid x y z = .ok t ↔ mergeElements [x, y, z] = .ok t.element ∧
    (t.element.isFloat || t.element.isDynamic) = true ∧ y.shape.MaybeScalar ∧ z.shape.MaybeScalar ∧ t.shape = x.shape := by
  unfold hardSigmoid
  rw [bind_eq_ok]
  constructor
  · rintro ⟨e, he, h⟩
    split at h
    · cases h
    rename_i hclass
    rw [Bool.not_eq_true', Bool.not_eq_false] at hclass
    obtain ⟨⟨⟩, hy, h⟩ := bind_eq_ok.1 h
    obtain ⟨⟨⟩, hz, h⟩ := bind_eq_ok.1 h
    obtain rfl := Except.ok.inj h
    exact ⟨he, hclass, checkScalar_eq_ok.1 hy, checkScalar_eq_ok.1 hz, rfl⟩
  · rintro ⟨he, hclass, hy, hz, hs⟩
    refine ⟨_, he, ?_⟩
    rw [hclass, Bool.not_true, if_neg Bool.false_ne_true]
    exact bind_eq_ok.2 ⟨(), checkScalar_eq_ok.2 hy, bind_eq_ok.2 ⟨(), checkScalar_eq_ok.2 hz, by rw [← hs]; rfl⟩⟩

theorem arithmetic_scalar (x : TensorType) : arithmetic .numpy x ⟨x.element, .scalar⟩ = .ok x :=
  arithmetic_eq_ok.2 ⟨ElementType.merge_self _, mapError_eq_ok.2 (Shape.broadcast_scalar_right _)⟩

/-- The scalars of a hard sigmoid keep the element type of the data, if it is known, and its shape as far as they are
known to be scalars. -/
theorem arithmetic_of_hardSigmoid (h : hardSigmoid x y z = .ok t) (hx : x.element ≠ .dynamic) :
    t = x ∧ arithmetic .numpy y x = .ok ⟨x.element, x.shape.beside y.shape⟩ ∧
      arithmetic .numpy ⟨x.element, x.shape.beside y.shape⟩ z =
        .ok ⟨x.element, (x.shape.beside y.shape).beside z.shape⟩ := by
  obtain ⟨he, -, hy, hz, hs⟩ := hardSigmoid_eq_ok.1 h
  obtain ⟨e, hxy, hez⟩ := mergeElements_triple_eq_ok.1 he
  obtain rfl := ElementType.eq_of_merge hx hxy
  have het : t.element = x.element := ElementType.eq_of_merge hx hez
  rw [het] at hez
  refine ⟨?_, arithmetic_eq_ok.2 ⟨(ElementType.merges.comm _ _ _).1 hxy, mapError_eq_ok.2 hy.broadcast_left⟩,
    arithmetic_eq_ok.2 ⟨hez, mapError_eq_ok.2 hz.broadcast_right⟩⟩
  obtain ⟨te, ts⟩ := t
  rw [show te = x.element from het, show ts = x.shape from hs]

/-- The data of a hard sigmoid is not of another type than its output, unless that of the data is not known. -/
theorem isFloat_of_hardSigmoid (h : hardSigmoid x y z = .ok t) (hx : x.element ≠ .dynamic) : x.element.isFloat = true := by
  have hclass := (hardSigmoid_eq_ok.1 h).2.1
  rw [(arithmetic_of_hardSigmoid h hx).1] at hclass
  simpa [ElementType.isDynamic, hx] using hclass

end Infer

namespace ConstantData

variable {type : ElementType} {x : Double} {data : ConstantData}

theorem infer_splat? (h : splat? type x = some data) : Infer.constant (.scalar data) = .ok ⟨type, .scalar⟩ := by
  unfold splat? at h
  split at h
  all_goals cases h
  all_goals rfl

/-- The float types of which there are constants. -/
def SplatsFloat (type : ElementType) : Prop := type = .f16 ∨ type = .f32 ∨ type = .f64

theorem SplatsFloat.splat? (h : SplatsFloat type) (x : Double) : ∃ data, ConstantData.splat? type x = some data := by
  rcases h with rfl | rfl | rfl
  · exact ⟨_, rfl⟩
  · exact ⟨_, rfl⟩
  · exact ⟨_, rfl⟩

theorem splatsFloat_of_splat? (h : ConstantData.splat? type x = some data) (hfloat : type.isFloat = true) :
    SplatsFloat type := by
  cases type with
  | f16 => exact .inl rfl
  | f32 => exact .inr (.inl rfl)
  | f64 => exact .inr (.inr rfl)
  | bf16 => cases h
  | _ => cases hfloat

end ConstantData

/-! ## Adding to a graph -/

/-- **The second graph has what the first one had**, and a value of this type. -/
structure Graph.Defines (g : Graph) (v : ValueId) (t : TensorType) (h : Graph) : Prop where
  type : h.type? v = some t
  old : ∀ {w : ValueId} {s : TensorType}, g.type? w = some s → h.type? w = some s
  registry : h.registry = g.registry

theorem Op.validate_hardSigmoid {ins outs : List TensorType} {values : List (Option ConstantData)} :
    hardSigmoid.validate ins values = .ok outs ↔
      ∃ x y z t, ins = [x, y, z] ∧ Infer.hardSigmoid x y z = .ok t ∧ outs = [t] := by
  constructor
  · intro h
    obtain ⟨⟨x, y, z⟩, hxyz, h⟩ := bind_eq_ok.1 (inferTypes_of_validate h)
    obtain ⟨t, ht⟩ := single_eq_ok.1 h
    exact ⟨x, y, z, t, Infer.three_eq_ok.1 hxyz, ht⟩
  · rintro ⟨x, y, z, t, rfl, ht⟩
    exact bind_eq_ok.2 ⟨(x, y, z), rfl, single_eq_ok.2 ⟨t, ht⟩⟩

namespace Graph

variable {g : Graph} {op : Op} {inputs : List ValueId} {t : TensorType}

theorem inferOutputs_eq_ok {outs : List TensorType} : g.inferOutputs op inputs = .ok outs ↔
    ∃ ins, inputs.map g.type? = ins.map some ∧ op.validate ins (inputs.map g.knownValue?) = .ok outs := by
  rw [inferOutputs_eq]
  simp only [bind_eq_ok, inputTypes_eq_ok_iff]

theorem run_addValue_of_infer (hreg : g.registry = .full) (name : Option String)
    (hinfer : g.inferOutputs op inputs = .ok [t]) :
    ∃ v h, (Construction.addValue name op inputs).run.run g = (.ok v, h) ∧ g.Defines v t h := by
  have hins : g.insert name op inputs = .ok _ :=
    insert_of_infer (by rw [hreg]; exact Registry.contains_full _) hinfer (List.cons_ne_nil t [])
  refine ⟨_, _, Construction.run_addValue_eq_ok.2 ⟨_, hins⟩, ?_, fun {w s} hw => ?_, registry_appendNode ..⟩
  · simpa using g.type?_appendNode_new name op inputs [t] 0
  · rw [type?_appendNode_old name op inputs [t] (by obtain ⟨val, hval, -⟩ := Option.map_eq_some_iff.1 hw; simp [hval]), hw]

theorem run_elementwise_of_arithmetic (hreg : g.registry = .full) (op : BinaryOp) (hop : op.isComparison = false)
    {a b : ValueId} {ta tb : TensorType} (ha : g.type? a = some ta) (hb : g.type? b = some tb)
    (ht : Infer.arithmetic .numpy ta tb = .ok t) :
    ∃ v h, (Expansion.elementwise op a b).run.run g = (.ok v, h) ∧ g.Defines v t h := by
  refine run_addValue_of_infer hreg none (inferOutputs_eq_ok.2 ⟨[ta, tb], by simp [ha, hb], Op.validate_binary.2 ?_⟩)
  exact ⟨ta, tb, t, rfl, (Op.binary_of_not_isComparison hop _ _ _).trans ht, rfl⟩

theorem run_scalar_of_splat (hreg : g.registry = .full) {type : ElementType} {x : Double} {data : ConstantData}
    (h : ConstantData.splat? type x = some data) :
    ∃ v h, (Construction.addValue none (.constant (.scalar data)) []).run.run g = (.ok v, h) ∧
      g.Defines v ⟨type, .scalar⟩ h := by
  refine run_addValue_of_infer hreg none (inferOutputs_eq_ok.2 ⟨[], rfl, ?_⟩)
  exact bind_eq_ok.2 ⟨_, ConstantData.infer_splat? h, rfl⟩

theorem Defines.trans {h k : Graph} {v w : ValueId} {s : TensorType} (hgh : g.Defines v t h) (hhk : h.Defines w s k) :
    g.Defines w s k where
  type := hhk.type
  old hw := hhk.old (hgh.old hw)
  registry := hhk.registry.trans hgh.registry

variable {x y z : ValueId} {tx ty tz : TensorType}

theorem run_fusedMultiplyAddOf (hreg : g.registry = .full) (hx : g.type? x = some tx) (hy : g.type? y = some ty)
    (hz : g.type? z = some tz) (ht : Infer.fusedMultiplyAdd tx ty tz = .ok t) :
    ∃ v h, (Expansion.fusedMultiplyAddOf x y z).run.run g = (.ok v, h) ∧ g.Defines v t h := by
  obtain ⟨tp, hproduct, hsum⟩ := bind_eq_ok.1 ht
  obtain ⟨p, g₁, hrun₁, h₁⟩ := run_elementwise_of_arithmetic hreg .multiply rfl hx hy hproduct
  obtain ⟨v, g₂, hrun₂, h₂⟩ :=
    run_elementwise_of_arithmetic (h₁.registry.trans hreg) .add rfl h₁.type (h₁.old hz) hsum
  exact ⟨v, g₂, Construction.run_bind_eq_ok.2 ⟨p, g₁, hrun₁, hrun₂⟩, h₁.trans h₂⟩

theorem run_hardSigmoidOf (hreg : g.registry = .full) (hx : g.type? x = some tx) (hy : g.type? y = some ty)
    (hz : g.type? z = some tz) (ht : Infer.hardSigmoid tx ty tz = .ok t) (hfloat : ConstantData.SplatsFloat tx.element) :
    ∃ v h, (Expansion.hardSigmoidOf x y z).run.run g = (.ok v, h) ∧
      g.Defines v ⟨tx.element, (tx.shape.beside ty.shape).beside tz.shape⟩ h := by
  obtain ⟨zeros, hzeros⟩ := hfloat.splat? .zero
  obtain ⟨ones, hones⟩ := hfloat.splat? .one
  obtain ⟨-, hscaled, hshifted⟩ := Infer.arithmetic_of_hardSigmoid ht (ConstantData.ne_dynamic_of_splat? hzeros)
  obtain ⟨zero, g₁, hrun₁, h₁⟩ := run_scalar_of_splat hreg hzeros
  obtain ⟨one, g₂, hrun₂, h₂⟩ := run_scalar_of_splat (h₁.registry.trans hreg) hones
  have h₁₂ := h₁.trans h₂
  obtain ⟨scaled, g₃, hrun₃, h₃⟩ := run_elementwise_of_arithmetic (h₁₂.registry.trans hreg) .multiply rfl
    (h₁₂.old hy) (h₁₂.old hx) hscaled
  have h₁₃ := h₁₂.trans h₃
  obtain ⟨shifted, g₄, hrun₄, h₄⟩ := run_elementwise_of_arithmetic (h₁₃.registry.trans hreg) .add rfl h₃.type
    (h₁₃.old hz) hshifted
  have h₁₄ := h₁₃.trans h₄
  obtain ⟨lower, g₅, hrun₅, h₅⟩ := run_elementwise_of_arithmetic (h₁₄.registry.trans hreg) .maximum rfl h₄.type
    (h₄.old (h₃.old (h₂.old h₁.type))) (Infer.arithmetic_scalar _)
  have h₁₅ := h₁₄.trans h₅
  obtain ⟨v, g₆, hrun₆, h₆⟩ := run_elementwise_of_arithmetic (h₁₅.registry.trans hreg) .minimum rfl h₅.type
    (h₅.old (h₄.old (h₃.old h₂.type))) (Infer.arithmetic_scalar _)
  refine ⟨v, g₆, ?_, h₁₅.trans h₆⟩
  unfold Expansion.hardSigmoidOf
  refine Construction.run_graph_bind_eq_ok.2 ?_
  simp only [hx, Expansion.scalarOf, hzeros, hones]
  exact Construction.run_bind_eq_ok.2 ⟨_, g, rfl, Construction.run_bind_eq_ok.2 ⟨zero, g₁, hrun₁,
    Construction.run_bind_eq_ok.2 ⟨_, g₁, rfl, Construction.run_bind_eq_ok.2 ⟨one, g₂, hrun₂,
    Construction.run_bind_eq_ok.2 ⟨scaled, g₃, hrun₃, Construction.run_bind_eq_ok.2 ⟨shifted, g₄, hrun₄,
    Construction.run_bind_eq_ok.2 ⟨lower, g₅, hrun₅, hrun₆⟩⟩⟩⟩⟩⟩⟩

/-- The composite operation on these inputs expands to the value. -/
def ExpandsTo (g : Graph) (op : Op) (inputs : List ValueId) (v : ValueId) (h : Graph) : Prop :=
  ∃ expand, op.expansion? = some expand ∧ (expand inputs).run.run g = (.ok v, h)

theorem expandsTo_fusedMultiplyAdd {v : ValueId} {h : Graph} :
    g.ExpandsTo .fusedMultiplyAdd [x, y, z] v h ↔ (Expansion.fusedMultiplyAddOf x y z).run.run g = (.ok v, h) := by
  simp [ExpandsTo, Op.expansion?, Expansion.onThree]

theorem expandsTo_hardSigmoid {v : ValueId} {h : Graph} :
    g.ExpandsTo .hardSigmoid [x, y, z] v h ↔ (Expansion.hardSigmoidOf x y z).run.run g = (.ok v, h) := by
  simp [ExpandsTo, Op.expansion?, Expansion.onThree]

/-- The types that an operation on three inputs was asked about. -/
theorem types_of_inferOutputs {outs : List TensorType} (h : g.inferOutputs op [x, y, z] = .ok outs) :
    ∃ tx ty tz, g.type? x = some tx ∧ g.type? y = some ty ∧ g.type? z = some tz ∧
      op.validate [tx, ty, tz] ([x, y, z].map g.knownValue?) = .ok outs := by
  obtain ⟨ins, hins, hvalid⟩ := inferOutputs_eq_ok.1 h
  match ins with
  | [tx, ty, tz] =>
    simp only [List.map_cons, List.map_nil, List.cons.injEq, and_true] at hins
    exact ⟨tx, ty, tz, hins.1, hins.2.1, hins.2.2, hvalid⟩
  | [] | [_] | [_, _] | _ :: _ :: _ :: _ :: _ => simp at hins

theorem infer_fusedMultiplyAdd (h : g.inferOutputs .fusedMultiplyAdd [x, y, z] = .ok [t]) :
    ∃ tx ty tz, g.type? x = some tx ∧ g.type? y = some ty ∧ g.type? z = some tz ∧
      Infer.fusedMultiplyAdd tx ty tz = .ok t := by
  obtain ⟨tx, ty, tz, hx, hy, hz, hvalid⟩ := types_of_inferOutputs h
  obtain ⟨_, _, _, _, hins, ht, hout⟩ := Op.validate_fusedMultiplyAdd.1 hvalid
  simp only [List.cons.injEq, and_true] at hins hout
  obtain ⟨rfl, rfl, rfl⟩ := hins
  exact ⟨_, _, _, hx, hy, hz, hout ▸ ht⟩

theorem infer_hardSigmoid (h : g.inferOutputs .hardSigmoid [x, y, z] = .ok [t]) (hx : g.type? x = some tx)
    (hy : g.type? y = some ty) (hz : g.type? z = some tz) : Infer.hardSigmoid tx ty tz = .ok t := by
  obtain ⟨_, _, _, hx', hy', hz', hvalid⟩ := types_of_inferOutputs h
  obtain ⟨_, _, _, _, hins, ht, hout⟩ := Op.validate_hardSigmoid.1 hvalid
  simp only [List.cons.injEq, and_true] at hins hout
  obtain ⟨rfl, rfl, rfl⟩ := hins
  obtain rfl := Option.some.inj (hx.symm.trans hx')
  obtain rfl := Option.some.inj (hy.symm.trans hy')
  obtain rfl := Option.some.inj (hz.symm.trans hz')
  exact hout ▸ ht

/-- **The expansion of a fused multiplication and addition succeeds and has the type of the operation.** -/
theorem expand_fusedMultiplyAdd (hreg : g.registry = .full)
    (h : g.inferOutputs .fusedMultiplyAdd [x, y, z] = .ok [t]) :
    ∃ v k, g.ExpandsTo .fusedMultiplyAdd [x, y, z] v k ∧ g.Defines v t k := by
  obtain ⟨tx, ty, tz, hx, hy, hz, ht⟩ := infer_fusedMultiplyAdd h
  obtain ⟨v, k, hrun, hdef⟩ := run_fusedMultiplyAddOf hreg hx hy hz ht
  exact ⟨v, k, expandsTo_fusedMultiplyAdd.2 hrun, hdef⟩

/-- **The expansion of a hard sigmoid** succeeds where there are constants of the element type of the data, and then it
has that element type, and the shape of the data as far as the scalars are known to be scalars. -/
theorem expand_hardSigmoid (hreg : g.registry = .full) (h : g.inferOutputs .hardSigmoid [x, y, z] = .ok [t])
    (hx : g.type? x = some tx) (hy : g.type? y = some ty) (hz : g.type? z = some tz)
    (hfloat : ConstantData.SplatsFloat tx.element) : t = tx ∧ ∃ v k, g.ExpandsTo .hardSigmoid [x, y, z] v k ∧
      g.Defines v ⟨tx.element, (tx.shape.beside ty.shape).beside tz.shape⟩ k := by
  have ht := infer_hardSigmoid h hx hy hz
  obtain ⟨v, k, hrun, hdef⟩ := run_hardSigmoidOf hreg hx hy hz ht hfloat
  obtain ⟨zeros, hzeros⟩ := hfloat.splat? .zero
  exact ⟨(Infer.arithmetic_of_hardSigmoid ht (ConstantData.ne_dynamic_of_splat? hzeros)).1, v, k,
    expandsTo_hardSigmoid.2 hrun, hdef⟩

/-- There are constants of the element type of the data if the expansion of a hard sigmoid succeeds. -/
theorem splatsFloat_of_expandsTo (h : g.inferOutputs .hardSigmoid [x, y, z] = .ok [t]) (hx : g.type? x = some tx)
    (hy : g.type? y = some ty) (hz : g.type? z = some tz) {v : ValueId} {k : Graph}
    (hexpand : g.ExpandsTo .hardSigmoid [x, y, z] v k) : ConstantData.SplatsFloat tx.element := by
  obtain ⟨tx', zeros, _, _, _, _, _, _, _, _, _, _, _, hx', hzeros, -⟩ :=
    Expansion.run_hardSigmoidOf (expandsTo_hardSigmoid.1 hexpand)
  obtain rfl := Option.some.inj (hx.symm.trans hx')
  exact ConstantData.splatsFloat_of_splat? hzeros
    (Infer.isFloat_of_hardSigmoid (infer_hardSigmoid h hx hy hz) (ConstantData.ne_dynamic_of_splat? hzeros))

/-- **Expansions honour the type of the operation that they stand in for.** -/
theorem type?_of_expandsTo {g : Graph} (hreg : g.registry = .full) (x y z : ValueId) (t : TensorType) :
    (g.inferOutputs .fusedMultiplyAdd [x, y, z] = .ok [t] →
      ∃ v k, g.ExpandsTo .fusedMultiplyAdd [x, y, z] v k ∧ k.type? v = some t) ∧
    (g.inferOutputs .hardSigmoid [x, y, z] = .ok [t] → ∃ tx ty tz,
      g.type? x = some tx ∧ g.type? y = some ty ∧ g.type? z = some tz ∧
      ((∃ v k, g.ExpandsTo .hardSigmoid [x, y, z] v k) ↔ tx.element = .f16 ∨ tx.element = .f32 ∨ tx.element = .f64) ∧
      ∀ v k, g.ExpandsTo .hardSigmoid [x, y, z] v k → ∃ s, k.type? v = some s ∧ s.element = t.element ∧
        s.relaxes t = true ∧ (ty.shape.isRanked = true → tz.shape.isRanked = true → s = t)) := by
  refine ⟨fun h => ?_, fun h => ?_⟩
  · obtain ⟨v, k, hexpand, hdef⟩ := expand_fusedMultiplyAdd hreg h
    exact ⟨v, k, hexpand, hdef.type⟩
  obtain ⟨tx, ty, tz, hx, hy, hz, -⟩ := types_of_inferOutputs h
  refine ⟨tx, ty, tz, hx, hy, hz, ⟨fun ⟨v, k, hexpand⟩ => splatsFloat_of_expandsTo h hx hy hz hexpand, fun hfloat => ?_⟩,
    fun v k hexpand => ?_⟩
  · obtain ⟨-, v, k, hexpand, -⟩ := expand_hardSigmoid hreg h hx hy hz hfloat
    exact ⟨v, k, hexpand⟩
  · obtain ⟨rfl, v', k', hexpand', hdef⟩ :=
      expand_hardSigmoid hreg h hx hy hz (splatsFloat_of_expandsTo h hx hy hz hexpand)
    obtain ⟨rfl, rfl⟩ : v' = v ∧ k' = k := by
      have hsame := (expandsTo_hardSigmoid.1 hexpand').symm.trans (expandsTo_hardSigmoid.1 hexpand)
      simpa using hsame
    refine ⟨_, hdef.type, rfl, ?_, fun hy' hz' => by rw [Shape.beside_of_isRanked hz', Shape.beside_of_isRanked hy']⟩
    exact TensorType.mk_relaxes_mk (ElementType.relaxes_self _)
      (Shape.relaxes_trans (Shape.beside_relaxes _ _) (Shape.beside_relaxes _ _))

/-- A matrix, a value of which nothing is known, and a scalar. -/
def slope : Graph :=
  [Edit.addParameter none ⟨.f32, .ranked [.fixed 2, .dynamic]⟩, .addParameter none .unknown,
    .addParameter none ⟨.f32, .scalar⟩].foldl Edit.apply (.empty .full)

/-- The product is of unknown rank with either operation; of the hard sigmoid only the expansion is, since the second
value might not be a scalar as far as broadcasting is concerned. -/
theorem type?_of_expandsTo_slope :
    (∃ v k, slope.ExpandsTo .fusedMultiplyAdd [⟨0⟩, ⟨1⟩, ⟨2⟩] v k ∧ k.type? v = some ⟨.f32, .unknown⟩) ∧
    (∃ v k, slope.ExpandsTo .hardSigmoid [⟨0⟩, ⟨1⟩, ⟨2⟩] v k) ∧
    ∀ v k, slope.ExpandsTo .hardSigmoid [⟨0⟩, ⟨1⟩, ⟨2⟩] v k →
      ∃ s, k.type? v = some s ∧ s.element = .f32 ∧ s.relaxes ⟨.f32, .ranked [.fixed 2, .dynamic]⟩ = true := by
  have hreg : slope.registry = .full := by decide +kernel
  have hfused : slope.inferOutputs .fusedMultiplyAdd [⟨0⟩, ⟨1⟩, ⟨2⟩] = .ok [⟨.f32, .unknown⟩] := by decide +kernel
  have hclamped : slope.inferOutputs .hardSigmoid [⟨0⟩, ⟨1⟩, ⟨2⟩] = .ok [⟨.f32, .ranked [.fixed 2, .dynamic]⟩] := by
    decide +kernel
  obtain ⟨tx, ty, tz, hx, -, -, hexpands, htype⟩ := (type?_of_expandsTo hreg ⟨0⟩ ⟨1⟩ ⟨2⟩ _).2 hclamped
  have hx' : slope.type? ⟨0⟩ = some ⟨.f32, .ranked [.fixed 2, .dynamic]⟩ := by decide +kernel
  obtain rfl := Option.some.inj (hx.symm.trans hx')
  refine ⟨(type?_of_expandsTo hreg ⟨0⟩ ⟨1⟩ ⟨2⟩ _).1 hfused, hexpands.2 (.inr (.inl rfl)), fun v k hexpand => ?_⟩
  obtain ⟨s, hs, helement, hrelaxes, -⟩ := htype v k hexpand
  exact ⟨s, hs, helement, hrelaxes⟩

end Graph
end TensorGraph
