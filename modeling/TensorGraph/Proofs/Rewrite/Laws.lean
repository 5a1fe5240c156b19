import TensorGraph.Proofs.Graph.Known
import TensorGraph.Proofs.Rewrite.Construct
/-!
# Laws — interpretations on typed tensors

Tensors have types.  An interpretation is typed if an operation gives outputs only on inputs that
are well typed, and then outputs of the inferred types; it conforms to a graph if every value
denotes a tensor of the cached type.  `Laws` lists the equations on which the built-in rules rest.

An equation relates the outputs as lists, none where an operation is not defined.  So the lemmas
below first find out from one side that there are outputs, and then read the other side.
-/
namespace TensorGraph

open TensorGraph.Graph

/-! ## Operations with one output -/

namespace Op

variable {ins outs : List TensorType} {values : List (Option ConstantData)}

theorem length_of_single {x : Except InferError TensorType} (h : (do return [← x]) = Except.ok outs) : outs.length = 1 := by
  obtain ⟨t, -, rfl⟩ := single_eq_ok.1 h
  rfl

/-- Only a split has more outputs than one. -/
theorem length_of_validate {op : Op} (hsplit : op.type ≠ .split)
    (h : op.validate ins values = .ok outs) : outs.length = 1 := by
  unfold validate at h
  split at h
  · cases op with
    | parameter type => exact Except.ok.inj h ▸ rfl
    | split axis parts => exact absurd rfl hsplit
    | constant value => exact length_of_single h
    | concat axis => exact length_of_single h
    | _ =>
      obtain ⟨_, -, h⟩ := bind_eq_ok.1 h
      exact length_of_single h
  · cases h

theorem ne_dynamic_of_validate_convert {target : ElementType} (h : (convert target).validate ins values = .ok outs) :
    target ≠ .dynamic := by
  rintro rfl
  obtain ⟨x, -, h⟩ := bind_eq_ok.1 (inferTypes_of_validate h)
  obtain ⟨t, ht, -⟩ := bind_eq_ok.1 h
  cases ht

end Op

/-- A splat has the element type that was asked for, so that was one. -/
theorem ConstantData.ne_dynamic_of_splat? {type : ElementType} {x : Double} {data : ConstantData}
    (h : splat? type x = some data) : type ≠ .dynamic := by
  rintro rfl
  cases h

/-! ## Typed interpretations -/

namespace Interpretation

variable {D : Type}

/-- **Only inputs that are well typed give outputs**, and the outputs have the inferred types. -/
structure Typed (I : Interpretation D) (typeOf : D → TensorType) : Prop where
  sound : ∀ op ds, I.apply op ds ≠ [] → ∃ types, op.validate (ds.map typeOf) [] = .ok types ∧
    List.Forall₂ (fun t d => t.relaxes (typeOf d) = true) types (I.apply op ds)

/-- **Every value of the graph denotes a tensor of its cached type.** -/
def Conforms (I : Interpretation D) (typeOf : D → TensorType) (g : Graph) : Prop :=
  ∀ v t, g.type? v = some t → ∃ d, I.denote g v = some d ∧ t.relaxes (typeOf d) = true

/-- The equations that the built-in rules use. -/
structure Laws (I : Interpretation D) (typeOf : D → TensorType) : Prop where
  add_comm : ∀ b x y, I.apply (.binary .add b) [x, y] = I.apply (.binary .add b) [y, x]
  /-- Wherever the left side is well typed. -/
  multiply_add : ∀ b b' x y z p s, (Op.binary .multiply b).validate [typeOf x, typeOf y] [] = .ok [p] →
    (Op.binary .add b').validate [p, typeOf z] [] = .ok [s] →
    I.apply (.binary .add b') (I.apply (.binary .multiply b) [x, y] ++ [z]) = I.apply .fusedMultiplyAdd [x, y, z]
  hard_sigmoid : ∀ x alpha beta t zero one,
    Op.hardSigmoid.validate [typeOf x, typeOf alpha, typeOf beta] [] = .ok [t] →
    ConstantData.splat? (typeOf x).element .zero = some zero → ConstantData.splat? (typeOf x).element .one = some one →
    I.apply .hardSigmoid [x, alpha, beta] =
      I.apply (.binary .minimum .numpy) (I.apply (.binary .maximum .numpy) (I.apply (.binary .add .numpy)
        (I.apply (.binary .multiply .numpy) [alpha, x] ++ [beta]) ++ I.apply (.constant (.scalar zero)) []) ++
          I.apply (.constant (.scalar one)) [])
  convert_self : ∀ x, I.apply (.convert (typeOf x).element) [x] = [x]
  transpose_range : ∀ x rank, (typeOf x).rank? = some rank → I.apply (.transpose (some (List.range rank))) [x] = [x]
  transpose_reverse : ∀ x rank, (typeOf x).rank? = some rank → rank ≤ 1 → I.apply (.transpose none) [x] = [x]
  reshape_self : ∀ target copyZeros x y, I.apply (.reshape target copyZeros) [x] = [y] →
    (typeOf x).shape.isStatic = true → (typeOf y).shape = (typeOf x).shape → y = x

section

variable {I : Interpretation D} {typeOf : D → TensorType} {g : Graph}

theorem Conforms.denotes (hconf : I.Conforms typeOf g) {v : ValueId} {n : Node} (hn : g.producer? v = some n) :
    ∃ d, I.denote g v = some d := by
  obtain ⟨val, hval, -⟩ := producer?_eq_some hn
  obtain ⟨d, hd, -⟩ := hconf v val.type (by rw [type?, hval, Option.map_some])
  exact ⟨d, hd⟩

theorem Typed.length_le_one (hI : I.Typed typeOf) {op : Op} (hsplit : op.type ≠ .split) (ds : List D) :
    (I.apply op ds).length ≤ 1 := by
  by_cases hnil : I.apply op ds = []
  · simp [hnil]
  · obtain ⟨types, hvalid, hall⟩ := hI.sound op ds hnil
    rw [← hall.length_eq, Op.length_of_validate hsplit hvalid]

theorem Typed.length_binary_le (hI : I.Typed typeOf) {op : BinaryOp} {b : Broadcast} {ds : List D} :
    (I.apply (.binary op b) ds).length ≤ 1 := hI.length_le_one (by simp [Op.type]) ds

theorem Typed.length_constant_le (hI : I.Typed typeOf) {c : Constant} {ds : List D} :
    (I.apply (.constant c) ds).length ≤ 1 := hI.length_le_one (by simp [Op.type]) ds

theorem Typed.apply_of_denote (hI : I.Typed typeOf) (hg : g.WellFormed) {v : ValueId} {n : Node}
    (hn : g.producer? v = some n) (hparameter : n.op.type ≠ .parameter) (hsplit : n.op.type ≠ .split)
    {d : D} (hd : I.denote g v = some d) : ∃ ds, n.inputs.map (I.denote g) = ds.map some ∧ I.apply n.op ds = [d] := by
  obtain ⟨ds, i, hds, hi⟩ := inputs_of_denote hg hn hparameter hd
  refine ⟨ds, hds, ?_⟩
  have hlen := hI.length_le_one hsplit ds
  match hout : I.apply n.op ds, i with
  | [], _ => simp [hout] at hi
  | [d'], 0 => simpa [hout] using hi
  | [d'], i + 1 => simp [hout] at hi
  | _ :: _ :: _, _ => simp [hout] at hlen

/-- A binary operation that gives an output has two operands. -/
theorem Typed.binary_append (hI : I.Typed typeOf) {op : BinaryOp} {b : Broadcast} {xs ys : List D} {d : D}
    (hd : I.apply (.binary op b) (xs ++ ys) = [d]) (hx : xs.length ≤ 1) (hy : ys.length ≤ 1) :
    ∃ x y, xs = [x] ∧ ys = [y] ∧ I.apply (.binary op b) [x, y] = [d] := by
  obtain ⟨types, hvalid, -⟩ := hI.sound _ _ (hd ▸ List.cons_ne_nil d [])
  obtain ⟨_, _, _, htypes, -⟩ := Op.validate_binary.1 hvalid
  have hlen : xs.length + ys.length = 2 := by simpa using congrArg List.length htypes
  obtain ⟨x, rfl⟩ := List.length_eq_one_iff.1 (show xs.length = 1 by omega)
  obtain ⟨y, rfl⟩ := List.length_eq_one_iff.1 (show ys.length = 1 by omega)
  exact ⟨x, y, rfl, rfl, hd⟩

/-! ### What the laws say of denotations -/

/-- Less is known of the first operand, so the operation is accepted. -/
theorem validate_binary_of_relaxes {op : BinaryOp} {b : Broadcast} {p p' z s : TensorType} (hp : p.relaxes p' = true)
    (h : (Op.binary op b).validate [p', z] [] = .ok [s]) : ∃ s', (Op.binary op b).validate [p, z] [] = .ok [s'] := by
  have hless : LessKnown [p, z] [] [p', z] [] := ⟨.cons hp (.cons z.relaxes_self .nil), fun _ => Or.inl rfl, nofun⟩
  rcases Op.claimsNoMore_of_orderFits hless h trivial with ⟨_, _, _, hop, -⟩ | ⟨outs, hvalid, -⟩
  · cases hop
  · obtain ⟨_, _, s', -, -, rfl⟩ := Op.validate_binary.1 hvalid
    exact ⟨s', hvalid⟩

variable (hI : I.Typed typeOf) (hlaws : I.Laws typeOf)

include hI hlaws

theorem fused_of_sum {b b' : Broadcast} {x y z p s : D} (hp : I.apply (.binary .multiply b) [x, y] = [p])
    (hs : I.apply (.binary .add b') [p, z] = [s]) : I.apply .fusedMultiplyAdd [x, y, z] = [s] := by
  obtain ⟨types, hmultiply, hall⟩ := hI.sound _ _ (hp ▸ List.cons_ne_nil p [])
  rw [hp] at hall
  obtain ⟨t, hrel, rfl⟩ : ∃ t, t.relaxes (typeOf p) = true ∧ types = [t] := by
    obtain ⟨t, _, hrel, hnil, rfl⟩ := List.forall₂_cons_right_iff.1 hall
    rw [List.forall₂_nil_right_iff.1 hnil]
    exact ⟨t, hrel, rfl⟩
  obtain ⟨types, hadd, -⟩ := hI.sound _ _ (hs ▸ List.cons_ne_nil s [])
  obtain ⟨_, _, u, -, -, rfl⟩ := Op.validate_binary.1 hadd
  obtain ⟨u', hadd'⟩ := validate_binary_of_relaxes hrel hadd
  rw [← hlaws.multiply_add b b' x y z t u' hmultiply hadd', hp]
  exact hs

theorem sum_of_fused {x y z s : D} (hs : I.apply .fusedMultiplyAdd [x, y, z] = [s]) :
    ∃ p, I.apply (.binary .multiply .numpy) [x, y] = [p] ∧ I.apply (.binary .add .numpy) [p, z] = [s] := by
  obtain ⟨types, hvalid, -⟩ := hI.sound _ _ (hs ▸ List.cons_ne_nil s [])
  obtain ⟨_, _, _, u, hins, hinfer, -⟩ := Op.validate_fusedMultiplyAdd.1 hvalid
  simp only [List.map_cons, List.map_nil, List.cons.injEq, and_true] at hins
  obtain ⟨rfl, rfl, rfl⟩ := hins
  obtain ⟨t, hproduct, hsum⟩ := bind_eq_ok.1 hinfer
  have hmultiply : (Op.binary .multiply .numpy).validate [typeOf x, typeOf y] [] = .ok [t] :=
    Op.validate_binary.2 ⟨_, _, t, rfl, (Op.binary_of_not_isComparison rfl _ _ _).trans hproduct, rfl⟩
  have hadd : (Op.binary .add .numpy).validate [t, typeOf z] [] = .ok [u] :=
    Op.validate_binary.2 ⟨_, _, u, rfl, (Op.binary_of_not_isComparison rfl _ _ _).trans hsum, rfl⟩
  rw [← hlaws.multiply_add _ _ x y z t u hmultiply hadd] at hs
  obtain ⟨p, z', hp, hz, hsum⟩ := hI.binary_append hs hI.length_binary_le (Nat.le_refl 1)
  obtain rfl := (List.cons.inj hz).1
  exact ⟨p, hp, hsum⟩

/-- The steps of the expansion of a hard sigmoid, each with what it gives. -/
theorem clamped_of_hardSigmoid {x alpha beta s : D} (hs : I.apply .hardSigmoid [x, alpha, beta] = [s])
    {zero one : ConstantData} (hzero : ConstantData.splat? (typeOf x).element .zero = some zero)
    (hone : ConstantData.splat? (typeOf x).element .one = some one) :
    ∃ scaled shifted lower zero' one', I.apply (.binary .multiply .numpy) [alpha, x] = [scaled] ∧
      I.apply (.binary .add .numpy) [scaled, beta] = [shifted] ∧ I.apply (.constant (.scalar zero)) [] = [zero'] ∧
      I.apply (.binary .maximum .numpy) [shifted, zero'] = [lower] ∧ I.apply (.constant (.scalar one)) [] = [one'] ∧
      I.apply (.binary .minimum .numpy) [lower, one'] = [s] := by
  obtain ⟨types, hvalid, -⟩ := hI.sound _ _ (hs ▸ List.cons_ne_nil s [])
  obtain ⟨t, rfl⟩ := List.length_eq_one_iff.1 (Op.length_of_validate (by simp [Op.type]) hvalid)
  rw [hlaws.hard_sigmoid x alpha beta t zero one hvalid hzero hone] at hs
  obtain ⟨lower, one', hlower, hone', hs⟩ := hI.binary_append hs hI.length_binary_le hI.length_constant_le
  obtain ⟨shifted, zero', hshifted, hzero', hlower⟩ :=
    hI.binary_append hlower hI.length_binary_le hI.length_constant_le
  obtain ⟨scaled, beta', hscaled, hbeta, hshifted⟩ :=
    hI.binary_append hshifted hI.length_binary_le (Nat.le_refl 1)
  obtain rfl := (List.cons.inj hbeta).1
  exact ⟨scaled, shifted, lower, zero', one', hscaled, hshifted, hzero', hlower, hone', hs⟩

end

end Interpretation
end TensorGraph
