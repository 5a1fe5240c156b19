import TensorGraph.Proofs.Information.Stretch
import TensorGraph.Proofs.Op.Elementwise
import TensorGraph.Registry
/-!
# Swap — the inputs of a commutative operation

The type of a binary operation is made of the element type that both inputs agree on and of their shapes, merged or
broadcast.  All three are joins, so it does not matter which input comes first, and the laws of broadcasting are at
hand where inputs are combined one after the other.
-/
namespace TensorGraph

theorem Broadcast.combine_comm {b : Broadcast} {s t u : Shape} : b.combine s t = .ok u ↔ b.combine t s = .ok u := by
  cases b with
  | exact => exact mapError_eq_ok.trans ((Shape.merges.comm s t u).trans mapError_eq_ok.symm)
  | numpy => exact mapError_eq_ok.trans (Shape.broadcast_comm.trans mapError_eq_ok.symm)

namespace Infer

variable {b : Broadcast} {x y t : TensorType}

theorem arithmetic_comm : arithmetic b x y = .ok t ↔ arithmetic b y x = .ok t := by
  rw [arithmetic_eq_ok, arithmetic_eq_ok, ElementType.merges.comm, Broadcast.combine_comm]

theorem binary_comm (op : BinaryOp) : binary op b x y = .ok t ↔ binary op b y x = .ok t := by
  rw [binary, binary, bind_eq_ok, bind_eq_ok]
  exact exists_congr (fun a => and_congr_left (fun _ => arithmetic_comm))

end Infer

namespace Op

/-- Commutative operations are binary. -/
theorem eq_binary_of_isCommutative {op : Op} (h : op.type.isCommutative = true) : ∃ f b, op = binary f b := by
  cases op with
  | binary f b => exact ⟨f, b, rfl⟩
  | _ => cases h

theorem validate_swap {op : Op} (h : op.type.isCommutative = true) (x y : TensorType)
    (values values' : List (Option ConstantData)) (outs : List TensorType) :
    op.validate [x, y] values = .ok outs ↔ op.validate [y, x] values' = .ok outs := by
  obtain ⟨f, b, rfl⟩ := eq_binary_of_isCommutative h
  rw [validate_binary_pair, validate_binary_pair]
  exact exists_congr (fun t => and_congr_left (fun _ => Infer.binary_comm f))

end Op

/-- The operations that are registered as commutative. -/
theorem Registry.full_isCommutative_iff {t : OpType} : full.isCommutative t = true ↔
    t ∈ [BinaryOp.add, .multiply, .maximum, .minimum, .equal].map OpType.binary := by
  rw [Registry.isCommutative, contains_full, Bool.true_and]
  cases t with
  | binary op => cases op <;> decide
  | _ => simp [OpType.isCommutative]

/-- **Broadcasting is commutative, and on shapes of known rank idempotent and associative, failures included**, with the
scalar shape as its unit; on any shapes the two ways of broadcasting three agree where both succeed.  So the inputs of
an operation that is registered as commutative can be swapped: the same inputs are accepted, with the same type. -/
theorem broadcast_laws :
    (∀ a b c : Shape, a.broadcast b = .ok c ↔ b.broadcast a = .ok c) ∧
    (∀ ds : List Dimension, (Shape.ranked ds).broadcast (.ranked ds) = .ok (.ranked ds) ∧
      Shape.scalar.broadcast (.ranked ds) = .ok (.ranked ds) ∧ (Shape.ranked ds).broadcast .scalar = .ok (.ranked ds)) ∧
    (∀ (ds es fs : List Dimension) (d : Shape),
      ((Shape.ranked ds).broadcast (.ranked es) >>= fun s => s.broadcast (.ranked fs)) = .ok d ↔
        ((Shape.ranked es).broadcast (.ranked fs) >>= fun s => (Shape.ranked ds).broadcast s) = .ok d) ∧
    (∀ a b c d e : Shape, (a.broadcast b >>= fun s => s.broadcast c) = .ok d →
      (b.broadcast c >>= fun s => a.broadcast s) = .ok e → d = e) ∧
    (∀ t, Registry.full.isCommutative t = true ↔
      t ∈ [BinaryOp.add, .multiply, .maximum, .minimum, .equal].map OpType.binary) ∧
    ∀ (r : Registry) (op : Op), r.isCommutative op.type = true →
      ∀ (x y : TensorType) (values values' : List (Option ConstantData)) (outs : List TensorType),
        op.validate [x, y] values = .ok outs ↔ op.validate [y, x] values' = .ok outs := by
  refine ⟨fun _ _ _ => Shape.broadcast_comm,
    fun ds => ⟨Shape.broadcast_self ds, Shape.broadcast_scalar_left _, Shape.broadcast_scalar_right _⟩,
    Shape.broadcast_assoc, fun _ _ _ _ _ => Shape.broadcast_assoc_of_ok, fun _ => Registry.full_isCommutative_iff,
    fun r op h => ?_⟩
  exact Op.validate_swap (Bool.and_eq_true_iff.1 h).2

/-- Three ranks, so that the places shift from one way to the other; and a product of an open extent with 4. -/
theorem broadcast_laws_of_three_ranks :
    (∃ d e : Shape,
      ((Shape.ranked [.dynamic, .fixed 1]).broadcast (.ofSizes [4]) >>= fun s => s.broadcast (.ofSizes [2, 1, 1])) =
        .ok d ∧
      ((Shape.ofSizes [4]).broadcast (.ofSizes [2, 1, 1]) >>= fun s =>
        (Shape.ranked [.dynamic, .fixed 1]).broadcast s) = .ok e ∧
      d = e ∧ d = .ranked [.fixed 2, .dynamic, .fixed 4]) ∧
    Registry.full.isCommutative (Op.binary .multiply .numpy).type = true ∧
    (Op.binary .multiply .numpy).validate [⟨.f32, .ranked [.dynamic, .fixed 1]⟩, ⟨.dynamic, .ofSizes [4]⟩] [] =
      .ok [⟨.f32, .ranked [.dynamic, .fixed 4]⟩] ∧
    (Op.binary .multiply .numpy).validate [⟨.dynamic, .ofSizes [4]⟩, ⟨.f32, .ranked [.dynamic, .fixed 1]⟩] [] =
      .ok [⟨.f32, .ranked [.dynamic, .fixed 4]⟩] := by
  obtain ⟨-, -, -, hagree, -, hswap⟩ := broadcast_laws
  have hleft : ((Shape.ranked [.dynamic, .fixed 1]).broadcast (.ofSizes [4]) >>= fun s =>
      s.broadcast (.ofSizes [2, 1, 1])) = .ok (.ranked [.fixed 2, .dynamic, .fixed 4]) := rfl
  have hright : ((Shape.ofSizes [4]).broadcast (.ofSizes [2, 1, 1]) >>= fun s =>
      (Shape.ranked [.dynamic, .fixed 1]).broadcast s) = .ok (.ranked [.fixed 2, .dynamic, .fixed 4]) := rfl
  exact ⟨⟨_, _, hleft, hright, hagree _ _ _ _ _ hleft hright, rfl⟩, by decide, rfl,
    (hswap .full (.binary .multiply .numpy) (by decide) _ _ [] [] _).1 rfl⟩

/-- An unknown rank absorbs what fails beside it: 2 and 3 clash unless one of them meets it first. -/
example : ((Shape.ofSizes [2]).broadcast (.ofSizes [3]) >>= fun s => s.broadcast .unknown) = .error (.broadcast 2 3) ∧
    ((Shape.ofSizes [3]).broadcast .unknown >>= fun s => (Shape.ofSizes [2]).broadcast s) = .ok .unknown := ⟨rfl, rfl⟩

end TensorGraph
