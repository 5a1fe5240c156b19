import TensorGraph.Op.Infer
import TensorGraph.Proofs.Information.Broadcast
import TensorGraph.Proofs.Information.Join
import TensorGraph.Proofs.Op.MatMul
/-!
# Matrices — the product of transposed operands

An operand is read as a stack of matrices, and a flag only exchanges rows and columns of what is read; so does an
exchange of the last two dimensions (`ofDims?_exchangeLast`).  The right operand is read as the left one would be, and
transposed (`ofRightDims?_eq`).  A product of the operands in the other order, each of them transposed, therefore
merges and broadcasts the same dimensions, and leaves rows and columns the other way round.
-/
namespace TensorGraph

/-! ## The last two dimensions -/

/-- Exchange the last two dimensions, if there are two. -/
def Dimension.exchangeLast : List Dimension → List Dimension
  | [rows, columns] => [columns, rows]
  | d :: ds => d :: exchangeLast ds
  | [] => []

namespace Shape

/-- Exchange the last two dimensions, if they are known to exist. -/
def exchangeLast : Shape → Shape
  | unknown => unknown
  | ranked dims => ranked (Dimension.exchangeLast dims)

/-- There are two dimensions to be exchanged. -/
def hasLastTwo (s : Shape) : Bool := s.rank?.any (2 ≤ ·)

theorem exists_vector {s : Shape} (h : s.rank? = some 1) : ∃ d, s = ranked [d] := by
  cases s with
  | unknown => cases h
  | ranked dims =>
    obtain ⟨d, rfl⟩ := List.length_eq_one_iff.1 (Option.some.inj h)
    exact ⟨d, rfl⟩

end Shape

def TensorType.exchangeLast (t : TensorType) : TensorType := ⟨t.element, t.shape.exchangeLast⟩

namespace Dimension

theorem exchangeLast_cons (d : Dimension) {ds : List Dimension} (h : 2 ≤ ds.length) :
    exchangeLast (d :: ds) = d :: exchangeLast ds :=
  match ds, h with
  | _ :: _ :: _, _ => rfl

theorem exchangeLast_append (rows columns : Dimension) :
    ∀ ds : List Dimension, exchangeLast (ds ++ [rows, columns]) = ds ++ [columns, rows]
  | [] => rfl
  | d :: ds => by
    rw [List.cons_append, exchangeLast_cons d (by simp), exchangeLast_append rows columns ds, List.cons_append]

/-- **Dimensions are none, one, or some and two.** -/
theorem exists_last : ∀ dims : List Dimension,
    dims = [] ∨ (∃ d, dims = [d]) ∨ ∃ ds rows columns, dims = ds ++ [rows, columns]
  | [] => Or.inl rfl
  | [d] => Or.inr (Or.inl ⟨d, rfl⟩)
  | d :: d' :: dims => by
    right; right
    rcases exists_last (d' :: dims) with h | ⟨e, h⟩ | ⟨ds, rows, columns, h⟩
    · cases h
    · exact ⟨[], d, e, congrArg (d :: ·) h⟩
    · exact ⟨d :: ds, rows, columns, congrArg (d :: ·) h⟩

end Dimension

namespace Infer

variable {ta tb : Bool} {a b t u : TensorType} {x y : Matrices} {dims as bs : List Dimension} {p q s : Shape}

namespace Matrices

theorem ofDims?_append (flip : Bool) (ds : List Dimension) (rows columns : Dimension) :
    ofDims? flip (ds ++ [rows, columns]) =
      some (if flip then ⟨ds, columns, rows, false⟩ else ⟨ds, rows, columns, false⟩) := by
  cases flip <;> simp [ofDims?, transpose]

/-- **A flag exchanges the last two dimensions**, and does nothing to a vector. -/
theorem ofDims?_exchangeLast (flip : Bool) (dims : List Dimension) :
    ofDims? flip (Dimension.exchangeLast dims) = ofDims? (!flip) dims := by
  obtain rfl | ⟨d, rfl⟩ | ⟨ds, rows, columns, rfl⟩ := Dimension.exists_last dims
  · rfl
  · rfl
  · rw [Dimension.exchangeLast_append, ofDims?_append, ofDims?_append]
    cases flip <;> rfl

/-- **The right operand is read as the left one would be, and transposed.** -/
theorem ofRightDims?_eq (flip : Bool) (dims : List Dimension) :
    ofRightDims? flip dims = (ofDims? (!flip) dims).map transpose := by
  rw [ofRightDims?]
  obtain rfl | ⟨d, rfl⟩ | ⟨ds, rows, columns, rfl⟩ := Dimension.exists_last dims
  · rfl
  · rfl
  · rw [ofDims?_append, ofDims?_append]
    cases flip <;> rfl

theorem ofVector_of_ofDims? {flip : Bool} (h : ofDims? flip dims = some x) :
    x.ofVector = !(Shape.ranked dims).hasLastTwo := by
  obtain rfl | ⟨d, rfl⟩ | ⟨ds, rows, columns, rfl⟩ := Dimension.exists_last dims
  · cases h
  · rw [← Option.some.inj h]
    rfl
  · rw [ofDims?_append] at h
    rw [← Option.some.inj h]
    cases flip <;> simp [Shape.hasLastTwo, Shape.rank?, Shape.dims?]

/-- **A vector leaves no axis, and two matrices leave theirs the other way round.** -/
theorem productDims_transpose (x y : Matrices) (stack : List Dimension) : y.productDims x.transpose stack =
    if !x.ofVector && !y.ofVector then Dimension.exchangeLast (x.productDims y.transpose stack)
    else x.productDims y.transpose stack := by
  unfold productDims transpose
  cases x.ofVector <;> cases y.ofVector <;> simp [Dimension.exchangeLast_append]

/-- **Matrices have a product with matrices that are still to be transposed**: the columns merge, the stacks broadcast,
and this is the shape. -/
structure HaveProduct (x y : Matrices) (s : Shape) : Prop where
  columns : ∃ d, x.columns.merge y.columns = .ok d
  stack : ∃ ds, (Shape.ranked x.stack).broadcast (.ranked y.stack) = .ok (.ranked ds) ∧
    s = .ranked (x.productDims y.transpose ds)

/-- **The product the other way round.** -/
theorem HaveProduct.symm (h : HaveProduct x y s) :
    HaveProduct y x (if !x.ofVector && !y.ofVector then s.exchangeLast else s) := by
  obtain ⟨⟨d, hd⟩, ds, hds, rfl⟩ := h
  refine ⟨⟨d, (Dimension.merges.comm _ _ _).1 hd⟩, ds, Shape.broadcast_comm.1 hds, ?_⟩
  rw [productDims_transpose x y]
  split <;> rfl

end Matrices

open Matrices (HaveProduct)

theorem productShape_unknown_right (s : Shape) : productShape ta tb s .unknown = .ok .unknown := by cases s <;> rfl

/-- **Shapes have the product of their matrices**, if the ranks are known. -/
theorem productShape_ranked_eq_ok : productShape ta tb (.ranked as) (.ranked bs) = .ok s ↔
    ∃ x y, Matrices.ofDims? ta as = some x ∧ Matrices.ofDims? (!tb) bs = some y ∧ HaveProduct x y s := by
  rw [productShape, Matrices.ofRightDims?_eq]
  cases Matrices.ofDims? ta as with
  | none => simp
  | some x =>
    cases Matrices.ofDims? (!tb) bs with
    | none => simp
    | some y =>
      constructor
      · intro h
        obtain ⟨d, hd, h⟩ := bind_eq_ok.1 h
        obtain ⟨stack, hstack, h⟩ := bind_eq_ok.1 h
        have hstack := mapError_eq_ok.1 hstack
        obtain ⟨ds, rfl, -⟩ := Shape.ranked_broadcast_eq_ok.1 hstack
        exact ⟨x, y, rfl, rfl, ⟨d, mapError_eq_ok.1 hd⟩, ds, hstack, (Except.ok.inj h).symm⟩
      · rintro ⟨x', y', hx, hy, ⟨d, hd⟩, ds, hds, rfl⟩
        obtain rfl := Option.some.inj hx
        obtain rfl := Option.some.inj hy
        exact bind_eq_ok.2 ⟨d, mapError_eq_ok.2 hd, bind_eq_ok.2 ⟨_, mapError_eq_ok.2 hds, rfl⟩⟩

/-! ## Flags -/

theorem productShape_exchangeLeft (ta tb : Bool) (a b s : Shape) :
    productShape ta tb a.exchangeLast b = .ok s ↔ productShape (!ta) tb a b = .ok s := by
  cases a with
  | unknown => rfl
  | ranked as =>
    cases b with
    | unknown => rfl
    | ranked bs =>
      rw [Shape.exchangeLast, productShape_ranked_eq_ok, productShape_ranked_eq_ok, Matrices.ofDims?_exchangeLast]

theorem productShape_exchangeRight (ta tb : Bool) (a b s : Shape) :
    productShape ta tb a b.exchangeLast = .ok s ↔ productShape ta (!tb) a b = .ok s := by
  cases b with
  | unknown => rw [Shape.exchangeLast, productShape_unknown_right, productShape_unknown_right]
  | ranked bs =>
    cases a with
    | unknown => rfl
    | ranked as =>
      rw [Shape.exchangeLast, productShape_ranked_eq_ok, productShape_ranked_eq_ok, Matrices.ofDims?_exchangeLast]

/-- **The product of the transposed operands in the other order is transposed**, unless there is a vector. -/
theorem productShape_swap (h : productShape ta tb p q = .ok s) :
    productShape (!tb) (!ta) q p = .ok (if p.hasLastTwo && q.hasLastTwo then s.exchangeLast else s) := by
  cases p with
  | unknown =>
    obtain rfl := Except.ok.inj h
    exact (productShape_unknown_right q).trans (congrArg Except.ok (ite_self Shape.unknown).symm)
  | ranked as =>
    cases q with
    | unknown =>
      obtain rfl := Except.ok.inj h
      exact congrArg Except.ok (ite_self Shape.unknown).symm
    | ranked bs =>
      obtain ⟨x, y, hx, hy, hxy⟩ := productShape_ranked_eq_ok.1 h
      have hyx := hxy.symm
      rw [Matrices.ofVector_of_ofDims? hx, Matrices.ofVector_of_ofDims? hy, Bool.not_not, Bool.not_not] at hyx
      exact productShape_ranked_eq_ok.2 ⟨y, x, hy, by rwa [Bool.not_not], hyx⟩

theorem productShape_vector_left (h : p.rank? = some 1) (ta tb : Bool) :
    productShape (!ta) tb p q = productShape ta tb p q := by
  obtain ⟨d, rfl⟩ := Shape.exists_vector h
  cases q <;> rfl

theorem productShape_vector_right (h : q.rank? = some 1) (ta tb : Bool) :
    productShape ta (!tb) p q = productShape ta tb p q := by
  obtain ⟨d, rfl⟩ := Shape.exists_vector h
  cases p <;> rfl

/-! ## Types -/

theorem matMul_eq_ok : matMul ta tb a b = .ok t ↔
    a.element.merge b.element = .ok t.element ∧ productShape ta tb a.shape b.shape = .ok t.shape := by
  rw [matMul_eq, bind_eq_ok]
  constructor
  · rintro ⟨e, he, h⟩
    obtain ⟨s, hs, h⟩ := bind_eq_ok.1 h
    obtain rfl := Except.ok.inj h
    exact ⟨mergeElements_pair_eq_ok.1 he, hs⟩
  · rintro ⟨he, hs⟩
    exact ⟨_, mergeElements_pair_eq_ok.2 he, bind_eq_ok.2 ⟨_, hs, rfl⟩⟩

/-- **To exchange the last two dimensions is to turn the flag.** -/
theorem matMul_exchangeLeft : matMul ta tb a.exchangeLast b = .ok t ↔ matMul (!ta) tb a b = .ok t := by
  simp only [matMul_eq_ok, TensorType.exchangeLast, productShape_exchangeLeft]

theorem matMul_exchangeRight : matMul ta tb a b.exchangeLast = .ok t ↔ matMul ta (!tb) a b = .ok t := by
  simp only [matMul_eq_ok, TensorType.exchangeLast, productShape_exchangeRight]

theorem matMul_vector_left (h : a.rank? = some 1) (ta tb : Bool) : matMul (!ta) tb a b = matMul ta tb a b := by
  rw [matMul_eq, matMul_eq, productShape_vector_left h]

theorem matMul_vector_right (h : b.rank? = some 1) (ta tb : Bool) : matMul ta (!tb) a b = matMul ta tb a b := by
  rw [matMul_eq, matMul_eq, productShape_vector_right h]

/-- **The product in the other order**, as a type. -/
theorem matMul_swap (h : matMul ta tb a b = .ok t) :
    ∃ u, matMul (!tb) (!ta) b a = .ok u ∧ u.element = t.element ∧
      u.shape = if a.shape.hasLastTwo && b.shape.hasLastTwo then t.shape.exchangeLast else t.shape := by
  obtain ⟨he, hs⟩ := matMul_eq_ok.1 h
  refine ⟨⟨t.element, if a.shape.hasLastTwo && b.shape.hasLastTwo then t.shape.exchangeLast else t.shape⟩, ?_, rfl, rfl⟩
  exact matMul_eq_ok.2 ⟨(ElementType.merges.comm _ _ _).1 he, productShape_swap hs⟩

end Infer

namespace Op

open Infer

variable {ta tb : Bool} {a b : TensorType} {values : List (Option ConstantData)} {outs : List TensorType}

theorem validate_matMul (ta tb : Bool) (a b : TensorType) (values : List (Option ConstantData)) :
    (matMul ta tb).validate [a, b] values = (do return [← Infer.matMul ta tb a b]) := rfl

theorem validate_matMul_eq_ok : (matMul ta tb).validate [a, b] values = .ok outs ↔
    ∃ t, Infer.matMul ta tb a b = .ok t ∧ outs = [t] := by
  rw [validate_matMul]
  exact single_eq_ok

theorem validate_matMul_swap (h : (matMul ta tb).validate [a, b] values = .ok outs) :
    ∃ t u, outs = [t] ∧ (matMul (!tb) (!ta)).validate [b, a] values = .ok [u] ∧ u.element = t.element ∧
      u.shape = if a.shape.hasLastTwo && b.shape.hasLastTwo then t.shape.exchangeLast else t.shape := by
  obtain ⟨t, ht, rfl⟩ := validate_matMul_eq_ok.1 h
  obtain ⟨u, hu, hut⟩ := matMul_swap ht
  exact ⟨t, u, rfl, validate_matMul_eq_ok.2 ⟨u, hu, rfl⟩, hut⟩

/-- **Products respect transposition**, whatever is known about the operands.  To set a flag is to exchange the last two
dimensions of the operand, and is nothing for a vector.  The product of the operands in the other order, each of them
transposed, has a type whenever the product has one, with the same element type; its shape is the transposed shape if
both operands are matrices, or stacks of them, and the same shape if one is a vector or of unknown rank. -/
theorem matMul_transposes (ta tb : Bool) (a b : TensorType) (values : List (Option ConstantData)) :
    (∀ outs, (matMul true tb).validate [a, b] values = .ok outs ↔
      (matMul false tb).validate [a.exchangeLast, b] values = .ok outs) ∧
    (∀ outs, (matMul ta true).validate [a, b] values = .ok outs ↔
      (matMul ta false).validate [a, b.exchangeLast] values = .ok outs) ∧
    (a.rank? = some 1 →
      (matMul true tb).validate [a, b] values = (matMul false tb).validate [a, b] values) ∧
    (b.rank? = some 1 →
      (matMul ta true).validate [a, b] values = (matMul ta false).validate [a, b] values) ∧
    ((∃ outs, (matMul ta tb).validate [a, b] values = .ok outs) ↔
      ∃ outs, (matMul (!tb) (!ta)).validate [b, a] values = .ok outs) ∧
    ∀ outs, (matMul ta tb).validate [a, b] values = .ok outs →
      ∃ t u, outs = [t] ∧ (matMul (!tb) (!ta)).validate [b, a] values = .ok [u] ∧ u.element = t.element ∧
        u.shape = if a.shape.hasLastTwo && b.shape.hasLastTwo then t.shape.exchangeLast else t.shape := by
  have hswap : ∀ {ta tb a b}, (∃ outs, (matMul ta tb).validate [a, b] values = .ok outs) →
      ∃ outs, (matMul (!tb) (!ta)).validate [b, a] values = .ok outs := fun ⟨_, h⟩ =>
    let ⟨_, u, _, hu, _⟩ := validate_matMul_swap h
    ⟨[u], hu⟩
  refine ⟨fun outs => ?_, fun outs => ?_, fun ha => ?_, fun hb => ?_, ⟨hswap, fun h => ?_⟩,
    fun outs => validate_matMul_swap⟩
  · simp only [validate_matMul_eq_ok, matMul_exchangeLeft, Bool.not_false]
  · simp only [validate_matMul_eq_ok, matMul_exchangeRight, Bool.not_false]
  · rw [validate_matMul, validate_matMul, ← matMul_vector_left ha, Bool.not_true]
  · rw [validate_matMul, validate_matMul, ← matMul_vector_right hb, Bool.not_true]
  · have := hswap h
    rwa [Bool.not_not, Bool.not_not] at this

/-- A stack of matrices times the transposes of others; a vector times transposed matrices. -/
theorem matMul_transposes_of_stacks :
    (matMul false true).validate
        [⟨.f32, .ranked [.dynamic, .fixed 1, .fixed 2, .fixed 3]⟩, ⟨.dynamic, .ranked [.fixed 6, .fixed 4, .fixed 3]⟩]
        [] = .ok [⟨.f32, .ranked [.dynamic, .fixed 6, .fixed 2, .fixed 4]⟩] ∧
    (matMul false true).validate
        [⟨.dynamic, .ranked [.fixed 6, .fixed 4, .fixed 3]⟩, ⟨.f32, .ranked [.dynamic, .fixed 1, .fixed 2, .fixed 3]⟩]
        [] = .ok [⟨.f32, .ranked [.dynamic, .fixed 6, .fixed 4, .fixed 2]⟩] ∧
    (matMul true true).validate [⟨.f32, .ranked [.fixed 3]⟩, ⟨.f32, .ranked [.fixed 4, .fixed 3]⟩] [] =
      (matMul false true).validate [⟨.f32, .ranked [.fixed 3]⟩, ⟨.f32, .ranked [.fixed 4, .fixed 3]⟩] [] := by
  obtain ⟨-, hright, -, -, -, hswap⟩ := matMul_transposes false true
    ⟨.f32, .ranked [.dynamic, .fixed 1, .fixed 2, .fixed 3]⟩ ⟨.dynamic, .ranked [.fixed 6, .fixed 4, .fixed 3]⟩ []
  obtain ⟨-, -, hvector, -⟩ := matMul_transposes false true
    ⟨.f32, .ranked [.fixed 3]⟩ ⟨.f32, .ranked [.fixed 4, .fixed 3]⟩ []
  obtain ⟨_, ⟨_, _⟩, ht, hu, he, hs⟩ := hswap _ rfl
  cases ht
  cases he
  cases hs
  exact ⟨(hright _).2 rfl, hu, hvector rfl⟩

end Op
end TensorGraph
