import TensorGraph.Op.MatMul
import TensorGraph.Proofs.Op.Elementwise
/-!
# Monotone rules: products of matrices

An operand of which less is known is read as a stack of matrices of which less is known, so the
product of such operands is no stricter.
-/
namespace TensorGraph
namespace Infer

open Dimension (RelaxesAll)
open TensorType (mk_relaxes_mk element_relaxes shape_relaxes)

/-- One stack of matrices claims no more than another. -/
structure Matrices.Relaxes (m m' : Matrices) : Prop where
  stack : RelaxesAll m.stack m'.stack
  rows : m.rows.relaxes m'.rows = true
  columns : m.columns.relaxes m'.columns = true
  ofVector : m.ofVector = m'.ofVector

namespace Matrices

theorem Relaxes.transpose {m m' : Matrices} (h : Relaxes m m') : Relaxes m.transpose m'.transpose :=
  ⟨h.stack, h.columns, h.rows, h.ofVector⟩

theorem ofDims?_relaxes (flip : Bool) {dims dims' : List Dimension} (h : RelaxesAll dims dims') :
    Option.Rel Relaxes (ofDims? flip dims) (ofDims? flip dims') := by
  unfold ofDims?
  match dims.reverse, dims'.reverse, h.reverse with
  | _, _, .nil => exact .none
  | _, _, .cons hd .nil => exact .some ⟨.nil, rfl, hd, rfl⟩
  | _, _, .cons hc (.cons hr hs) =>
    cases flip with
    | false => exact .some ⟨RelaxesAll.reverse hs, hr, hc, rfl⟩
    | true => exact .some ⟨RelaxesAll.reverse hs, hc, hr, rfl⟩

theorem ofRightDims?_relaxes (flip : Bool) {dims dims' : List Dimension} (h : RelaxesAll dims dims') :
    Option.Rel Relaxes (ofRightDims? flip dims) (ofRightDims? flip dims') := by
  unfold ofRightDims?
  match ofDims? flip dims, ofDims? flip dims', ofDims?_relaxes flip h with
  | _, _, .none => exact .none
  | some m, some m', .some hm =>
    refine .some ?_
    simp only [hm.ofVector]
    split
    · exact hm.transpose
    · exact hm

theorem productDims_relaxes {m m' k k' : Matrices} (hm : Relaxes m m') (hk : Relaxes k k')
    {stack stack' : List Dimension} (hs : RelaxesAll stack stack') :
    RelaxesAll (m.productDims k stack) (m'.productDims k' stack') := by
  unfold productDims
  rw [hm.ofVector, hk.ofVector]
  refine (hs.append ?_).append ?_
  · split
    · exact .nil
    · exact .cons hm.rows .nil
  · split
    · exact .nil
    · exact .cons hk.columns .nil

end Matrices

/-- The shape of a product, apart from the element type. -/
def productShape (transposeA transposeB : Bool) (a b : Shape) : Except InferError Shape :=
  match a, b with
  | .ranked aDims, .ranked bDims =>
    match Matrices.ofDims? transposeA aDims, Matrices.ofRightDims? transposeB bDims with
    | none, _ => .error (.incorrectRank 0 0)
    | some _, none => .error (.incorrectRank 1 0)
    | some x, some y => do
      let _ ← (x.columns.merge y.rows).mapError (fun _ => .incompatibleShapes a b)
      let stack ← ((Shape.ranked x.stack).broadcast (.ranked y.stack)).mapError (fun _ => .incompatibleShapes a b)
      return .ranked (x.productDims y (stack.dims?.getD []))
  | _, _ => .ok .unknown

theorem matMul_eq (transposeA transposeB : Bool) (a b : TensorType) :
    matMul transposeA transposeB a b = (do
      let element ← mergeElements [a, b]
      let shape ← productShape transposeA transposeB a.shape b.shape
      return ⟨element, shape⟩) := by
  obtain ⟨_, sa⟩ := a
  obtain ⟨_, sb⟩ := b
  unfold matMul productShape
  congr 1
  funext element
  cases sa with
  | unknown => rfl
  | ranked as =>
    cases sb with
    | unknown => rfl
    | ranked bs =>
      simp only
      cases Matrices.ofDims? transposeA as with
      | none => rfl
      | some x =>
        cases Matrices.ofRightDims? transposeB bs with
        | none => rfl
        | some y => simp only [bind_assoc, pure_bind]

theorem stack_noStricter {xs xs' ys ys' : List Dimension} (hx : RelaxesAll xs xs') (hy : RelaxesAll ys ys') :
    NoStricter (fun s t => RelaxesAll (s.dims?.getD []) (t.dims?.getD []))
      ((Shape.ranked xs).broadcast (.ranked ys)) ((Shape.ranked xs').broadcast (.ranked ys')) := by
  unfold Shape.broadcast
  simp only [hx.length_eq, hy.length_eq]
  exact (Dimension.zipEach_noStricter Dimension.broadcast_noStricter (Shape.padTo_relaxes _ hx)
    (Shape.padTo_relaxes _ hy)).map (fun _ _ hall => hall)

theorem productShape_noStricter (transposeA transposeB : Bool) {a a' b b' : Shape} (ha : a.relaxes a' = true)
    (hb : b.relaxes b' = true) :
    NoStricter (fun s t => s.relaxes t = true) (productShape transposeA transposeB a b)
      (productShape transposeA transposeB a' b') := by
  rcases Shape.relaxes_cases ha with rfl | ⟨as, as', rfl, rfl, hall⟩
  · exact .of_ok Shape.unknown_relaxes
  rcases Shape.relaxes_cases hb with rfl | ⟨bs, bs', rfl, rfl, hbll⟩
  · exact .of_ok Shape.unknown_relaxes
  unfold productShape
  simp only
  match Matrices.ofDims? transposeA as, Matrices.ofDims? transposeA as', Matrices.ofDims?_relaxes transposeA hall with
  | _, _, .none => exact .of_error _
  | some m, some m', .some hm =>
    match Matrices.ofRightDims? transposeB bs, Matrices.ofRightDims? transposeB bs',
      Matrices.ofRightDims?_relaxes transposeB hbll with
    | _, _, .none => exact .of_error _
    | some k, some k', .some hk =>
      refine (Dimension.merge_noStricter hm.columns hk.rows).mapError.bind (fun _ _ _ => ?_)
      exact (stack_noStricter hm.stack hk.stack).mapError.bind (fun _ _ hs =>
        .ok (Shape.ranked_relaxes_ranked.2 (Matrices.productDims_relaxes hm hk hs)))

theorem matMul_laxer (transposeA transposeB : Bool) {a a' b b' : TensorType} (ha : a.relaxes a' = true)
    (hb : b.relaxes b' = true) : Laxer (matMul transposeA transposeB a b) (matMul transposeA transposeB a' b') := by
  rw [matMul_eq, matMul_eq]
  exact (mergeElements_noStricter (.cons ha (.cons hb .nil))).bind (fun _ _ he =>
    (productShape_noStricter transposeA transposeB (shape_relaxes ha) (shape_relaxes hb)).bind (fun _ _ hs =>
      .ok (mk_relaxes_mk he hs)))

end Infer
end TensorGraph
