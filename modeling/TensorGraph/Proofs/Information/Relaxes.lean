import Mathlib.Data.List.Forall2
import TensorGraph.TensorType
/-!
# Relaxes — the information order

One type relaxes another if it claims no more.  A dimension or an element type that says anything
relaxes only itself, and a shape of known rank relaxes the shapes of that rank which agree with it
wherever it has a size.  `RelaxesAll` is the order on lists of dimensions, position by position.
-/
namespace TensorGraph

theorem ElementType.relaxes_iff {a b : ElementType} : a.relaxes b = true ↔ a = .dynamic ∨ a = b := by
  simp [relaxes, isDynamic]

@[simp] theorem ElementType.relaxes_self (a : ElementType) : a.relaxes a = true := relaxes_iff.2 (Or.inr rfl)

theorem ElementType.relaxes_trans {a b c : ElementType} (hab : a.relaxes b = true) (hbc : b.relaxes c = true) :
    a.relaxes c = true := by
  rcases relaxes_iff.1 hab with rfl | rfl
  · rfl
  · exact hbc

namespace Dimension

theorem relaxes_iff {a b : Dimension} : a.relaxes b = true ↔ a = .dynamic ∨ a = b := by
  cases a <;> simp [relaxes, eq_comm]

@[simp] theorem relaxes_self (a : Dimension) : a.relaxes a = true := relaxes_iff.2 (Or.inr rfl)

theorem eq_of_fixed_relaxes {n : Nat} {d : Dimension} (h : (fixed n).relaxes d = true) : d = fixed n := by
  simpa [relaxes] using h

theorem relaxes_trans {a b c : Dimension} (hab : a.relaxes b = true) (hbc : b.relaxes c = true) :
    a.relaxes c = true := by
  rcases relaxes_iff.1 hab with rfl | rfl
  · rfl
  · exact hbc

/-- Position by position, the first list claims no more. -/
abbrev RelaxesAll : List Dimension → List Dimension → Prop := List.Forall₂ (fun x y => x.relaxes y = true)

namespace RelaxesAll

variable {xs ys zs : List Dimension}

theorem refl (xs : List Dimension) : RelaxesAll xs xs := List.forall₂_same.2 (fun x _ => x.relaxes_self)

theorem trans : ∀ {xs ys zs : List Dimension}, RelaxesAll xs ys → RelaxesAll ys zs → RelaxesAll xs zs
  | _, _, _, .nil, .nil => .nil
  | _, _, _, .cons h hs, .cons k ks => .cons (relaxes_trans h k) (RelaxesAll.trans hs ks)

theorem append {xs' ys' : List Dimension} (h : RelaxesAll xs ys) (h' : RelaxesAll xs' ys') :
    RelaxesAll (xs ++ xs') (ys ++ ys') := List.rel_append h h'

theorem replicate_dynamic : ∀ ys : List Dimension, RelaxesAll (List.replicate ys.length .dynamic) ys
  | [] => .nil
  | _ :: ys => .cons rfl (replicate_dynamic ys)

theorem reverse (h : RelaxesAll xs ys) : RelaxesAll xs.reverse ys.reverse := List.rel_reverse h

theorem take (n : Nat) (h : RelaxesAll xs ys) : RelaxesAll (xs.take n) (ys.take n) := List.forall₂_take n h

theorem drop (n : Nat) (h : RelaxesAll xs ys) : RelaxesAll (xs.drop n) (ys.drop n) := List.forall₂_drop n h

theorem getElem? (h : RelaxesAll xs ys) (i : Nat) :
    Option.Rel (fun x y => x.relaxes y = true) xs[i]? ys[i]? := by
  induction h generalizing i with
  | nil => exact .none
  | cons hxy _ ih =>
    cases i with
    | zero => exact .some hxy
    | succ i => exact ih i

theorem getD (h : RelaxesAll xs ys) (i : Nat) : (xs.getD i .dynamic).relaxes (ys.getD i .dynamic) = true := by
  have hi := h.getElem? i
  rw [List.getD_eq_getElem?_getD, List.getD_eq_getElem?_getD]
  cases hx : xs[i]? with
  | none => rfl
  | some x =>
    rw [hx] at hi
    cases hy : ys[i]? with
    | none => rw [hy] at hi; cases hi
    | some y =>
      rw [hy] at hi
      cases hi with
      | some hxy => exact hxy

theorem set {x y : Dimension} (h : RelaxesAll xs ys) (hxy : x.relaxes y = true) (i : Nat) :
    RelaxesAll (xs.set i x) (ys.set i y) := by
  induction h generalizing i with
  | nil => exact .nil
  | cons h hs ih =>
    cases i with
    | zero => exact .cons hxy hs
    | succ i => exact .cons h (ih i)

/-- Forgetting one dimension. -/
theorem mapIdx {f : Nat → Dimension → Dimension} (h : RelaxesAll xs ys)
    (hf : ∀ i x y, x.relaxes y = true → (f i x).relaxes (f i y) = true) :
    RelaxesAll (xs.mapIdx f) (ys.mapIdx f) := by
  induction h generalizing f with
  | nil => exact .nil
  | cons hxy _ ih =>
    rw [List.mapIdx_cons, List.mapIdx_cons]
    exact .cons (hf 0 _ _ hxy) (ih (fun i => hf (i + 1)))

/-- Dimensions that are all known relax only themselves. -/
theorem eq_of_static : ∀ {xs ys : List Dimension}, RelaxesAll xs ys → xs.all isStatic = true → ys = xs
  | _, _, .nil, _ => rfl
  | .dynamic :: _, _, .cons _ _, hstatic => by simp [isStatic] at hstatic
  | .fixed _ :: _, _, .cons h hs, hstatic => by
    rw [List.all_cons, Bool.and_eq_true] at hstatic
    rw [eq_of_fixed_relaxes h, RelaxesAll.eq_of_static hs hstatic.2]

end RelaxesAll
end Dimension

namespace Shape

open Dimension (RelaxesAll)

@[simp] theorem unknown_relaxes (s : Shape) : unknown.relaxes s = true := rfl

theorem ranked_relaxes_ranked {xs ys : List Dimension} :
    (ranked xs).relaxes (ranked ys) = true ↔ RelaxesAll xs ys := by
  simp only [relaxes, Bool.and_eq_true, decide_eq_true_eq, RelaxesAll, List.forall₂_iff_zip, List.all_eq_true,
    Prod.forall]

theorem ranked_of_relaxes {xs : List Dimension} {s : Shape} (h : (ranked xs).relaxes s = true) :
    ∃ ys, s = ranked ys ∧ RelaxesAll xs ys := by
  cases s with
  | unknown => cases h
  | ranked ys => exact ⟨ys, rfl, ranked_relaxes_ranked.1 h⟩

/-- **The shapes that a shape relaxes**: all of them if its rank is unknown. -/
theorem relaxes_cases {a b : Shape} (h : a.relaxes b = true) :
    a = unknown ∨ ∃ xs ys, a = ranked xs ∧ b = ranked ys ∧ RelaxesAll xs ys := by
  cases a with
  | unknown => exact Or.inl rfl
  | ranked xs =>
    obtain ⟨ys, rfl, hall⟩ := ranked_of_relaxes h
    exact Or.inr ⟨xs, ys, rfl, rfl, hall⟩

@[simp] theorem relaxes_self (s : Shape) : s.relaxes s = true := by
  cases s with
  | unknown => rfl
  | ranked dims => exact ranked_relaxes_ranked.2 (.refl dims)

theorem relaxes_trans {a b c : Shape} (hab : a.relaxes b = true) (hbc : b.relaxes c = true) : a.relaxes c = true := by
  rcases relaxes_cases hab with rfl | ⟨xs, ys, rfl, rfl, hxy⟩
  · rfl
  · obtain ⟨zs, rfl, hyz⟩ := ranked_of_relaxes hbc
    exact ranked_relaxes_ranked.2 (hxy.trans hyz)

theorem ofRank_relaxes {dims : List Dimension} {rank : Nat} (h : dims.length = rank) :
    (ofRank rank).relaxes (ranked dims) = true :=
  ranked_relaxes_ranked.2 (h ▸ RelaxesAll.replicate_dynamic dims)

theorem eq_of_static_relaxes {a b : Shape} (h : a.relaxes b = true) (hstatic : a.isStatic = true) : b = a := by
  rcases relaxes_cases h with rfl | ⟨xs, ys, rfl, rfl, hall⟩
  · cases hstatic
  · rw [hall.eq_of_static hstatic]

/-- A known rank is the rank of every shape that is relaxed. -/
theorem rank?_of_relaxes {a b : Shape} (h : a.relaxes b = true) {rank : Nat} (hr : a.rank? = some rank) :
    b.rank? = some rank := by
  rcases relaxes_cases h with rfl | ⟨xs, ys, rfl, rfl, hall⟩
  · cases hr
  · rw [← hr, rank?, rank?, dims?, dims?, Option.map_some, Option.map_some, hall.length_eq]

end Shape

namespace TensorType

theorem relaxes_iff {a b : TensorType} :
    a.relaxes b = true ↔ a.element.relaxes b.element = true ∧ a.shape.relaxes b.shape = true := by
  rw [relaxes, Bool.and_eq_true]

theorem element_relaxes {a b : TensorType} (h : a.relaxes b = true) : a.element.relaxes b.element = true :=
  (relaxes_iff.1 h).1

theorem shape_relaxes {a b : TensorType} (h : a.relaxes b = true) : a.shape.relaxes b.shape = true :=
  (relaxes_iff.1 h).2

theorem mk_relaxes_mk {e e' : ElementType} {s s' : Shape} (he : e.relaxes e' = true) (hs : s.relaxes s' = true) :
    (⟨e, s⟩ : TensorType).relaxes ⟨e', s'⟩ = true := relaxes_iff.2 ⟨he, hs⟩

theorem rank?_of_relaxes {a b : TensorType} (h : a.relaxes b = true) {rank : Nat} (hr : a.rank? = some rank) :
    b.rank? = some rank := Shape.rank?_of_relaxes (shape_relaxes h) hr

@[simp] theorem relaxes_self (t : TensorType) : t.relaxes t = true :=
  relaxes_iff.2 ⟨t.element.relaxes_self, t.shape.relaxes_self⟩

theorem relaxes_trans {a b c : TensorType} (hab : a.relaxes b = true) (hbc : b.relaxes c = true) :
    a.relaxes c = true :=
  relaxes_iff.2 ⟨ElementType.relaxes_trans (element_relaxes hab) (element_relaxes hbc),
    Shape.relaxes_trans (shape_relaxes hab) (shape_relaxes hbc)⟩

end TensorType
end TensorGraph
