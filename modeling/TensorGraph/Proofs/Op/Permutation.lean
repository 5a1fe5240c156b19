import Mathlib.Data.List.Nodup
import Mathlib.Data.List.Perm.Subperm
import TensorGraph.Op.Infer
import TensorGraph.Proofs.Information.Answers
/-!
# Permutation — transpositions compose like the orders they are given by

An order is accepted if it is a permutation of the axes, and what it leaves is known by its look-ups: output axis `i`
is input axis `order[i]` (`getElem?_reorder`).  So one order after another is the composed order, and an order followed
by its inverse is the order of all axes as they are.  The reversed order is one of them, written as no order at all.
-/
namespace TensorGraph
namespace Infer

variable {order p q : List Nat} {dims : List Dimension} {e : ElementType} {t : TensorType}

/-! ## Orders -/

theorem perm_range_of_nodup {r : Nat} (hnodup : order.Nodup) (hlt : ∀ i ∈ order, i < r) (hlen : order.length = r) :
    order.Perm (List.range r) :=
  (List.Nodup.subperm hnodup (fun i hi => List.mem_range.2 (hlt i hi))).perm_of_length_le
    (Nat.le_of_eq (List.length_range.trans hlen.symm))

theorem mem_iff_of_perm_range {r : Nat} (h : order.Perm (List.range r)) {i : Nat} : i ∈ order ↔ i < r := by
  rw [h.mem_iff, List.mem_range]

theorem length_of_perm_range {r : Nat} (h : order.Perm (List.range r)) : order.length = r := by
  rw [h.length_eq, List.length_range]

theorem forall_unseen_setIfInBounds_iff {axis : Nat} {seen : Array Bool} (hnew : seen[axis]? = some false) :
    (∀ i ∈ order, (seen.setIfInBounds axis true)[i]? = some false) ↔
      axis ∉ order ∧ ∀ i ∈ order, seen[i]? = some false := by
  constructor
  · refine fun h => ⟨fun haxis => ?_, fun i hi => ?_⟩
    · have hset := h axis haxis
      rw [Array.getElem?_setIfInBounds_self] at hset
      split at hset <;> cases hset
    · by_cases hi' : axis = i
      · exact hi' ▸ hnew
      · rw [← Array.getElem?_setIfInBounds_ne hi']
        exact h i hi
  · intro ⟨haxis, h⟩ i hi
    have hne : axis ≠ i := fun he => haxis (he ▸ hi)
    rw [Array.getElem?_setIfInBounds_ne hne]
    exact h i hi

/-- **All axes are checked off if none of them was before, and none comes twice.** -/
theorem checkOff_iff : ∀ {order : List Nat} {seen : Array Bool},
    checkOff seen order = true ↔ (∀ i ∈ order, seen[i]? = some false) ∧ order.Nodup
  | [], seen => by simp [checkOff]
  | axis :: rest, seen => by
    rw [checkOff, List.forall_mem_cons, List.nodup_cons]
    split
    · rename_i hnew
      rw [checkOff_iff, forall_unseen_setIfInBounds_iff hnew]
      exact ⟨fun ⟨⟨haxis, h⟩, hnodup⟩ => ⟨⟨hnew, h⟩, haxis, hnodup⟩, fun ⟨⟨_, h⟩, haxis, hnodup⟩ => ⟨⟨haxis, h⟩, hnodup⟩⟩
    · rename_i hold
      exact iff_of_false Bool.false_ne_true (fun h => hold h.1.1)

/-- What is accepted as a permutation names axes that there are, and none of them twice. -/
theorem isPermutation_iff_nodup : isPermutation order = true ↔ (∀ i ∈ order, i < order.length) ∧ order.Nodup := by
  rw [isPermutation, checkOff_iff]
  refine and_congr_left (fun _ => forall₂_congr (fun i _ => ?_))
  rw [Array.getElem?_replicate]
  split <;> simp_all

/-- **What is accepted as a permutation is one.** -/
theorem isPermutation_iff : isPermutation order = true ↔ order.Perm (List.range order.length) := by
  rw [isPermutation_iff_nodup]
  constructor
  · exact fun ⟨hlt, hnodup⟩ => perm_range_of_nodup hnodup hlt rfl
  · exact fun h => ⟨fun i hi => (mem_iff_of_perm_range h).1 hi, h.nodup_iff.2 List.nodup_range⟩

/-- The order that takes axis `i` from where the first order puts axis `q[i]`. -/
def composed (p q : List Nat) : List Nat := q.map (fun i => p.getD i 0)

/-- The order that puts each axis back. -/
def inverse (p : List Nat) : List Nat := (List.range p.length).map (fun i => p.idxOf i)

@[simp] theorem length_reorder (order : List Nat) (dims : List Dimension) : (reorder order dims).length = order.length :=
  List.length_map _

/-- **Output axis `i` is input axis `order[i]`.** -/
theorem getElem?_reorder (h : ∀ i ∈ order, i < dims.length) (i : Nat) :
    (reorder order dims)[i]? = order[i]?.bind (dims[·]?) := by
  rw [reorder, List.getElem?_map]
  cases hi : order[i]? with
  | none => rfl
  | some j =>
    have hj := h j (List.mem_of_getElem? hi)
    simp [List.getD_eq_getElem?_getD, hj]

theorem reorder_range (ds : List Dimension) : reorder (List.range ds.length) ds = ds := by
  refine List.ext_getElem (by simp [reorder]) (fun i hi hi' => ?_)
  simp [reorder, List.getD_eq_getElem?_getD, hi']

/-- **The reversed order reverses.** -/
theorem reorder_reverse_range (ds : List Dimension) : reorder (List.range ds.length).reverse ds = ds.reverse := by
  rw [reorder, List.map_reverse, ← reorder, reorder_range]

/-- **One order after another is the composed order.** -/
theorem reorder_reorder (h : ∀ i ∈ q, i < p.length) (dims : List Dimension) :
    reorder q (reorder p dims) = reorder (composed p q) dims := by
  rw [reorder, reorder, reorder, composed, List.map_map]
  refine List.map_congr_left (fun i hi => ?_)
  have hlt := h i hi
  simp [List.getD_eq_getElem?_getD, hlt]

/-- **The inverse puts each axis back.** -/
theorem composed_inverse {r : Nat} (h : p.Perm (List.range r)) : composed p (inverse p) = List.range r := by
  rw [composed, inverse, List.map_map, length_of_perm_range h]
  refine (List.map_congr_left (fun i hi => ?_)).trans (List.map_id _)
  have hmem : p.idxOf i < p.length := List.idxOf_lt_length_of_mem ((mem_iff_of_perm_range h).2 (List.mem_range.1 hi))
  simp [List.getD_eq_getElem?_getD, hmem]

theorem inverse_perm {r : Nat} (h : p.Perm (List.range r)) : (inverse p).Perm (List.range r) := by
  have hmem : ∀ i ∈ List.range p.length, i ∈ p := fun i hi =>
    (mem_iff_of_perm_range h).2 (length_of_perm_range h ▸ List.mem_range.1 hi)
  refine perm_range_of_nodup ?_ (fun i hi => ?_) ?_
  · exact List.Nodup.map_on (fun i hi j _ hij => (List.idxOf_inj (hmem i hi)).1 hij) List.nodup_range
  · obtain ⟨j, hj, rfl⟩ := List.mem_map.1 hi
    rw [← length_of_perm_range h]
    exact List.idxOf_lt_length_of_mem (hmem j hj)
  · rw [inverse, List.length_map, List.length_range, length_of_perm_range h]

theorem map_getD_range (p : List Nat) : (List.range p.length).map (fun i => p.getD i 0) = p := by
  refine List.ext_getElem (by simp) (fun i hi hi' => ?_)
  simp [List.getD_eq_getElem?_getD, hi']

/-- **A composed order is a permutation if both orders are**, and only then, if each look-up finds an entry. -/
theorem composed_perm_iff {r : Nat} (hp : p.length = r) (hq : ∀ i ∈ q, i < r) :
    (composed p q).Perm (List.range r) ↔ p.Perm (List.range r) ∧ q.Perm (List.range r) := by
  -- what a permutation looks up is all entries
  have hall : q.Perm (List.range r) → (composed p q).Perm p := fun h => by
    have hmap := h.map (fun i => p.getD i 0)
    rwa [← hp, map_getD_range] at hmap
  constructor
  · intro h
    have hlen : q.length = r := by rw [← length_of_perm_range h, composed, List.length_map]
    have hnodup : q.Nodup := List.Nodup.of_map _ (h.nodup_iff.2 List.nodup_range)
    have hq' := perm_range_of_nodup hnodup hq hlen
    exact ⟨(hall hq').symm.trans h, hq'⟩
  · rintro ⟨hp', hq'⟩
    exact (hall hq').trans hp'

/-! ## Transpositions -/

/-- **An input of known rank is permuted by the permutations of its axes.** -/
theorem permute_ranked_eq_ok : permute ⟨e, .ranked dims⟩ order = .ok t ↔
    order.Perm (List.range dims.length) ∧ t = ⟨e, .ranked (reorder order dims)⟩ := by
  unfold permute
  by_cases hperm : isPermutation order = true
  · rw [hperm, Bool.not_true, if_neg Bool.false_ne_true]
    by_cases hlen : dims.length = order.length
    · simp only [hlen, ne_eq, not_true, if_false, isPermutation_iff.1 hperm, true_and, Except.ok.injEq, eq_comm]
    · simp only [ne_eq, hlen, not_false_eq_true, if_true, reduceCtorEq, false_iff, not_and]
      exact fun h => absurd (length_of_perm_range h).symm hlen
  · rw [Bool.not_eq_true] at hperm
    rw [hperm, Bool.not_false, if_pos rfl]
    simp only [reduceCtorEq, false_iff, not_and]
    intro h
    rw [← length_of_perm_range h, ← isPermutation_iff, hperm] at h
    cases h

/-- **An input of unknown rank is permuted by any permutation**, and then its rank is known. -/
theorem permute_unknown_eq_ok : permute ⟨e, .unknown⟩ order = .ok t ↔
    order.Perm (List.range order.length) ∧ t = ⟨e, Shape.ofRank order.length⟩ := by
  rw [← isPermutation_iff]
  unfold permute
  cases isPermutation order <;> simp [eq_comm]

theorem permute_range (e : ElementType) (dims : List Dimension) :
    permute ⟨e, .ranked dims⟩ (List.range dims.length) = .ok ⟨e, .ranked dims⟩ :=
  permute_ranked_eq_ok.2 ⟨.rfl, by rw [reorder_range]⟩

/-- **One permutation after another is the composed one.** -/
theorem permute_permute (hp : p.length = dims.length) (hq : ∀ i ∈ q, i < dims.length) :
    (permute ⟨e, .ranked dims⟩ p >>= fun y => permute y q) = .ok t ↔ permute ⟨e, .ranked dims⟩ (composed p q) = .ok t := by
  rw [bind_eq_ok, permute_ranked_eq_ok, composed_perm_iff hp hq, ← reorder_reorder (hp ▸ hq)]
  constructor
  · rintro ⟨y, hy, ht⟩
    obtain ⟨hperm, rfl⟩ := permute_ranked_eq_ok.1 hy
    rw [permute_ranked_eq_ok, length_reorder, hp] at ht
    exact ⟨⟨hperm, ht.1⟩, ht.2⟩
  · rintro ⟨⟨hperm, hperm'⟩, rfl⟩
    refine ⟨_, permute_ranked_eq_ok.2 ⟨hperm, rfl⟩, permute_ranked_eq_ok.2 ⟨?_, rfl⟩⟩
    rwa [length_reorder, hp]

/-- **A permutation is undone by its inverse.** -/
theorem permute_inverse (h : permute ⟨e, .ranked dims⟩ p = .ok t) : permute t (inverse p) = .ok ⟨e, .ranked dims⟩ := by
  obtain ⟨hperm, rfl⟩ := permute_ranked_eq_ok.1 h
  have hlen := length_of_perm_range hperm
  have hinverse := inverse_perm hperm
  refine permute_ranked_eq_ok.2 ⟨by rwa [length_reorder, hlen], ?_⟩
  rw [reorder_reorder (fun i hi => hlen ▸ (mem_iff_of_perm_range hinverse).1 hi), composed_inverse hperm, reorder_range]

theorem reverseAxes_reverseAxes (x : TensorType) : reverseAxes (reverseAxes x) = x := by
  obtain ⟨e, s⟩ := x
  cases s with
  | unknown => rfl
  | ranked dims => simp [reverseAxes]

/-- **No order is the reversed one.** -/
theorem permute_reverse_range (e : ElementType) (dims : List Dimension) :
    permute ⟨e, .ranked dims⟩ (List.range dims.length).reverse = .ok (reverseAxes ⟨e, .ranked dims⟩) :=
  permute_ranked_eq_ok.2 ⟨List.reverse_perm _, by rw [reorder_reverse_range]; rfl⟩

/-- **Which orders give the input back.** -/
theorem isIdentityOrder_iff {order : Option (List Nat)} {rank : Nat} :
    isIdentityOrder order rank = true ↔ order = some (List.range rank) ∨ order = none ∧ rank ≤ 1 := by
  cases order with
  | none => simp [isIdentityOrder]
  | some order =>
    simp only [isIdentityOrder, Bool.and_eq_true, decide_eq_true_eq, Option.some.injEq, reduceCtorEq, false_and, or_false]
    constructor
    · rintro ⟨rfl, horder⟩
      exact horder
    · rintro rfl
      simp

/-- The order of axes that is applied, the reversed one if none is given. -/
def appliedOrder (order : Option (List Nat)) (rank : Nat) : List Nat := order.getD (List.range rank).reverse

theorem reverse_range_eq_iff {rank : Nat} : (List.range rank).reverse = List.range rank ↔ rank ≤ 1 := by
  constructor
  · intro h
    by_contra hlt
    have hfirst : (List.range rank).reverse[0]? = (List.range rank)[0]? := by rw [h]
    rw [List.getElem?_reverse (by rw [List.length_range]; omega), List.length_range, List.getElem?_range (by omega),
      List.getElem?_range (by omega)] at hfirst
    have := Option.some.inj hfirst
    omega
  · intro h
    rcases Nat.le_one_iff_eq_zero_or_eq_one.1 h with rfl | rfl <;> rfl

/-- **The identity test looks at the order that is applied.** -/
theorem isIdentityOrder_iff_applied {order : Option (List Nat)} {rank : Nat} :
    isIdentityOrder order rank = true ↔ appliedOrder order rank = List.range rank := by
  rw [isIdentityOrder_iff]
  cases order with
  | none => simp [appliedOrder, reverse_range_eq_iff]
  | some p => simp [appliedOrder]

/-- **Without a second input, the order that is given is applied.** -/
theorem transpose_one_eq (order : Option (List Nat)) (e : ElementType) (dims : List Dimension)
    (axes? : Option (List Int)) :
    transpose order ⟨e, .ranked dims⟩ none axes? = permute ⟨e, .ranked dims⟩ (appliedOrder order dims.length) := by
  cases order with
  | none => exact (permute_reverse_range e dims).symm
  | some p => rfl

theorem axesOfInts_eq_ok {axes : List Int} : axesOfInts axes = .ok p ↔ axes = p.map Int.ofNat := by
  unfold axesOfInts
  split
  · rename_i h
    have hcast : (axes.map Int.toNat).map Int.ofNat = axes := by
      rw [List.map_map]
      exact (List.map_congr_left (fun a ha => Int.toNat_of_nonneg (by simpa using List.all_eq_true.1 h a ha))).trans
        (List.map_id axes)
    rw [Except.ok.injEq]
    constructor
    · rintro rfl
      exact hcast.symm
    · rintro rfl
      simp [Function.comp_def]
  · rename_i h
    refine ⟨nofun, ?_⟩
    rintro rfl
    simp at h

theorem checkIntVector_eq_ok {v : TensorType} {index : Nat} (helement : v.element.isIntegral = true)
    (hrank : ∀ r, v.rank? = some r → r = 1) : checkIntVector v index = .ok () := by
  unfold checkIntVector
  rw [holdsInts, helement, Bool.true_or, Bool.not_true, if_neg Bool.false_ne_true]
  split
  · rename_i r hr
    rw [if_pos (hrank r hr)]
  · rfl

/-- **An order that a vector is known to hold is as good as a written one**, and an empty vector as none. -/
theorem transpose_known {x v : TensorType} (helement : v.element.isIntegral = true)
    (hrank : ∀ r, v.rank? = some r → r = 1) (p : List Nat) (axes? : Option (List Int)) :
    transpose none x (some v) (some (p.map Int.ofNat)) = transpose (if p = [] then none else some p) x none axes? := by
  have hcheck : checkIntVector v 1 = .ok () := checkIntVector_eq_ok helement hrank
  cases p with
  | nil => simp only [transpose, hcheck]; rfl
  | cons i p =>
    have haxes : axesOfInts ((i :: p).map Int.ofNat) = .ok (i :: p) := axesOfInts_eq_ok.2 rfl
    rw [List.map_cons] at haxes
    simp only [transpose, hcheck, List.map_cons, haxes]
    rfl

/-- **A vector that is accepted holds an order**, or is empty. -/
theorem exists_of_transpose_known {written : Option (List Nat)} {x v : TensorType} {axes : List Int}
    (h : transpose written x (some v) (some axes) = .ok t) :
    ∃ p, axes = p.map Int.ofNat ∧ transpose (if p = [] then none else some p) x none none = .ok t := by
  unfold transpose at h
  cases written with
  | some order => cases h
  | none =>
    obtain ⟨_, -, h⟩ := bind_eq_ok.1 h
    cases axes with
    | nil => exact ⟨[], rfl, h⟩
    | cons a axes =>
      obtain ⟨order, horder, h⟩ := bind_eq_ok.1 h
      rw [axesOfInts_eq_ok] at horder
      refine ⟨order, horder, ?_⟩
      rwa [if_neg (by rintro rfl; cases horder)]

end Infer

theorem ConstantData.isSome_ints? (d : ConstantData) : d.ints?.isSome = d.elementType.isIntegral := by
  cases d <;> rfl

namespace Op

open Infer (composed inverse)

variable {order : Option (List Nat)} {x v : TensorType} {outs : List TensorType} {values : List (Option ConstantData)}

theorem validate_transpose_one : (transpose order).validate [x] values =
    (Infer.transpose order x none (Infer.knownInts? values 1) >>= fun t => .ok [t]) := rfl

theorem validate_transpose_two : (transpose order).validate [x, v] values =
    (Infer.transpose order x (some v) (Infer.knownInts? values 1) >>= fun t => .ok [t]) := rfl

theorem validate_permute {p : List Nat} : (transpose (some p)).validate [x] values =
    (Infer.permute x p >>= fun t => .ok [t]) := rfl

theorem validate_permute_eq_ok {p : List Nat} :
    (transpose (some p)).validate [x] values = .ok outs ↔ ∃ t, Infer.permute x p = .ok t ∧ outs = [t] := by
  rw [validate_permute]
  exact single_eq_ok

theorem validate_transpose_eq_ok {ins : List TensorType} : (transpose order).validate ins values = .ok outs ↔
    ∃ x second t, (ins = [x] ∧ second = none ∨ ∃ v, ins = [x, v] ∧ second = some v) ∧
      Infer.transpose order x second (Infer.knownInts? values 1) = .ok t ∧ outs = [t] := by
  match ins with
  | [] => exact ⟨nofun, by simp⟩
  | [x] =>
    rw [validate_transpose_one, single_eq_ok]
    simp
  | [x, v] =>
    rw [validate_transpose_two, single_eq_ok]
    simp
  | _ :: _ :: _ :: rest =>
    rw [validate, if_neg (by simp [type, OpType.arity, Arity.accepts])]
    exact ⟨nofun, by simp⟩

/-- **Transpositions compose like permutations.**  An input of known rank is transposed by the permutations of its axes,
output axis `i` being input axis `p[i]`.  One order after another, all of whose look-ups find an entry, is the composed
order; an order followed by its inverse gives the input back, and so does reversing twice.  An input of unknown rank is
transposed by any permutation, and then its rank is known.  A vector that is known to hold an order is as good as an
order that is written down, an empty one as none. -/
theorem transpose_by_permutations (e : ElementType) (values : List (Option ConstantData)) :
    (∀ dims,
      (∀ p outs, (transpose (some p)).validate [⟨e, .ranked dims⟩] values = .ok outs ↔ p.Perm (List.range dims.length) ∧
        ∃ ds, outs = [⟨e, .ranked ds⟩] ∧ ∀ i : Nat, ds[i]? = p[i]?.bind (dims[·]?)) ∧
      (∀ p q, p.length = dims.length → (∀ i ∈ q, i < dims.length) → ∀ outs,
        (((transpose (some p)).validate [⟨e, .ranked dims⟩] values >>= fun ys =>
            (transpose (some q)).validate ys values) = .ok outs ↔
          (transpose (some (composed p q))).validate [⟨e, .ranked dims⟩] values = .ok outs)) ∧
      (∀ p outs, (transpose (some p)).validate [⟨e, .ranked dims⟩] values = .ok outs →
        (transpose (some (inverse p))).validate outs values = .ok [⟨e, .ranked dims⟩])) ∧
    (∀ s, ((transpose none).validate [⟨e, s⟩] values >>= fun ys => (transpose none).validate ys values) = .ok [⟨e, s⟩]) ∧
    (∀ p outs, (transpose (some p)).validate [⟨e, .unknown⟩] values = .ok outs ↔
      p.Perm (List.range p.length) ∧ outs = [⟨e, Shape.ofRank p.length⟩]) ∧
    ∀ s v known p values', known.ints? = some (p.map Int.ofNat) → v.element = known.elementType →
      (∀ r, v.rank? = some r → r = 1) → values'[1]? = some (some known) →
        (transpose none).validate [⟨e, s⟩, v] values' =
          (transpose (if p = [] then none else some p)).validate [⟨e, s⟩] values := by
  refine ⟨fun dims => ⟨fun p outs => ?_, fun p q hp hq outs => ?_, fun p outs h => ?_⟩, fun s => ?_, fun p outs => ?_,
    fun s v known p values' hints helement hrank hvalues => ?_⟩
  · rw [validate_permute_eq_ok]
    simp only [Infer.permute_ranked_eq_ok]
    constructor
    · rintro ⟨_, ⟨hperm, rfl⟩, rfl⟩
      exact ⟨hperm, _, rfl, Infer.getElem?_reorder (fun i hi => (Infer.mem_iff_of_perm_range hperm).1 hi)⟩
    · rintro ⟨hperm, ds, rfl, hds⟩
      refine ⟨_, ⟨hperm, rfl⟩, ?_⟩
      rw [List.ext_getElem? (fun i => (hds i).trans
        (Infer.getElem?_reorder (fun i hi => (Infer.mem_iff_of_perm_range hperm).1 hi) i).symm)]
  · have hsteps : ((transpose (some p)).validate [⟨e, .ranked dims⟩] values >>= fun ys =>
        (transpose (some q)).validate ys values) =
          (Infer.permute ⟨e, .ranked dims⟩ p >>= fun y => Infer.permute y q) >>= fun t => .ok [t] := by
      simp only [validate_permute, bind_assoc]
      rfl
    rw [hsteps, validate_permute, bind_eq_ok, bind_eq_ok]
    exact exists_congr (fun t => and_congr_left (fun _ => Infer.permute_permute hp hq))
  · obtain ⟨t, ht, rfl⟩ := validate_permute_eq_ok.1 h
    exact validate_permute_eq_ok.2 ⟨_, Infer.permute_inverse ht, rfl⟩
  · exact congrArg (fun t => Except.ok [t]) (Infer.reverseAxes_reverseAxes ⟨e, s⟩)
  · rw [validate_permute_eq_ok]
    simp only [Infer.permute_unknown_eq_ok]
    constructor
    · rintro ⟨_, ⟨hperm, rfl⟩, rfl⟩
      exact ⟨hperm, rfl⟩
    · rintro ⟨hperm, rfl⟩
      exact ⟨_, ⟨hperm, rfl⟩, rfl⟩
  · have hintegral : v.element.isIntegral = true := by
      rw [helement, ← ConstantData.isSome_ints?, hints, Option.isSome_some]
    have hknown : Infer.knownInts? values' 1 = some (p.map Int.ofNat) := by
      rw [Infer.knownInts?, hvalues, Option.join_some, Option.bind_some, hints]
    rw [validate_transpose_two, validate_transpose_one, hknown, Infer.transpose_known hintegral hrank]

/-- Three axes: an order, its inverse, and the order as a vector, which has to be one of integers. -/
theorem transpose_by_permutations_of_rank_three :
    ((transpose (some [1, 2, 0])).validate [⟨.f32, .ranked [.fixed 2, .dynamic, .fixed 4]⟩] [] >>= fun ys =>
        (transpose (some [1, 2, 0])).validate ys []) = .ok [⟨.f32, .ranked [.fixed 4, .fixed 2, .dynamic]⟩] ∧
      (transpose (some [2, 0, 1])).validate [⟨.f32, .ranked [.dynamic, .fixed 4, .fixed 2]⟩] [] =
        .ok [⟨.f32, .ranked [.fixed 2, .dynamic, .fixed 4]⟩] ∧
      (transpose none).validate [⟨.f32, .ranked [.fixed 2, .dynamic, .fixed 4]⟩, ⟨.i64, .ranked [.fixed 3]⟩]
          [none, some (.i64 [1, 2, 0])] =
        .ok [⟨.f32, .ranked [.dynamic, .fixed 4, .fixed 2]⟩] := by
  obtain ⟨hranked, -, -, hknown⟩ := transpose_by_permutations .f32 []
  obtain ⟨-, hsteps, hinverse⟩ := hranked [.fixed 2, .dynamic, .fixed 4]
  exact ⟨(hsteps [1, 2, 0] [1, 2, 0] (by decide) (by decide) _).2 rfl, hinverse [1, 2, 0] _ rfl,
    (hknown _ ⟨.i64, .ranked [.fixed 3]⟩ (.i64 [1, 2, 0]) [1, 2, 0] [none, some (.i64 [1, 2, 0])] rfl rfl
      (fun r hr => (Option.some.inj hr).symm) rfl).trans rfl⟩

end Op
end TensorGraph
