import Mathlib.Algebra.BigOperators.Ring.List
import Mathlib.Algebra.GroupWithZero.Nat
import TensorGraph.Op.Inputs
import TensorGraph.Proofs.Information.Join
/-!
# Products of dimensions

`total` is the number of elements that dimensions make up, with no regard to their order or to words: a zero decides
it, otherwise an unknown dimension leaves it open, and otherwise it is the product of the sizes.

A product is computed from the left, and in words.  `leadingSizes` are the sizes that it has multiplied when a zero or
an unknown dimension ends the danger of an overflow.  If they fit a word, the product is the total, and if they do not
there is no product (`product?_eq_some_iff`).  So a product can be missing although the total is a zero, or open: the dimensions
are `Eclipsed` by those before them.
-/
namespace TensorGraph
namespace Dimension

/-- **The number of elements that dimensions make up.** -/
def total (dims : List Dimension) : Dimension :=
  if fixed 0 ∈ dims then fixed 0
  else if dynamic ∈ dims then dynamic
  else fixed (dims.map (sizeOr 1)).prod

/-- The sizes before the first dimension that is zero or unknown. -/
def leadingSizes : List Dimension → List Nat
  | fixed (n + 1) :: dims => (n + 1) :: leadingSizes dims
  | _ => []

/-- The leading sizes overflow before a zero or an unknown dimension comes. -/
def Eclipsed (dims : List Dimension) : Prop :=
  sizeLimit ≤ (leadingSizes dims).prod ∧ (leadingSizes dims).length < dims.length

theorem prod_leadingSizes_pos (dims : List Dimension) : 0 < (leadingSizes dims).prod := by
  fun_induction leadingSizes dims with
  | case1 n dims ih => exact Nat.mul_pos (Nat.succ_pos n) ih
  | case2 => exact Nat.one_pos

theorem leadingSizes_initial (dims : List Dimension) : (leadingSizes dims).map fixed <+: dims := by
  fun_induction leadingSizes dims with
  | case1 n dims ih => exact (List.prefix_cons_inj (fixed (n + 1))).2 ih
  | case2 => exact List.nil_prefix

/-- Where no dimension is zero or unknown, all sizes are leading. -/
theorem map_leadingSizes {dims : List Dimension} (hzero : fixed 0 ∉ dims) (hdynamic : dynamic ∉ dims) :
    (leadingSizes dims).map fixed = dims := by
  fun_induction leadingSizes dims with
  | case1 n dims ih =>
    rw [List.map_cons, ih (fun h => hzero (List.mem_cons_of_mem _ h)) (fun h => hdynamic (List.mem_cons_of_mem _ h))]
  | case2 dims hne =>
    match dims with
    | [] => rfl
    | dynamic :: _ => exact absurd List.mem_cons_self hdynamic
    | fixed 0 :: _ => exact absurd List.mem_cons_self hzero
    | fixed (n + 1) :: ds => exact absurd rfl (hne n ds)

/-! ## The total -/

theorem eq_fixed_of_size? {d : Dimension} {n : Nat} (h : d.size? = some n) : d = fixed n := by
  cases d with
  | fixed m => rw [Option.some.inj h]
  | dynamic => cases h

theorem total_of_zero {dims : List Dimension} (h : fixed 0 ∈ dims) : total dims = fixed 0 := if_pos h

theorem map_sizeOr_fixed (made : Nat) (sizes : List Nat) : (sizes.map fixed).map (sizeOr made) = sizes := by
  rw [List.map_map]
  exact List.map_id' sizes

/-- **The total of sizes is their product.** -/
@[simp] theorem total_sizes (sizes : List Nat) : total (sizes.map fixed) = fixed sizes.prod := by
  have hdynamic : dynamic ∉ sizes.map fixed := by simp
  unfold total
  rw [if_neg hdynamic, map_sizeOr_fixed]
  split
  · rename_i hzero
    obtain ⟨n, hn, heq⟩ := List.mem_map.1 hzero
    obtain rfl := fixed.inj heq
    rw [List.prod_eq_zero hn]
  · rfl

/-- The order of the dimensions does not matter. -/
theorem total_perm {xs ys : List Dimension} (h : xs.Perm ys) : total xs = total ys := by
  unfold total
  simp only [h.mem_iff, (h.map (sizeOr 1)).prod_eq]

/-- Without a zero, the total is not zero. -/
theorem total_ne_zero {dims : List Dimension} (hzero : fixed 0 ∉ dims) : total dims ≠ fixed 0 := by
  have hsizes : (dims.map (sizeOr 1)).prod ≠ 0 := by
    refine List.prod_ne_zero (fun h => ?_)
    obtain ⟨d, hd, heq⟩ := List.mem_map.1 h
    cases d with
    | fixed n =>
      obtain rfl : n = 0 := heq
      exact hzero hd
    | dynamic => cases heq
  unfold total
  rw [if_neg hzero]
  split
  · nofun
  · exact fun h => hsizes (fixed.inj h)

/-- **Dimensions can be put into groups**: the totals of the groups make up the total of all. -/
theorem total_append (xs ys : List Dimension) : total (xs ++ ys) = total [total xs, total ys] := by
  by_cases hxs : fixed 0 ∈ xs
  · rw [total_of_zero (List.mem_append_left ys hxs), total_of_zero hxs, total_of_zero List.mem_cons_self]
  by_cases hys : fixed 0 ∈ ys
  · rw [total_of_zero (List.mem_append_right xs hys), total_of_zero hys, total_of_zero (by simp)]
  have hgroups : fixed 0 ∉ [total xs, total ys] := by
    simpa using ⟨(total_ne_zero hxs).symm, (total_ne_zero hys).symm⟩
  have hall : fixed 0 ∉ xs ++ ys := by simp [hxs, hys]
  rw [total, if_neg hall, total, if_neg hgroups, total, if_neg hxs, total, if_neg hys]
  by_cases hx : dynamic ∈ xs <;> by_cases hy : dynamic ∈ ys <;> simp [hx, hy, sizeOr]

/-- Without a zero, the total is known only if all dimensions are. -/
theorem eq_sizes_of_total {dims : List Dimension} {n : Nat} (hzero : fixed 0 ∉ dims) (h : total dims = fixed n) :
    dims = (leadingSizes dims).map fixed ∧ n = (leadingSizes dims).prod := by
  have hdynamic : dynamic ∉ dims := by
    intro hdynamic
    rw [total, if_neg hzero, if_pos hdynamic] at h
    cases h
  have hdims := map_leadingSizes hzero hdynamic
  refine ⟨hdims.symm, ?_⟩
  rw [← hdims, total_sizes] at h
  exact (fixed.inj h).symm

/-! ## The product in words -/

theorem total_one_cons (dims : List Dimension) : total (fixed 1 :: dims) = total dims := by
  simp [total, sizeOr]

theorem total_singleton (d : Dimension) : total [d] = d := by
  cases d with
  | fixed n => simpa using total_sizes [n]
  | dynamic => rfl

/-- A product stands for its two factors. -/
theorem total_of_mul? {a b d : Dimension} (h : a.mul? b = some d) (dims : List Dimension) :
    total (d :: dims) = total (a :: b :: dims) := by
  cases a <;> cases b <;> simp only [mul?] at h <;> unfold total <;> grind [sizeOr, Nat.mul_eq_zero]

theorem total_of_foldlM_mul? : ∀ {dims : List Dimension} {a d : Dimension}, dims.foldlM mul? a = some d →
    d = total (a :: dims)
  | [], a, _, h => (Option.some.inj h).symm.trans (total_singleton a).symm
  | b :: dims, a, d, h => by
    rw [List.foldlM_cons] at h
    obtain ⟨c, hc, h⟩ := Option.bind_eq_some_iff.1 h
    rw [total_of_foldlM_mul? h, total_of_mul? hc]

/-- Once a product is zero or unknown, nothing overflows any more. -/
theorem exists_foldlM_mul?_of_decided : ∀ {dims : List Dimension} {a : Dimension}, a = fixed 0 ∨ a = dynamic →
    ∃ d, dims.foldlM mul? a = some d
  | [], a, _ => ⟨a, rfl⟩
  | b :: dims, a, h => by
    obtain ⟨c, hc, hdecided⟩ : ∃ c, a.mul? b = some c ∧ (c = fixed 0 ∨ c = dynamic) := by
      rcases h with rfl | rfl <;> cases b <;> simp only [mul?] <;> grind [sizeLimit]
    rw [List.foldlM_cons, hc]
    exact exists_foldlM_mul?_of_decided hdecided

/-- Until then, it is the leading sizes that are multiplied. -/
theorem exists_foldlM_mul?_iff {dims : List Dimension} : ∀ {a : Nat}, a ≠ 0 → a < sizeLimit →
    ((∃ d, dims.foldlM mul? (fixed a) = some d) ↔ a * (leadingSizes dims).prod < sizeLimit) := by
  fun_induction leadingSizes dims with
  | case1 n dims ih =>
    intro a ha hlt
    have hpos := prod_leadingSizes_pos dims
    rw [List.foldlM_cons, mul?, List.prod_cons, ← Nat.mul_assoc]
    split
    · rename_i hmul
      exact ih (Nat.mul_ne_zero ha (Nat.succ_ne_zero n)) hmul
    · rename_i hmul
      have hle : a * (n + 1) ≤ a * (n + 1) * (leadingSizes dims).prod := Nat.le_mul_of_pos_right _ hpos
      constructor
      · rintro ⟨d, hd⟩
        cases hd
      · exact fun h => absurd (Nat.lt_of_le_of_lt hle h) hmul
  | case2 dims hne =>
    intro a ha hlt
    rw [List.prod_nil, Nat.mul_one]
    refine ⟨fun _ => hlt, fun _ => ?_⟩
    cases dims with
    | nil => exact ⟨_, rfl⟩
    | cons d dims =>
      rw [List.foldlM_cons]
      cases d with
      | dynamic =>
        rw [mul?, if_neg ha]
        exact exists_foldlM_mul?_of_decided (Or.inr rfl)
      | fixed n =>
        cases n with
        | zero =>
          rw [mul?, Nat.mul_zero, if_pos (by decide)]
          exact exists_foldlM_mul?_of_decided (Or.inl rfl)
        | succ n => exact absurd rfl (hne n dims)

/-- **What a product is**: the total, unless the leading sizes overflow. -/
theorem product?_eq_some_iff {dims : List Dimension} {d : Dimension} :
    product? dims = some d ↔ (leadingSizes dims).prod < sizeLimit ∧ d = total dims := by
  have htotal : ∀ {d}, product? dims = some d → d = total dims := fun h =>
    (total_of_foldlM_mul? h).trans (total_one_cons dims)
  have hexists : (∃ d, product? dims = some d) ↔ (leadingSizes dims).prod < sizeLimit := by
    rw [← Nat.one_mul (leadingSizes dims).prod]
    exact exists_foldlM_mul?_iff Nat.one_ne_zero (by decide)
  constructor
  · exact fun h => ⟨hexists.1 ⟨d, h⟩, htotal h⟩
  · rintro ⟨hlt, rfl⟩
    obtain ⟨d, hd⟩ := hexists.2 hlt
    exact htotal hd ▸ hd

/-- **The leading sizes fit a word exactly if the total does and is not eclipsed.** -/
theorem prod_leadingSizes_lt_iff {dims : List Dimension} :
    (leadingSizes dims).prod < sizeLimit ↔ (total dims).Sized ∧ ¬ Eclipsed dims := by
  constructor
  · refine fun hlt => ⟨fun n hn => ?_, fun h => Nat.not_le_of_lt hlt h.1⟩
    by_cases hzero : fixed 0 ∈ dims
    · rw [total_of_zero hzero] at hn
      exact fixed.inj hn ▸ by decide
    · exact (eq_sizes_of_total hzero hn).2 ▸ hlt
  · rintro ⟨hsized, hclear⟩
    by_contra hle
    -- the leading sizes overflow, so they are all there is, and their product is the total
    have hlength : dims.length ≤ (leadingSizes dims).length :=
      Nat.not_lt.1 (fun h => hclear ⟨Nat.not_lt.1 hle, h⟩)
    have hall : (leadingSizes dims).map fixed = dims :=
      (leadingSizes_initial dims).eq_of_length_le (by rwa [List.length_map])
    rw [← hall, total_sizes] at hsized
    exact hle (sized_fixed.1 hsized)

end Dimension

open Dimension (total leadingSizes)

theorem Infer.product_eq_ok_iff {dims : List Dimension} {d : Dimension} :
    Infer.product dims = .ok d ↔ (leadingSizes dims).prod < sizeLimit ∧ d = total dims := by
  rw [← Dimension.product?_eq_some_iff]
  unfold product
  split
  · rename_i hd
    rw [hd]
    exact ⟨fun h => congrArg some (Except.ok.inj h), fun h => congrArg Except.ok (Option.some.inj h)⟩
  · rename_i hnone
    rw [hnone]
    exact ⟨nofun, nofun⟩

/-- Sizes that make up a number of elements other than zero, and one that fits a word, do not overflow on the way. -/
theorem Infer.product_sizes {sizes : List Nat} (hne : sizes.prod ≠ 0) (hlt : sizes.prod < sizeLimit) :
    Infer.product (sizes.map .fixed) = .ok (.fixed sizes.prod) := by
  have hzero : Dimension.fixed 0 ∉ sizes.map Dimension.fixed := by
    intro hmem
    obtain ⟨n, hn, heq⟩ := List.mem_map.1 hmem
    obtain rfl := Dimension.fixed.inj heq
    exact hne (List.prod_eq_zero hn)
  have htotal := Dimension.total_sizes sizes
  exact Infer.product_eq_ok_iff.2 ⟨(Dimension.eq_sizes_of_total hzero htotal).2 ▸ hlt, htotal.symm⟩

/-- **The number of elements of a shape**, however large the sizes before a zero are. -/
theorem Shape.elementCount?_eq_some_iff {dims : List Dimension} {n : Nat} :
    (Shape.ranked dims).elementCount? = some n ↔ total dims = .fixed n ∧ n < sizeLimit := by
  unfold elementCount?
  simp only [List.contains_iff_mem]
  split
  · rename_i hzero
    rw [Dimension.total_of_zero hzero]
    constructor
    · intro h
      obtain rfl := Option.some.inj h
      exact ⟨rfl, by decide⟩
    · rintro ⟨h, -⟩
      rw [Dimension.fixed.inj h]
  · rename_i hzero
    rw [Option.bind_eq_some_iff]
    constructor
    · rintro ⟨d, hd, hn⟩
      obtain ⟨hlt, rfl⟩ := Dimension.product?_eq_some_iff.1 hd
      have htotal := Dimension.eq_fixed_of_size? hn
      exact ⟨htotal, (Dimension.prod_leadingSizes_lt_iff.1 hlt).1 n htotal⟩
    · rintro ⟨htotal, hn⟩
      have hlt : (leadingSizes dims).prod < sizeLimit := (Dimension.eq_sizes_of_total hzero htotal).2 ▸ hn
      exact ⟨_, Dimension.product?_eq_some_iff.2 ⟨hlt, rfl⟩, by rw [htotal]; rfl⟩

end TensorGraph
