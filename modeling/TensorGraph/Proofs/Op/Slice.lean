import Mathlib.Data.Set.Card
import TensorGraph.Op.Infer
import TensorGraph.Proofs.Information.Answers
/-!
# Slices — the places that a slice takes

A slice is said here without a formula for its length: it starts at the place where its first bound stands, goes on
by one stride at a time, and takes what it meets before it comes to the place where its second bound stands.
`Takes` says this of a single place.  The places that are taken are then those of the first `sliceLength` steps, and
all of them lie on the axis.

`Word.sliceLength?` computes the length as a machine with 64-bit words does.  It has no answer as soon as one step
leaves the range of its word, divides by zero, or clamps to an empty interval, which is why that it has an answer says
that no step does.

Bounds that leave nothing out, in whole place steps, keep an axis as it is as far as slices see it: up to the longest one
that a signed word can say (`stridedSlice_whole`).
-/
namespace TensorGraph

/-- A signed word holds the integer. -/
def IsSigned (x : Int) : Prop := -signedLimit ≤ x ∧ x < signedLimit

namespace Infer

/-! ## Places -/

/-- The place between `low` and `high` that is nearest to `x`. -/
structure Nearest (low high x place : Int) : Prop where
  inside : low ≤ x → x ≤ high → place = x
  below : x < low → place = low
  above : high < x → place = high

/-- **The place where a bound stands.**  An absent bound stands at the end of the axis, which is `far`.  Any other one
stands where it says, a negative one counted from the end, or at the nearest place to which the slice can come: these
are the places of the axis and the one after them in the direction of travel. -/
def Stands (size : Nat) (stride far : Int) : Option Int → Int → Prop
  | none, place => place = far
  | some bound, place =>
    let x := if bound < 0 then bound + size else bound
    (0 < stride → Nearest 0 size x place) ∧ (stride < 0 → Nearest (-1) (size - 1) x place)

/-- **The slice takes the place** `x`: it comes there in strides from its first place, before it comes to its last. -/
def Takes (size : Nat) (start stop : Option Int) (stride x : Int) : Prop :=
  ∃ first last, Stands size stride (if 0 < stride then 0 else size - 1) start first ∧
    Stands size stride (if 0 < stride then size else -1) stop last ∧
    (∃ steps : Nat, x = first + steps * stride) ∧ if 0 < stride then x < last else last < x

theorem nearest_iff {low high x place : Int} (h : low ≤ high) : Nearest low high x place ↔ place = clamp low high x := by
  unfold clamp
  constructor
  · intro hplace
    have := hplace.inside
    have := hplace.below
    have := hplace.above
    omega
  · rintro rfl
    constructor <;> omega

section

variable {size : Nat} {start stop : Option Int} {stride : Int}

theorem stands_start_iff (h : stride ≠ 0) {place : Int} :
    Stands size stride (if 0 < stride then 0 else size - 1) start place ↔ place = sliceStart size start stride := by
  unfold sliceStart
  rcases Int.lt_or_gt_of_ne h with hneg | hpos
  · have hup : ¬ 0 < stride := by omega
    cases start with
    | none => simp [Stands, hup]
    | some b => simp [Stands, hup, hneg, fromStart, nearest_iff (by omega : (-1 : Int) ≤ size - 1)]
  · have hdown : ¬ stride < 0 := by omega
    cases start with
    | none => simp [Stands, hpos]
    | some b => simp [Stands, hpos, hdown, fromStart, nearest_iff (by omega : (0 : Int) ≤ size)]

theorem stands_stop_iff (h : stride ≠ 0) {place : Int} :
    Stands size stride (if 0 < stride then size else -1) stop place ↔ place = sliceStop size stop stride := by
  unfold sliceStop
  rcases Int.lt_or_gt_of_ne h with hneg | hpos
  · have hup : ¬ 0 < stride := by omega
    cases stop with
    | none => simp [Stands, hup]
    | some b => simp [Stands, hup, hneg, fromStart, nearest_iff (by omega : (-1 : Int) ≤ size - 1)]
  · have hdown : ¬ stride < 0 := by omega
    cases stop with
    | none => simp [Stands, hpos]
    | some b => simp [Stands, hpos, hdown, fromStart, nearest_iff (by omega : (0 : Int) ≤ size)]

/-- A number of strides is short of a distance. -/
theorem mul_natAbs_lt_iff (h : stride ≠ 0) {steps : Nat} {span : Int} :
    steps * (stride.natAbs : Int) < span ↔ steps < if 0 < span then (span - 1).toNat / stride.natAbs + 1 else 0 := by
  have hpos : 0 < stride.natAbs := Int.natAbs_pos.2 h
  split
  · rename_i hspan
    obtain ⟨n, rfl⟩ : ∃ n : Nat, span = n + 1 := ⟨(span - 1).toNat, by omega⟩
    rw [Int.add_sub_cancel, Int.toNat_natCast, Nat.lt_succ_iff, Nat.le_div_iff_mul_le hpos]
    omega
  · have : 0 ≤ (steps : Int) * stride.natAbs := Int.mul_nonneg (by omega) (by omega)
    omega

/-- What is met before the last place is met in less than the span. -/
theorem before_last_iff (size : Int) (steps : Nat) :
    (if 0 < stride then sliceStart size start stride + steps * stride < sliceStop size stop stride
      else sliceStop size stop stride < sliceStart size start stride + steps * stride) ↔
    steps * (stride.natAbs : Int) < sliceSpan size start stop stride := by
  unfold sliceSpan
  simp only
  split
  · rename_i hpos
    rw [Int.natAbs_of_nonneg (Int.le_of_lt hpos)]
    omega
  · rename_i hneg
    rw [Int.ofNat_natAbs_of_nonpos (Int.not_lt.1 hneg), Int.mul_neg]
    omega

/-- **The places that a slice takes are those of its first steps**, as many as its length says. -/
theorem takes_iff (hsize : size < signedLimit) (h : stride ≠ 0) {x : Int} :
    Takes size start stop stride x ↔
      ∃ steps < sliceLength size start stop stride, x = sliceStart size start stride + steps * stride := by
  have hlimit : min (size : Int) sliceLimit = size := by
    unfold sliceLimit
    omega
  unfold Takes
  simp only [stands_start_iff h, stands_stop_iff h]
  rw [sliceLength, hlimit]
  constructor
  · rintro ⟨_, _, rfl, rfl, ⟨steps, rfl⟩, hbefore⟩
    exact ⟨steps, (mul_natAbs_lt_iff h).1 ((before_last_iff size steps).1 hbefore), rfl⟩
  · rintro ⟨steps, hlt, rfl⟩
    exact ⟨_, _, rfl, rfl, ⟨steps, rfl⟩, (before_last_iff size steps).2 ((mul_natAbs_lt_iff h).2 hlt)⟩

/-- Steps lead to different places. -/
theorem encard_takes (hsize : size < signedLimit) (h : stride ≠ 0) :
    {x | Takes size start stop stride x}.encard = sliceLength size start stop stride := by
  have himage : {x | Takes size start stop stride x} =
      (fun steps : Nat => sliceStart size start stride + steps * stride) ''
        (Finset.range (sliceLength size start stop stride) : Set Nat) := by
    ext x
    simp only [Set.mem_ofPred_eq, takes_iff hsize h, Set.mem_image, Finset.mem_coe, Finset.mem_range, eq_comm (a := x)]
  have hinjective : Function.Injective (fun steps : Nat => sliceStart size start stride + steps * stride) :=
    fun m n hmn => Int.ofNat_inj.1 (Int.eq_of_mul_eq_mul_right h (Int.add_left_cancel hmn))
  rw [himage, hinjective.encard_image, Set.encard_coe_eq_coe_finsetCard, Finset.card_range]

/-- A slice upwards starts on the axis or after it, and one downwards on the axis or before it. -/
theorem sliceStart_bound (size : Nat) (start : Option Int) (stride : Int) :
    if 0 < stride then 0 ≤ sliceStart size start stride else sliceStart size start stride < size := by
  unfold sliceStart
  split
  · cases start with
    | none => exact Int.le_refl 0
    | some b => exact Int.le_max_left 0 _
  · cases start with
    | none => exact Int.sub_one_lt_of_le (Int.le_refl _)
    | some b =>
      simp only [Option.elim, clamp]
      omega

theorem sliceStop_bound (size : Nat) (stop : Option Int) (stride : Int) :
    if 0 < stride then sliceStop size stop stride ≤ size else -1 ≤ sliceStop size stop stride := by
  unfold sliceStop
  split
  · cases stop with
    | none => exact Int.le_refl _
    | some b =>
      simp only [Option.elim, clamp]
      omega
  · cases stop with
    | none => exact Int.le_refl _
    | some b => exact Int.le_max_left (-1) _

/-- **What a slice takes lies on the axis.** -/
theorem Takes.on_axis (h : stride ≠ 0) {x : Int} (hx : Takes size start stop stride x) : 0 ≤ x ∧ x < size := by
  unfold Takes at hx
  simp only [stands_start_iff h, stands_stop_iff h] at hx
  obtain ⟨_, _, rfl, rfl, ⟨steps, rfl⟩, hbefore⟩ := hx
  have hstart := sliceStart_bound size start stride
  have hstop := sliceStop_bound size stop stride
  rcases Int.lt_or_gt_of_ne h with hneg | hpos
  · have hup : ¬ 0 < stride := by omega
    simp only [if_neg hup] at hbefore hstart hstop
    have : (steps : Int) * stride ≤ 0 := Int.mul_nonpos_of_nonneg_of_nonpos (by omega) (by omega)
    omega
  · simp only [if_pos hpos] at hbefore hstart hstop
    have : 0 ≤ (steps : Int) * stride := Int.mul_nonneg (by omega) (by omega)
    omega

end

end Infer

/-! ## The length in words -/

namespace Word

/-- The integer, if a signed word holds it. -/
def signed? (x : Int) : Option Int := if -signedLimit ≤ x ∧ x < signedLimit then some x else none

/-- The integer, if an unsigned word holds it. -/
def unsigned? (x : Int) : Option Nat := if 0 ≤ x ∧ x < sizeLimit then some x.toNat else none

def quotient? (a b : Nat) : Option Nat := if b = 0 then none else some (a / b)

/-- An interval that is empty has no nearest place. -/
def clamp? (low high x : Int) : Option Int := if low ≤ high then some (Infer.clamp low high x) else none

def fromStart? (size place : Int) : Option Int := if place < 0 then signed? (place + size) else some place

/-- Where a bound stands, in words. -/
def bound? (size low high far : Int) : Option Int → Option Int
  | none => some far
  | some place => do clamp? low high (← fromStart? size place)

/-- Number of steps of the given width within a distance that is not zero, in words. -/
def steps? (span : Int) (width : Nat) : Option Nat := do
  let rest ← unsigned? (span - 1)
  let steps ← quotient? rest width
  unsigned? (steps + 1)

/-- **The length of a slice in words**, none if a step on the way has no answer. -/
def sliceLength? (size : Nat) (start stop : Option Int) (stride : Int) : Option Nat := do
  let size : Int := min size Infer.sliceLimit
  let width ← unsigned? stride.natAbs
  if 0 < stride then
    let first ← bound? size 0 size 0 start
    let last ← bound? size 0 size size stop
    if first < last then steps? (← signed? (last - first)) width else some 0
  else
    let highest ← signed? (size - 1)
    let first ← bound? size (-1) highest highest start
    let last ← bound? size (-1) highest (-1) stop
    if last < first then steps? (← signed? (first - last)) width else some 0

theorem signed?_of_isSigned {x : Int} (h : IsSigned x) : signed? x = some x := if_pos h

theorem unsigned?_eq {n : Nat} (h : n < sizeLimit) : unsigned? n = some n := if_pos ⟨by omega, by omega⟩

theorem fromStart?_eq {size place : Int} (hplace : IsSigned place) (hsize : 0 ≤ size ∧ size < signedLimit) :
    fromStart? size place = some (Infer.fromStart size place) := by
  unfold fromStart? Infer.fromStart
  unfold IsSigned at hplace
  split
  · exact signed?_of_isSigned ⟨by omega, by omega⟩
  · rfl

theorem bound?_eq {size low high far : Int} {bound : Option Int} (hbound : ∀ b, bound = some b → IsSigned b)
    (hsize : 0 ≤ size ∧ size < signedLimit) (h : low ≤ high) :
    bound? size low high far bound = some (bound.elim far (fun b => Infer.clamp low high (Infer.fromStart size b))) := by
  cases bound with
  | none => rfl
  | some b =>
    rw [bound?, fromStart?_eq (hbound b rfl) hsize, Option.bind_eq_bind, Option.bind_some, clamp?, if_pos h]
    rfl

theorem steps?_eq {span : Int} {width : Nat} (hspan : 0 < span ∧ span < signedLimit) (hwidth : 0 < width) :
    steps? span width = some ((span - 1).toNat / width + 1) := by
  obtain ⟨n, rfl⟩ : ∃ n : Nat, span = n + 1 := ⟨(span - 1).toNat, by omega⟩
  have hn : n < sizeLimit := by unfold signedLimit at hspan; unfold sizeLimit; omega
  have hquotient : n / width ≤ n := Nat.div_le_self n width
  have hsum : n / width + 1 < sizeLimit := by unfold signedLimit at hspan; unfold sizeLimit; omega
  rw [steps?, Int.add_sub_cancel, unsigned?_eq hn, Int.toNat_natCast, Option.bind_eq_bind, Option.bind_some, quotient?,
    if_neg (Nat.ne_of_gt hwidth), Option.bind_some, ← Int.natCast_succ, unsigned?_eq hsum]

/-- Number of steps from one place until another one is reached. -/
theorem steps?_between {first last : Int} {width : Nat} (hspan : last - first < signedLimit) (hwidth : 0 < width) :
    (if first < last then do steps? (← signed? (last - first)) width else some 0) =
      some (if 0 < last - first then (last - first - 1).toNat / width + 1 else 0) := by
  by_cases h : first < last
  · have hpos : 0 < last - first := by omega
    rw [if_pos h, if_pos hpos, signed?_of_isSigned ⟨by omega, hspan⟩, Option.bind_eq_bind, Option.bind_some,
      steps?_eq ⟨hpos, hspan⟩ hwidth]
  · rw [if_neg h, if_neg (by omega)]

section

variable {start stop : Option Int} {stride : Int}

/-- **No step on the way to the length of a slice leaves its word**, whatever the size, the bounds and the stride. -/
theorem sliceLength?_eq (size : Nat) (hstart : ∀ b, start = some b → IsSigned b)
    (hstop : ∀ b, stop = some b → IsSigned b) (hstride : IsSigned stride) (h : stride ≠ 0) :
    sliceLength? size start stop stride = some (Infer.sliceLength size start stop stride) := by
  have hwidth : 0 < stride.natAbs := Int.natAbs_pos.2 h
  have hword : stride.natAbs < sizeLimit := by
    unfold IsSigned signedLimit at hstride
    unfold sizeLimit
    omega
  obtain ⟨axis, haxis, hlt⟩ : ∃ axis : Nat, min (size : Int) Infer.sliceLimit = axis ∧ axis < signedLimit :=
    ⟨min size Infer.sliceLimit, by omega, by unfold Infer.sliceLimit signedLimit; omega⟩
  have hsize : (0 : Int) ≤ axis ∧ (axis : Int) < signedLimit := by omega
  have hfirst := Infer.sliceStart_bound axis start stride
  have hlast := Infer.sliceStop_bound axis stop stride
  unfold sliceLength? Infer.sliceLength Infer.sliceSpan
  simp only [haxis, unsigned?_eq hword, Option.bind_eq_bind, Option.bind_some]
  by_cases hup : 0 < stride
  · simp only [Infer.sliceStart, Infer.sliceStop, if_pos hup] at hfirst hlast ⊢
    rw [bound?_eq hstart hsize hsize.1, Option.bind_some, bound?_eq hstop hsize hsize.1, Option.bind_some]
    exact steps?_between (by omega) hwidth
  · simp only [Infer.sliceStart, Infer.sliceStop, if_neg hup] at hfirst hlast ⊢
    rw [signed?_of_isSigned ⟨by omega, by omega⟩, Option.bind_some, bound?_eq hstart hsize (by omega), Option.bind_some,
      bound?_eq hstop hsize (by omega), Option.bind_some]
    exact steps?_between (by omega) hwidth

end

end Word

namespace Infer

/-- **A slice is as long as the places that it takes are many**, all of which lie on the axis, and a machine with
64-bit words finds that number without leaving a word or dividing by zero. -/
theorem sliceLength_eq_encard {size : Nat} {start stop : Option Int} {stride : Int} (hsize : size < signedLimit)
    (hstart : ∀ b, start = some b → IsSigned b) (hstop : ∀ b, stop = some b → IsSigned b)
    (hstride : IsSigned stride) (h : stride ≠ 0) :
    (sliceLength size start stop stride : ℕ∞) = {x | Takes size start stop stride x}.encard ∧
      (∀ x, Takes size start stop stride x → 0 ≤ x ∧ x < size) ∧
      Word.sliceLength? size start stop stride = some (sliceLength size start stop stride) :=
  ⟨(encard_takes hsize h).symm, fun _ hx => hx.on_axis h, Word.sliceLength?_eq size hstart hstop hstride h⟩

/-- Every third place of the longest axis, from its end down to a bound that is as low as bounds can be. -/
theorem sliceLength_eq_encard_backwards :
    (9223372036854775807 < signedLimit ∧ (∀ b, none = some b → IsSigned b) ∧
      (∀ b, some (-9223372036854775808) = some b → IsSigned b) ∧ IsSigned (-3) ∧ (-3 : Int) ≠ 0) ∧
    sliceLength 9223372036854775807 none (some (-9223372036854775808)) (-3) = 3074457345618258603 ∧
    {x | Takes 9223372036854775807 none (some (-9223372036854775808)) (-3) x}.encard = 3074457345618258603 ∧
    Word.sliceLength? 9223372036854775807 none (some (-9223372036854775808)) (-3) = some 3074457345618258603 := by
  have hsize : 9223372036854775807 < signedLimit := by decide
  have hstart : ∀ b, none = some b → IsSigned b := nofun
  have hstop : ∀ b, some (-9223372036854775808) = some b → IsSigned b :=
    fun _ h => Option.some.inj h ▸ ⟨by decide, by decide⟩
  have hstride : IsSigned (-3) := ⟨by decide, by decide⟩
  have hlength : sliceLength 9223372036854775807 none (some (-9223372036854775808)) (-3) = 3074457345618258603 := by decide
  obtain ⟨hcount, -, hword⟩ := sliceLength_eq_encard hsize hstart hstop hstride (by decide)
  rw [hlength] at hcount hword
  exact ⟨⟨hsize, hstart, hstop, hstride, by decide⟩, hlength, hcount.symm, hword⟩

end Infer

/-! ## Slices that take everything -/

/-- **The bounds leave nothing out** of the axes that they slice: both masks are set, and the slice goes on place by
place in either direction.  What the bounds hold does not matter. -/
structure SliceBounds.LeaveNothing (b : SliceBounds) : Prop where
  length_start : b.start.length = b.strides.length
  length_stop : b.stop.length = b.strides.length
  unit_stride : ∀ stride ∈ b.strides, stride = 1 ∨ stride = -1
  start_masked : ∀ axis < b.strides.length, b.startMask.getD axis false = true
  stop_masked : ∀ axis < b.strides.length, b.stopMask.getD axis false = true

/-- A dimension as far as slices see it. -/
def Dimension.seen : Dimension → Dimension
  | .fixed size => .fixed (min size Infer.sliceLimit)
  | .dynamic => .dynamic

theorem Dimension.seen_eq_self_iff {d : Dimension} : d.seen = d ↔ ∀ size, d = .fixed size → size < signedLimit := by
  cases d with
  | dynamic => exact ⟨fun _ => nofun, fun _ => rfl⟩
  | fixed n =>
    rw [seen, Dimension.fixed.injEq, min_eq_left_iff]
    constructor
    · rintro hn _ ⟨⟩
      exact Nat.lt_of_le_of_lt hn (by decide)
    · intro h
      exact Nat.le_pred_of_lt (h n rfl)

/-- A shape of which slices look at the first `count` axes. -/
def Shape.seen (count : Nat) : Shape → Shape
  | .unknown => .unknown
  | .ranked dims => .ranked (dims.mapIdx (fun i d => if i < count then d.seen else d))

theorem Shape.seen_eq_self_iff {count : Nat} {s : Shape} : s.seen count = s ↔
    ∀ dims, s = .ranked dims → ∀ i < count, ∀ size, dims[i]? = some (.fixed size) → size < signedLimit := by
  cases s with
  | unknown => exact ⟨fun _ => nofun, fun _ => rfl⟩
  | ranked dims =>
    rw [seen, Shape.ranked.injEq, List.mapIdx_eq_iff]
    constructor
    · rintro h _ ⟨⟩ i hi size hsize
      have := h i
      rw [hsize, Option.map_some, if_pos hi, Option.some.injEq, eq_comm, Dimension.seen_eq_self_iff] at this
      exact this size rfl
    · intro h i
      cases hd : dims[i]? with
      | none => rfl
      | some d =>
        rw [Option.map_some, Option.some.injEq, eq_comm]
        split
        · rename_i hi
          exact Dimension.seen_eq_self_iff.2 (fun size hsize => h dims rfl i hi size (hsize ▸ hd))
        · rfl

namespace Infer

/-- **From one end of an axis to the other** there are as many places as slices see. -/
theorem sliceLength_whole (size : Nat) {stride : Int} (h : stride = 1 ∨ stride = -1) :
    sliceLength size none none stride = min size sliceLimit := by
  obtain ⟨n, hn⟩ : ∃ n : Nat, min (size : Int) sliceLimit = n := ⟨min size sliceLimit, by omega⟩
  have hspan : sliceSpan n none none stride = n := by
    unfold sliceSpan sliceStart sliceStop
    rcases h with rfl | rfl <;> simp
  have hunit : stride.natAbs = 1 := by rcases h with rfl | rfl <;> rfl
  unfold sliceLength
  simp only [hn, hspan, hunit, Nat.div_one]
  split <;> omega

theorem slicedDim_whole {b : SliceBounds} (hb : b.LeaveNothing) (axis : Nat) (d : Dimension) :
    slicedDim b axis d = if axis < b.strides.length then d.seen else d := by
  unfold slicedDim
  by_cases haxis : axis < b.strides.length
  · have hstride := hb.unit_stride _ (List.getElem_mem haxis)
    rw [if_pos haxis, List.getElem?_eq_getElem haxis]
    cases d with
    | dynamic => rfl
    | fixed size =>
      have hstart : maskedBound b.start b.startMask axis = none := if_pos (hb.start_masked axis haxis)
      have hstop : maskedBound b.stop b.stopMask axis = none := if_pos (hb.stop_masked axis haxis)
      simp only [hstart, hstop, sliceLength_whole size hstride, Dimension.seen]
  · rw [if_neg haxis, List.getElem?_eq_none (Nat.not_lt.1 haxis)]

theorem stridedSlice_whole {b : SliceBounds} (hb : b.LeaveNothing) {x : TensorType}
    (hrank : ∀ rank, x.rank? = some rank → b.strides.length ≤ rank) :
    stridedSlice b x = .ok ⟨x.element, x.shape.seen b.strides.length⟩ := by
  obtain ⟨e, s⟩ := x
  have hzero : b.strides.contains 0 = false := by
    rw [List.contains_eq_any_beq, List.any_eq_false]
    intro stride hmem
    rcases hb.unit_stride stride hmem with rfl | rfl <;> decide
  unfold stridedSlice
  simp only [hb.length_start, hb.length_stop, ne_eq, not_true_eq_false, or_self, if_false, hzero, Bool.false_eq_true]
  cases s with
  | unknown => rfl
  | ranked dims =>
    have hle : b.strides.length ≤ dims.length := hrank _ rfl
    have hdims : slicedDim b = fun i d => if i < b.strides.length then d.seen else d := funext₂ (slicedDim_whole hb)
    simp only [Nat.not_lt.2 hle, if_false, hdims, Shape.seen]

end Infer

namespace Op

/-- **A slice that takes everything gives its input back, but for axes that are longer than slices see.**  Let the bounds
leave nothing out of their axes, of which there are no more than the input has.  The slice is always accepted.  A size
from `signedLimit` on comes out one less than that, and all else is as it was; so the output is the input if no axis that
is sliced has such a size. -/
theorem wholeSlice_eq_self_iff {b : SliceBounds} (hb : b.LeaveNothing) {x : TensorType}
    (hrank : ∀ rank, x.rank? = some rank → b.strides.length ≤ rank) (values : List (Option ConstantData)) :
    (stridedSlice b).validate [x] values = .ok [⟨x.element, x.shape.seen b.strides.length⟩] ∧
    ((stridedSlice b).validate [x] values = .ok [x] ↔ ∀ dims, x.shape = .ranked dims →
      ∀ i < b.strides.length, ∀ size, dims[i]? = some (.fixed size) → size < signedLimit) := by
  have hanswer : (stridedSlice b).validate [x] values = .ok [⟨x.element, x.shape.seen b.strides.length⟩] :=
    single_eq_ok.2 ⟨_, Infer.stridedSlice_whole hb hrank, rfl⟩
  refine ⟨hanswer, ?_⟩
  rw [hanswer, ← Shape.seen_eq_self_iff]
  constructor
  · intro h
    exact congrArg TensorType.shape (List.cons.inj (Except.ok.inj h)).1
  · intro h
    rw [h]

/-- Backwards along the longest axis that slices see, and forwards along an unknown one; the last axis may be longer. -/
theorem wholeSlice_eq_self_iff_backwards :
    (stridedSlice ⟨[5, -7], [9, 0], [-1, 1], [true, true, false], [true, true]⟩).validate
        [⟨.f32, .ranked [.fixed 9223372036854775807, .dynamic, .fixed 18446744073709551615]⟩] [] =
      .ok [⟨.f32, .ranked [.fixed 9223372036854775807, .dynamic, .fixed 18446744073709551615]⟩] := by
  have hb : SliceBounds.LeaveNothing ⟨[5, -7], [9, 0], [-1, 1], [true, true, false], [true, true]⟩ :=
    ⟨rfl, rfl, by decide, by decide, by decide⟩
  refine (wholeSlice_eq_self_iff hb (fun rank h => ?_) []).2.2 ?_
  · obtain rfl : 3 = rank := Option.some.inj h
    decide
  · rintro _ ⟨⟩ i hi size hsize
    match i, hi with
    | 0, _ =>
      obtain rfl := Dimension.fixed.inj (Option.some.inj hsize)
      decide
    | 1, _ => cases hsize

/-- One place more, and a slice that takes everything is one place short. -/
theorem wholeSlice_ne_self :
    SliceBounds.LeaveNothing ⟨[0], [0], [1], [true], [true]⟩ ∧
      (stridedSlice ⟨[0], [0], [1], [true], [true]⟩).validate [⟨.f32, .ranked [.fixed 9223372036854775808]⟩] [] =
        .ok [⟨.f32, .ranked [.fixed 9223372036854775807]⟩] ∧
      (stridedSlice ⟨[0], [0], [1], [true], [true]⟩).validate [⟨.f32, .ranked [.fixed 9223372036854775808]⟩] [] ≠
        .ok [⟨.f32, .ranked [.fixed 9223372036854775808]⟩] := by
  refine ⟨⟨rfl, rfl, by decide, by decide, by decide⟩, rfl, fun h => ?_⟩
  cases h

end Op
end TensorGraph
