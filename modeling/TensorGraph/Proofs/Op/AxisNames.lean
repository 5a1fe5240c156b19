import TensorGraph.Op.Infer
import TensorGraph.Proofs.Op.Reduce
/-!
# Names of axes — counting from the end is only a notation

An operation reads its axes against one rank, which is that of its first input, or of the first input that has one if
inputs are joined (`axisRank?`).  No rule looks at an axis but to resolve it or to cut at it, and two names of one place
are resolved alike.  So operations that differ in the names of their axes (`AxesAlike`) give the same answer, be it types
or an error; and an answer that is not an error needs axes that all name a place.
-/
namespace TensorGraph

namespace Axis

variable {rank i : Nat} {axis a b : Int}

/-- A negative axis and the place that it counts to. -/
theorem alike_add (hlow : -rank ≤ a) (hneg : a < 0) : Alike rank a (a + rank) :=
  .inr ⟨(a + rank).toNat, ⟨by omega, by omega⟩, ⟨by omega, by omega⟩⟩

theorem Names.in_range (h : Names rank axis i) : -rank ≤ axis ∧ axis < rank := by
  unfold Names at h
  omega

theorem Alike.normalize_eq (hrank : rank < signedLimit) (h : Alike rank a b) :
    normalize a (some rank) = normalize b (some rank) := by
  rcases h with rfl | ⟨i, ha, hb⟩
  · rfl
  · rw [(normalize_eq_ok_iff hrank).2 ha, (normalize_eq_ok_iff hrank).2 hb]

theorem Names.cut_eq (h : Names rank axis i) : cut axis rank = .ok i := by
  obtain ⟨hlt, hname⟩ := h
  unfold cut
  rcases hname with rfl | hname
  · simp only [Int.not_lt.2 (Int.natCast_nonneg i), if_false]
    rw [if_pos ⟨by omega, by omega⟩, Int.toNat_natCast]
  · have hneg : axis < 0 := by omega
    simp only [hneg, if_true, hname]
    rw [if_pos ⟨by omega, by omega⟩, Int.toNat_natCast]

theorem Alike.cut_eq (h : Alike rank a b) : cut a rank = cut b rank := by
  rcases h with rfl | ⟨i, ha, hb⟩
  · rfl
  · rw [ha.cut_eq, hb.cut_eq]

theorem in_range_of_normalize (hrank : rank < signedLimit) (h : normalize axis (some rank) = .ok i) :
    -rank ≤ axis ∧ axis < rank :=
  ((normalize_eq_ok_iff hrank).1 h).in_range

/-- A cut may also be made after the last axis. -/
theorem in_range_of_cut (h : cut axis rank = .ok i) : -rank ≤ axis ∧ axis < rank + 1 := by
  unfold cut at h
  by_cases hneg : axis < 0 <;> simp only [hneg, if_true, if_false] at h <;> split at h
  · omega
  · cases h
  · omega
  · cases h

end Axis

namespace Infer

variable {rank : Nat} {a b : Int} {x y t : TensorType} {inputs outs : List TensorType} {β : Type}

/-! ## The rules -/

/-- Rules for one input need to agree only on inputs of the rank that is known. -/
theorem one_congr {f g : TensorType → Except InferError β} (href : inputs.head?.bind TensorType.rank? = some rank)
    (h : ∀ x, x.rank? = some rank → f x = g x) : (one inputs >>= f) = (one inputs >>= g) := by
  match inputs, href with
  | [x], href => exact h x href
  | _ :: _ :: _, _ => rfl

theorem two_congr {f g : TensorType × TensorType → Except InferError β}
    (href : inputs.head?.bind TensorType.rank? = some rank) (h : ∀ x y, x.rank? = some rank → f (x, y) = g (x, y)) :
    (two inputs >>= f) = (two inputs >>= g) := by
  match inputs, href with
  | [_], _ => rfl
  | [x, y], href => exact h x y href
  | _ :: _ :: _ :: _, _ => rfl

theorem exists_dims (hx : x.rank? = some rank) : ∃ dims, x.shape = .ranked dims ∧ dims.length = rank := by
  obtain ⟨e, s⟩ := x
  cases s with
  | unknown => cases hx
  | ranked dims => exact ⟨dims, rfl, Option.some.inj hx⟩

theorem softmax_alike (hrank : rank < signedLimit) (hx : x.rank? = some rank) (h : Axis.Alike rank a b) :
    softmax a x = softmax b x := by
  unfold softmax
  simp only [hx, h.normalize_eq hrank]

theorem reducedAxes_alike (hrank : rank < signedLimit) {as bs : List Int} (h : List.Forall₂ (Axis.Alike rank) as bs) :
    reducedAxes as rank = reducedAxes bs rank := by
  have hmap : as.mapM (fun axis => Axis.normalize axis (some rank)) =
      bs.mapM (fun axis => Axis.normalize axis (some rank)) := by
    induction h with
    | nil => rfl
    | cons hab _ ih => rw [List.mapM_cons, List.mapM_cons, hab.normalize_eq hrank, ih]
  have hempty : as.isEmpty = bs.isEmpty := by cases h <;> rfl
  rw [reducedAxes, reducedAxes, Axis.normalizeAll, Axis.normalizeAll, hmap, hempty]

theorem reduce_alike (hrank : rank < signedLimit) (hx : x.rank? = some rank) {as bs : List Int}
    (h : List.Forall₂ (Axis.Alike rank) as bs) (keepDims : Bool) : reduce as keepDims x = reduce bs keepDims x := by
  obtain ⟨dims, hs, rfl⟩ := exists_dims hx
  unfold reduce
  simp only [hs, reducedAxes_alike hrank h]

theorem flatten_alike (hx : x.rank? = some rank) (h : Axis.Alike rank a b) : flatten a x = flatten b x := by
  obtain ⟨dims, hs, rfl⟩ := exists_dims hx
  unfold flatten
  simp only [hs, h.cut_eq]

theorem split_alike (hrank : rank < signedLimit) (hx : x.rank? = some rank) (h : Axis.Alike rank a b) (parts : Nat) :
    split a parts x = split b parts x := by
  obtain ⟨dims, hs, rfl⟩ := exists_dims hx
  unfold split
  simp only [hs, h.normalize_eq hrank]

theorem concat_alike (hrank : rank < signedLimit)
    (href : (inputs.findSome? (·.shape.dims?)).map List.length = some rank) (h : Axis.Alike rank a b) :
    concat a inputs = concat b inputs := by
  obtain ⟨first, hfirst, rfl⟩ := Option.map_eq_some_iff.1 href
  unfold concat
  simp only [hfirst, h.normalize_eq hrank]

theorem reverseSequence_alike (hrank : rank < signedLimit) (hx : x.rank? = some rank) {c d : Int}
    (h : Axis.Alike rank a b) (h' : Axis.Alike rank c d) : reverseSequence a c x y = reverseSequence b d x y := by
  unfold reverseSequence
  rw [hx, h.normalize_eq hrank, h'.normalize_eq hrank]

/-! ## What the rules accept -/

theorem in_range_of_softmax (hrank : rank < signedLimit) (hx : x.rank? = some rank) (h : softmax a x = .ok t) :
    -rank ≤ a ∧ a < rank := by
  unfold softmax at h
  obtain ⟨_, -, h⟩ := bind_eq_ok.1 h
  simp only [hx] at h
  obtain ⟨_, hi, -⟩ := bind_eq_ok.1 h
  exact Axis.in_range_of_normalize hrank hi

theorem in_range_of_reduce (hrank : rank < signedLimit) (hx : x.rank? = some rank) {axes : List Int} {keepDims : Bool}
    (h : reduce axes keepDims x = .ok t) : ∀ a ∈ axes, -rank ≤ a ∧ a < rank := by
  intro a ha
  obtain ⟨e, s⟩ := x
  obtain ⟨dims, rfl, rfl⟩ := exists_dims hx
  obtain ⟨-, hnames, -⟩ := (reduce_eq_ok_iff hrank (List.ne_nil_of_mem ha)).1 h
  obtain ⟨i, hi⟩ := hnames a ha
  exact hi.in_range

theorem in_range_of_flatten (hx : x.rank? = some rank) (h : flatten a x = .ok t) : -rank ≤ a ∧ a < rank + 1 := by
  obtain ⟨dims, hs, rfl⟩ := exists_dims hx
  unfold flatten at h
  rw [hs] at h
  obtain ⟨_, hi, -⟩ := bind_eq_ok.1 h
  exact Axis.in_range_of_cut hi

theorem in_range_of_split (hrank : rank < signedLimit) (hx : x.rank? = some rank) {parts : Nat}
    (h : split a parts x = .ok outs) : -rank ≤ a ∧ a < rank := by
  obtain ⟨dims, hs, rfl⟩ := exists_dims hx
  unfold split at h
  split at h
  · cases h
  · rw [hs] at h
    obtain ⟨_, hi, -⟩ := bind_eq_ok.1 h
    exact Axis.in_range_of_normalize hrank hi

theorem in_range_of_concat (hrank : rank < signedLimit)
    (href : (inputs.findSome? (·.shape.dims?)).map List.length = some rank) (h : concat a inputs = .ok t) :
    -rank ≤ a ∧ a < rank := by
  obtain ⟨first, hfirst, rfl⟩ := Option.map_eq_some_iff.1 href
  unfold concat at h
  split at h
  · cases h
  · obtain ⟨_, -, h⟩ := bind_eq_ok.1 h
    simp only [hfirst] at h
    obtain ⟨_, hi, -⟩ := bind_eq_ok.1 h
    exact Axis.in_range_of_normalize hrank hi

theorem in_range_of_reverseSequence (hrank : rank < signedLimit) (hx : x.rank? = some rank)
    (h : reverseSequence a b x y = .ok t) : (-rank ≤ a ∧ a < rank) ∧ -rank ≤ b ∧ b < rank := by
  unfold reverseSequence at h
  rw [hx] at h
  obtain ⟨_, hi, h⟩ := bind_eq_ok.1 h
  obtain ⟨_, hj, -⟩ := bind_eq_ok.1 h
  exact ⟨Axis.in_range_of_normalize hrank hi, Axis.in_range_of_normalize hrank hj⟩

end Infer

namespace Op

variable {op op' : Op} {rank : Nat} {inputs outs : List TensorType} {values : List (Option ConstantData)}

/-- The axes among the attributes. -/
def axes : Op → List Int
  | softmax axis | flatten axis | concat axis | split axis _ => [axis]
  | reduce _ axes _ => axes
  | reverseSequence batchAxis seqAxis => [batchAxis, seqAxis]
  | _ => []

/-- The rank against which the axes are read, if it is known. -/
def axisRank? (op : Op) (inputs : List TensorType) : Option Nat :=
  match op with
  | concat _ => (inputs.findSome? (·.shape.dims?)).map List.length
  | _ => inputs.head?.bind TensorType.rank?

/-- The number of places for an axis; `flatten` has one more, after the last axis. -/
def axisPlaces (op : Op) (rank : Nat) : Nat :=
  match op with
  | flatten _ => rank + 1
  | _ => rank

/-- **The operations differ at most in the names of their axes.** -/
inductive AxesAlike (rank : Nat) : Op → Op → Prop where
  | softmax {a b : Int} (h : Axis.Alike rank a b) : AxesAlike rank (.softmax a) (.softmax b)
  | reduce (op : ReduceOp) (keepDims : Bool) {as bs : List Int} (h : List.Forall₂ (Axis.Alike rank) as bs) :
    AxesAlike rank (.reduce op as keepDims) (.reduce op bs keepDims)
  | flatten {a b : Int} (h : Axis.Alike rank a b) : AxesAlike rank (.flatten a) (.flatten b)
  | concat {a b : Int} (h : Axis.Alike rank a b) : AxesAlike rank (.concat a) (.concat b)
  | split (parts : Nat) {a b : Int} (h : Axis.Alike rank a b) : AxesAlike rank (.split a parts) (.split b parts)
  | reverseSequence {a b c d : Int} (hbatch : Axis.Alike rank a b) (hseq : Axis.Alike rank c d) :
    AxesAlike rank (.reverseSequence a c) (.reverseSequence b d)

theorem AxesAlike.type_eq (h : AxesAlike rank op op') : op.type = op'.type := by cases h <;> rfl

theorem AxesAlike.inferTypes_eq (hrank : rank < signedLimit) (href : op.axisRank? inputs = some rank)
    (h : AxesAlike rank op op') : op.inferTypes inputs values = op'.inferTypes inputs values := by
  cases h with
  | softmax h => exact Infer.one_congr href (fun x hx => by rw [Infer.softmax_alike hrank hx h])
  | reduce op keepDims h => exact Infer.one_congr href (fun x hx => by rw [Infer.reduce_alike hrank hx h])
  | flatten h => exact Infer.one_congr href (fun x hx => by rw [Infer.flatten_alike hx h])
  | concat h => rw [inferTypes, inferTypes, Infer.concat_alike hrank href h]
  | split parts h => exact Infer.one_congr href (fun x hx => Infer.split_alike hrank hx h parts)
  | reverseSequence hbatch hseq =>
    exact Infer.two_congr href (fun x y hx => by
      simp only [Infer.reverseSequence_alike hrank hx hbatch hseq])

/-- The one input of an accepted operation has the rank that its axes are read against. -/
theorem rank_of_one {x : TensorType} (h : Infer.one inputs = .ok x)
    (href : inputs.head?.bind TensorType.rank? = some rank) :
    x.rank? = some rank := by
  match inputs, h with
  | [_], h => exact Except.ok.inj h ▸ href

theorem rank_of_two {x y : TensorType} (h : Infer.two inputs = .ok (x, y))
    (href : inputs.head?.bind TensorType.rank? = some rank) : x.rank? = some rank := by
  match inputs, h with
  | [_, _], h => exact (Prod.mk.inj (Except.ok.inj h)).1 ▸ href

/-- **What an accepted operation has for axes are names of places.** -/
theorem in_range_of_inferTypes (hrank : rank < signedLimit) (href : op.axisRank? inputs = some rank)
    (h : op.inferTypes inputs values = .ok outs) : ∀ axis ∈ op.axes, -rank ≤ axis ∧ axis < op.axisPlaces rank := by
  intro axis haxis
  cases op with
  | softmax a =>
    obtain rfl := List.mem_singleton.1 haxis
    obtain ⟨x, hx, h⟩ := bind_eq_ok.1 h
    obtain ⟨t, ht, -⟩ := single_eq_ok.1 h
    exact Infer.in_range_of_softmax hrank (rank_of_one hx href) ht
  | reduce op as keepDims =>
    obtain ⟨x, hx, h⟩ := bind_eq_ok.1 h
    obtain ⟨t, ht, -⟩ := single_eq_ok.1 h
    exact Infer.in_range_of_reduce hrank (rank_of_one hx href) ht axis haxis
  | flatten a =>
    obtain rfl := List.mem_singleton.1 haxis
    obtain ⟨x, hx, h⟩ := bind_eq_ok.1 h
    obtain ⟨t, ht, -⟩ := single_eq_ok.1 h
    exact Infer.in_range_of_flatten (rank_of_one hx href) ht
  | concat a =>
    obtain rfl := List.mem_singleton.1 haxis
    obtain ⟨t, ht, -⟩ := single_eq_ok.1 h
    exact Infer.in_range_of_concat hrank href ht
  | split a parts =>
    obtain rfl := List.mem_singleton.1 haxis
    obtain ⟨x, hx, h⟩ := bind_eq_ok.1 h
    exact Infer.in_range_of_split hrank (rank_of_one hx href) h
  | reverseSequence a b =>
    obtain ⟨⟨x, y⟩, hx, h⟩ := bind_eq_ok.1 h
    obtain ⟨t, ht, -⟩ := single_eq_ok.1 h
    obtain ⟨ha, hb⟩ := Infer.in_range_of_reverseSequence hrank (rank_of_two hx href) ht
    rcases List.mem_pair.1 haxis with rfl | rfl
    · exact ha
    · exact hb
  | _ => cases haxis

/-- **Counting an axis from the end is only a notation.**  Let the rank be known against which the axes of an operation
are read; it is the length of a list in memory, and so fits a signed word.
- Under other names for its axes the operation gives the same answer: the same types, or the same error.  Such a name of
  a negative axis is the axis with the rank added.
- With an axis that counts past either end it is refused; for `flatten` the end is one place further. -/
theorem axes_by_any_name (hrank : rank < signedLimit) (href : op.axisRank? inputs = some rank)
    (values : List (Option ConstantData)) :
    (∀ op', AxesAlike rank op op' → op.validate inputs values = op'.validate inputs values) ∧
    (∀ axis : Int, -rank ≤ axis → axis < 0 → Axis.Alike rank axis (axis + rank)) ∧
    ∀ axis ∈ op.axes, axis < -rank ∨ op.axisPlaces rank ≤ axis → ∃ e, op.validate inputs values = .error e := by
  refine ⟨fun op' h => ?_, fun axis hlow hneg => Axis.alike_add hlow hneg, fun axis haxis hout => ?_⟩
  · unfold validate
    rw [h.type_eq, h.inferTypes_eq hrank href]
  · cases hanswer : op.validate inputs values with
    | error e => exact ⟨e, rfl⟩
    | ok outs =>
      unfold validate at hanswer
      split at hanswer
      · have := in_range_of_inferTypes hrank href hanswer axis haxis
        omega
      · cases hanswer

/-- Sequences along the last axis of a batch along the middle one, with both axes counted from the end; and an axis that
counts one place too far. -/
theorem axes_by_any_name_reversed :
    (3 < signedLimit ∧ (reverseSequence (-2) (-1)).axisRank? [⟨.f32, .ranked [.fixed 2, .dynamic, .fixed 4]⟩,
        ⟨.i64, .ranked [.fixed 3]⟩] = some 3) ∧
      (reverseSequence (-2) (-1)).validate [⟨.f32, .ranked [.fixed 2, .dynamic, .fixed 4]⟩,
          ⟨.i64, .ranked [.fixed 3]⟩] [] = .ok [⟨.f32, .ranked [.fixed 2, .fixed 3, .fixed 4]⟩] ∧
      ∃ e, (reverseSequence 0 (-4)).validate [⟨.f32, .ranked [.fixed 2, .dynamic, .fixed 4]⟩,
          ⟨.i64, .ranked [.fixed 3]⟩] [] = .error e := by
  have hrank : 3 < signedLimit := by decide
  have href : (reverseSequence (-2) (-1)).axisRank? [⟨.f32, .ranked [.fixed 2, .dynamic, .fixed 4]⟩,
      ⟨.i64, .ranked [.fixed 3]⟩] = some 3 := rfl
  have href' : (reverseSequence 0 (-4)).axisRank? [⟨.f32, .ranked [.fixed 2, .dynamic, .fixed 4]⟩,
      ⟨.i64, .ranked [.fixed 3]⟩] = some 3 := rfl
  obtain ⟨hsame, hname, -⟩ := axes_by_any_name hrank href []
  obtain ⟨-, -, hout⟩ := axes_by_any_name hrank href' []
  have hbatch : Axis.Alike 3 (-2) 1 := hname (-2) (by decide) (by decide)
  have hseq : Axis.Alike 3 (-1) 2 := hname (-1) (by decide) (by decide)
  refine ⟨⟨hrank, rfl⟩, ?_, hout (-4) (by decide) (.inl (by decide))⟩
  rw [hsame (reverseSequence 1 2) (.reverseSequence hbatch hseq)]
  rfl

end Op
end TensorGraph
