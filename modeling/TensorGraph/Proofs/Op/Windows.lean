import Mathlib.Data.Set.Card
import Mathlib.Order.Bounds.Basic
import TensorGraph.Op.Infer
import TensorGraph.Proofs.Op.Axes
/-!
# Windows — the output of a pooling operation counts windows

A window stands at the places that it reaches in strides and from which it does not pass the end of the padded axis
(`StandsAt`).  Rounding down counts these places.  Rounding up takes the least number of windows in a row of which the
last one reaches that end (`Reaches`): it is one more, unless the last window ends there exactly.
-/
namespace TensorGraph
namespace AxisWindow

variable {w : AxisWindow} {size count place : Nat} {rounding : Rounding}

/-- The size of the axis with its padding. -/
def padded (w : AxisWindow) (size : Nat) : Nat := size + w.padBegin + w.padEnd

/-- **The window stands at the place**: it gets there in strides, and ends on the padded axis. -/
def StandsAt (w : AxisWindow) (size place : Nat) : Prop :=
  (∃ steps, place = steps * w.stride) ∧ place + w.kernel ≤ w.padded size

/-- **So many windows in a row reach the end of the padded axis.** -/
def Reaches (w : AxisWindow) (size count : Nat) : Prop :=
  1 ≤ count ∧ w.padded size ≤ (count - 1) * w.stride + w.kernel

/-- The padded size is a size, and no smaller than the kernel. -/
structure Fits (w : AxisWindow) (size : Nat) : Prop where
  padded_lt : w.padded size < sizeLimit
  kernel_le : w.kernel ≤ w.padded size

theorem fits_iff : w.Fits size ↔ w.padded size < sizeLimit ∧ w.kernel ≤ w.padded size :=
  ⟨fun h => ⟨h.padded_lt, h.kernel_le⟩, fun h => ⟨h.1, h.2⟩⟩

/-- How far a window that fits can move. -/
def span (w : AxisWindow) (size : Nat) : Nat := w.padded size - w.kernel

theorem outputSize_floor (h : w.Fits size) : w.outputSize .floor size = .ok (w.span size / w.stride + 1) := by
  unfold outputSize
  exact (if_neg (Nat.not_le.2 h.padded_lt)).trans (if_neg (Nat.not_lt.2 h.kernel_le))

theorem outputSize_ceil (h : w.Fits size) :
    w.outputSize .ceil size = .ok ((w.span size + w.stride - 1) / w.stride + 1) := by
  unfold outputSize
  exact (if_neg (Nat.not_le.2 h.padded_lt)).trans (if_neg (Nat.not_lt.2 h.kernel_le))

/-- **A size is refused if the window does not fit**, whatever the rounding. -/
theorem exists_outputSize_eq_error_iff : (∃ fault, w.outputSize rounding size = .error fault) ↔ ¬ w.Fits size := by
  constructor
  · rintro ⟨fault, hfault⟩ h
    cases rounding with
    | floor =>
      rw [outputSize_floor h] at hfault
      cases hfault
    | ceil =>
      rw [outputSize_ceil h] at hfault
      cases hfault
  · intro h
    unfold outputSize
    by_cases hpadded : w.padded size < sizeLimit
    · have hkernel : w.padded size < w.kernel := Nat.not_le.1 (fun hle => h ⟨hpadded, hle⟩)
      exact ⟨_, (if_neg (Nat.not_le.2 hpadded)).trans (if_pos hkernel)⟩
    · exact ⟨_, if_pos (Nat.not_lt.1 hpadded)⟩

/-! ## Rounding down -/

theorem standsAt_iff (hstride : 0 < w.stride) (h : w.Fits size) :
    w.StandsAt size place ↔ ∃ steps < w.span size / w.stride + 1, place = steps * w.stride := by
  have hkernel := h.kernel_le
  have hsteps : ∀ steps, steps < w.span size / w.stride + 1 ↔ steps * w.stride + w.kernel ≤ w.padded size := by
    intro steps
    rw [Nat.lt_succ_iff, Nat.le_div_iff_mul_le hstride]
    unfold span
    omega
  constructor
  · rintro ⟨⟨steps, rfl⟩, hend⟩
    exact ⟨steps, (hsteps steps).2 hend, rfl⟩
  · rintro ⟨steps, hlt, rfl⟩
    exact ⟨⟨steps, rfl⟩, (hsteps steps).1 hlt⟩

/-- **The windows that fit are counted by their steps.** -/
theorem encard_standsAt (hstride : 0 < w.stride) (h : w.Fits size) :
    {place | w.StandsAt size place}.encard = (w.span size / w.stride + 1 : Nat) := by
  have himage : {place | w.StandsAt size place} =
      (fun steps => steps * w.stride) '' (Finset.range (w.span size / w.stride + 1) : Set Nat) := by
    ext place
    simp only [Set.mem_ofPred_eq, standsAt_iff hstride h, Set.mem_image, Finset.mem_coe, Finset.mem_range,
      eq_comm (a := place)]
  have hinjective : Function.Injective (fun steps : Nat => steps * w.stride) :=
    fun _ _ hsteps => Nat.eq_of_mul_eq_mul_right hstride hsteps
  rw [himage, hinjective.encard_image, Set.encard_coe_eq_coe_finsetCard, Finset.card_range]

/-! ## Rounding up -/

/-- A quotient that is rounded up is the least number whose multiple is not less. -/
theorem add_sub_one_div_le_iff {n d k : Nat} (hd : 0 < d) : (n + d - 1) / d ≤ k ↔ n ≤ k * d := by
  rw [← Nat.lt_succ_iff, Nat.div_lt_iff_lt_mul hd, Nat.succ_mul]
  omega

theorem add_sub_one_div_eq {n d : Nat} (hd : 0 < d) : (n + d - 1) / d = if d ∣ n then n / d else n / d + 1 := by
  split
  · rename_i hdvd
    obtain ⟨k, rfl⟩ := hdvd
    rw [Nat.mul_div_cancel_left k hd, Nat.add_sub_assoc hd, Nat.mul_add_div hd, Nat.div_eq_of_lt (by omega),
      Nat.add_zero]
  · rename_i hdvd
    have hrest : 0 < n % d := Nat.pos_of_ne_zero (fun hzero => hdvd (Nat.dvd_of_mod_eq_zero hzero))
    have hsplit : n + d - 1 = d * (n / d + 1) + (n % d - 1) := by
      rw [Nat.mul_succ]
      have := Nat.div_add_mod n d
      omega
    have hlt : n % d - 1 < d := by
      have := Nat.mod_lt n hd
      omega
    rw [hsplit, Nat.mul_add_div hd, Nat.div_eq_of_lt hlt, Nat.add_zero]

theorem reaches_succ_iff (hstride : 0 < w.stride) (h : w.Fits size) :
    w.Reaches size (count + 1) ↔ (w.span size + w.stride - 1) / w.stride ≤ count := by
  have hkernel := h.kernel_le
  rw [add_sub_one_div_le_iff hstride]
  unfold Reaches span
  rw [Nat.add_sub_cancel]
  omega

/-- **No fewer windows reach the end of the axis.** -/
theorem isLeast_reaches (hstride : 0 < w.stride) (h : w.Fits size) :
    IsLeast {count | w.Reaches size count} ((w.span size + w.stride - 1) / w.stride + 1) := by
  refine ⟨(reaches_succ_iff hstride h).2 (Nat.le_refl _), fun count hcount => ?_⟩
  obtain ⟨count, rfl⟩ := Nat.exists_eq_succ_of_ne_zero (Nat.ne_of_gt hcount.1)
  exact Nat.succ_le_succ ((reaches_succ_iff hstride h).1 hcount)

/-- A kernel takes a place of the axis, which leaves room to add one. -/
theorem ceil_lt_sizeLimit (hkernel : 0 < w.kernel) (hstride : 0 < w.stride) (h : w.Fits size) :
    (w.span size + w.stride - 1) / w.stride + 1 < sizeLimit := by
  have hpadded := h.padded_lt
  have hfits := h.kernel_le
  have hspan : (w.span size + w.stride - 1) / w.stride ≤ w.span size :=
    (add_sub_one_div_le_iff hstride).2 (Nat.le_mul_of_pos_right _ hstride)
  unfold span at hspan ⊢
  omega

/-- **What the output size counts**, for both ways of rounding. -/
theorem outputSize_of_fits (hkernel : 0 < w.kernel) (hstride : 0 < w.stride) (h : w.Fits size) :
    ∃ floor ceil, w.outputSize .floor size = .ok floor ∧ w.outputSize .ceil size = .ok ceil ∧
      (floor : ℕ∞) = {place | w.StandsAt size place}.encard ∧ IsLeast {count | w.Reaches size count} ceil ∧
      floor < sizeLimit ∧ ceil < sizeLimit ∧
      ceil = if w.stride ∣ w.padded size - w.kernel then floor else floor + 1 := by
  have hceil : (w.span size + w.stride - 1) / w.stride + 1 =
      if w.stride ∣ w.padded size - w.kernel then w.span size / w.stride + 1 else w.span size / w.stride + 1 + 1 := by
    rw [add_sub_one_div_eq hstride]
    unfold span
    split <;> rfl
  have hlt := ceil_lt_sizeLimit hkernel hstride h
  refine ⟨_, _, outputSize_floor h, outputSize_ceil h, (encard_standsAt hstride h).symm, isLeast_reaches hstride h,
    ?_, hlt, hceil⟩
  rw [hceil] at hlt
  split at hlt <;> omega

/-- An unknown dimension stays unknown, and a size is answered by its windows. -/
theorem outputDim_eq_ok_iff {d out : Dimension} : w.outputDim rounding d = .ok out ↔
    (d = .dynamic ∧ out = .dynamic) ∨ ∃ size n, d = .fixed size ∧ out = .fixed n ∧ w.outputSize rounding size = .ok n := by
  cases d with
  | dynamic => simp [outputDim, eq_comm]
  | fixed size =>
    rw [outputDim, bind_eq_ok]
    constructor
    · rintro ⟨n, hn, h⟩
      exact .inr ⟨size, n, rfl, (Except.ok.inj h).symm, hn⟩
    · rintro (⟨h, -⟩ | ⟨_, n, h, rfl, hn⟩)
      · cases h
      · exact ⟨n, (Dimension.fixed.inj h) ▸ hn, rfl⟩

end AxisWindow

namespace Window

variable {w : Window}

theorem nonzero_of_validate (h : w.validate = .ok ()) : 0 ∉ w.kernel ∧ 0 ∉ w.strides := by
  unfold validate at h
  cases hk : w.kernel.isEmpty with
  | true =>
    rw [hk] at h
    cases h
  | false =>
  simp only [hk, Bool.false_eq_true, if_false] at h
  obtain ⟨⟨⟩, -, h⟩ := bind_eq_ok.1 h
  obtain ⟨⟨⟩, -, h⟩ := bind_eq_ok.1 h
  obtain ⟨⟨⟩, -, h⟩ := bind_eq_ok.1 h
  by_cases hkernel : w.kernel.contains 0 = true
  · rw [if_pos hkernel] at h
    cases h
  rw [if_neg hkernel] at h
  by_cases hstrides : w.strides.contains 0 = true
  · rw [if_pos hstrides] at h
    cases h
  exact ⟨by simpa using hkernel, by simpa using hstrides⟩

/-- **Each axis of a window that was validated** has a kernel and a stride of at least one place. -/
theorem pos_of_mem_axes (h : w.validate = .ok ()) {axis : AxisWindow} (haxis : axis ∈ w.axes) :
    0 < axis.kernel ∧ 0 < axis.stride := by
  obtain ⟨hkernel, hstrides⟩ := nonzero_of_validate h
  obtain ⟨⟨⟨k, s⟩, ⟨b, e⟩⟩, hmem, rfl⟩ := List.mem_map.1 haxis
  obtain ⟨hk, hs⟩ := List.of_mem_zip (List.of_mem_zip hmem).1
  exact ⟨Nat.pos_of_ne_zero (fun h => hkernel (h ▸ hk)), Nat.pos_of_ne_zero (fun h => hstrides (h ▸ hs))⟩

end Window

namespace Infer

variable {w : Window} {rounding : Rounding} {e : ElementType} {t : TensorType}

/-- The spatial dimensions are answered one by one. -/
theorem poolDims_eq_ok_iff : ∀ {ws : List AxisWindow} {ds outs : List Dimension},
    poolDims rounding ws ds = .ok outs ↔
      List.Forall₂ (fun p out => p.1.outputDim rounding p.2 = .ok out) (ws.zip ds) outs
  | [], ds, outs => by simp [poolDims, eq_comm]
  | _ :: _, [], outs => by simp [poolDims, eq_comm]
  | w :: ws, d :: ds, outs => by
    rw [poolDims, List.zip_cons_cons, bind_eq_ok]
    constructor
    · rintro ⟨out, hout, h⟩
      obtain ⟨rest, hrest, h⟩ := bind_eq_ok.1 h
      obtain rfl := Except.ok.inj h
      exact .cons hout (poolDims_eq_ok_iff.1 hrest)
    · rintro (_ | ⟨hout, hrest⟩)
      exact ⟨_, hout, bind_eq_ok.2 ⟨_, poolDims_eq_ok_iff.2 hrest, rfl⟩⟩

/-- **Pooling answers for each spatial dimension apart**, and leaves the first two alone. -/
theorem pool_eq_ok_iff (hw : w.validate = .ok ()) (he : e ≠ .boolean) {dims : List Dimension}
    (hdims : dims.length = w.kernel.length + 2) :
    pool w ⟨e, .ranked dims⟩ = .ok t ↔ ∃ spatial,
      List.Forall₂ (fun p out => p.1.outputDim w.rounding p.2 = .ok out) (w.axes.zip (dims.drop 2)) spatial ∧
      t = ⟨e, .ranked (dims.take 2 ++ spatial)⟩ := by
  have hpool : pool w ⟨e, .ranked dims⟩ = (do
      let spatial ← (poolDims w.rounding w.axes (dims.drop 2)).mapError .invalidAttribute
      return ⟨e, .ranked (dims.take 2 ++ spatial)⟩) := by
    unfold pool
    rw [hw]
    simp only [he, hdims, if_false, ne_eq, not_true_eq_false]
    rfl
  rw [hpool, bind_eq_ok]
  refine exists_congr (fun spatial => ?_)
  rw [mapError_eq_ok, poolDims_eq_ok_iff]
  exact and_congr_right (fun _ => ⟨fun h => (Except.ok.inj h).symm, fun h => congrArg Except.ok h.symm⟩)

end Infer

namespace Op

theorem validate_pool_eq_ok {op : PoolOp} {w : Window} {x : TensorType} {values : List (Option ConstantData)}
    {outs : List TensorType} :
    (pool op w).validate [x] values = .ok outs ↔ ∃ t, Infer.pool w x = .ok t ∧ outs = [t] :=
  single_eq_ok

/-- **Pooling counts windows.**  Let the window be validated.
- On each of its axes a size is refused if the padded size overflows or is smaller than the kernel.  Otherwise rounding
  down counts the places where the window can stand, and rounding up the least number of windows in a row that reach the
  end.  Neither overflows, and they differ by one if the stride does not divide what the kernel leaves of the axis.
- An input of the right rank and not of booleans has its first two dimensions left alone, and each of the others
  answered by the window on its axis; an unknown one stays unknown. -/
theorem pool_counts_windows {w : Window} (hw : w.validate = .ok ()) :
    (∀ axis ∈ w.axes, ∀ size,
      (∀ rounding, (∃ fault, axis.outputSize rounding size = .error fault) ↔
        sizeLimit ≤ size + axis.padBegin + axis.padEnd ∨ size + axis.padBegin + axis.padEnd < axis.kernel) ∧
      (size + axis.padBegin + axis.padEnd < sizeLimit → axis.kernel ≤ size + axis.padBegin + axis.padEnd →
        ∃ floor ceil, axis.outputSize .floor size = .ok floor ∧ axis.outputSize .ceil size = .ok ceil ∧
          (floor : ℕ∞) = {place | axis.StandsAt size place}.encard ∧ IsLeast {count | axis.Reaches size count} ceil ∧
          floor < sizeLimit ∧ ceil < sizeLimit ∧
          ceil = if axis.stride ∣ size + axis.padBegin + axis.padEnd - axis.kernel then floor else floor + 1)) ∧
    ∀ (op : PoolOp) (e : ElementType) (dims : List Dimension) (values : List (Option ConstantData)), e ≠ .boolean →
      dims.length = w.kernel.length + 2 → ∀ outs, (pool op w).validate [⟨e, .ranked dims⟩] values = .ok outs ↔
        ∃ spatial, outs = [⟨e, .ranked (dims.take 2 ++ spatial)⟩] ∧
          List.Forall₂ (fun p out => (p.2 = .dynamic ∧ out = .dynamic) ∨
              ∃ size n, p.2 = .fixed size ∧ out = .fixed n ∧ p.1.outputSize w.rounding size = .ok n)
            (w.axes.zip (dims.drop 2)) spatial := by
  refine ⟨fun axis haxis size => ⟨fun rounding => ?_, fun hpadded hle => ?_⟩, fun op e dims values he hdims outs => ?_⟩
  · rw [AxisWindow.exists_outputSize_eq_error_iff, AxisWindow.fits_iff, not_and_or, Nat.not_lt, Nat.not_le]
    exact Iff.rfl
  · obtain ⟨hkernel, hstride⟩ := Window.pos_of_mem_axes hw haxis
    exact AxisWindow.outputSize_of_fits hkernel hstride ⟨hpadded, hle⟩
  · simp only [← AxisWindow.outputDim_eq_ok_iff]
    rw [validate_pool_eq_ok]
    simp only [Infer.pool_eq_ok_iff hw he hdims]
    constructor
    · rintro ⟨_, ⟨spatial, hspatial, rfl⟩, rfl⟩
      exact ⟨spatial, rfl, hspatial⟩
    · rintro ⟨spatial, rfl, hspatial⟩
      exact ⟨_, ⟨spatial, hspatial, rfl⟩, rfl⟩

/-- An axis that its padding makes as long as axes can be: the last window takes one place, and one more place is
refused. -/
theorem pool_counts_windows_of_longest :
    (Window.mk [2] [2] [1] [0] .ceil).validate = .ok () ∧
      {place | (AxisWindow.mk 2 2 1 0).StandsAt 18446744073709551614 place}.encard = 9223372036854775807 ∧
      (AxisWindow.mk 2 2 1 0).outputSize .ceil 18446744073709551614 = .ok 9223372036854775808 ∧
      (∃ fault, (AxisWindow.mk 2 2 1 0).outputSize .ceil 18446744073709551615 = .error fault) ∧
      (pool .max (Window.mk [2] [2] [1] [0] .ceil)).validate
          [⟨.f32, .ranked [.dynamic, .fixed 3, .fixed 18446744073709551614]⟩] [] =
        .ok [⟨.f32, .ranked [.dynamic, .fixed 3, .fixed 9223372036854775808]⟩] := by
  have hw : (Window.mk [2] [2] [1] [0] .ceil).validate = .ok () := rfl
  have haxis : AxisWindow.mk 2 2 1 0 ∈ (Window.mk [2] [2] [1] [0] .ceil).axes := List.mem_singleton.2 rfl
  obtain ⟨hsizes, htypes⟩ := pool_counts_windows hw
  obtain ⟨floor, ceil, hfloor, hceil, hcount, -⟩ := (hsizes _ haxis 18446744073709551614).2 (by decide) (by decide)
  have hfloor' : (AxisWindow.mk 2 2 1 0).outputSize .floor 18446744073709551614 = .ok 9223372036854775807 := rfl
  have hceil' : (AxisWindow.mk 2 2 1 0).outputSize .ceil 18446744073709551614 = .ok 9223372036854775808 := rfl
  refine ⟨hw, ?_, hceil', ((hsizes _ haxis _).1 _).2 (.inl (by decide)), ?_⟩
  · rw [← hcount, Except.ok.inj (hfloor.symm.trans hfloor')]
    rfl
  · exact (htypes .max .f32 _ [] (by decide) rfl _).2 ⟨[.fixed 9223372036854775808], rfl,
      .cons (.inr ⟨_, _, rfl, rfl, hceil'⟩) .nil⟩

end Op
end TensorGraph
