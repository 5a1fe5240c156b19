import Mathlib.Data.Nat.Bitwise
import TensorGraph.Binary.Number
import TensorGraph.Proofs.Binary.Rounding
/-!
# Half — narrowing rounds to the nearest number

Narrowing is written on the bits of a word, with a branch for each range of the exponent.  A branch that drops low bits
of a significand looks at the first of them, at the others, and at the last bit that stays; this is `shiftToEven`
(`shiftToEven_eq`).  What is left to see is that each branch shifts by as many places as `Format.roundMagnitude` does and
puts the result in the same place, so the pattern is the one that `Format.convert` writes (`toNat_bits_ofSingle`).  That
it is the nearest one is known of all formats.
-/
namespace TensorGraph

open Binary (Datum Format shiftToEven shiftToEven_le shiftToEven_eq_zero shiftToEven_add_mul signedNumber)

namespace Half

/-! ## Words -/

theorem and_field (n w k : Nat) : n &&& (2 ^ w - 1) * 2 ^ k = n / 2 ^ k % 2 ^ w * 2 ^ k := by
  apply Nat.eq_of_testBit_eq
  intro i
  rw [Nat.testBit_and, Nat.testBit_mul_two_pow, Nat.testBit_mul_two_pow, Nat.testBit_two_pow_sub_one,
    Nat.testBit_mod_two_pow, Nat.testBit_div_two_pow]
  by_cases h : k ≤ i
  · simp [h, Bool.and_comm, Nat.sub_add_cancel h]
  · simp [h]

theorem toNat_sign (w : UInt32) :
    ((w &&& 0x80000000) >>> 16).toNat = if Format.single.isNegative w.toNat then 2 ^ 15 else 0 := by
  have h : w.toNat &&& 2 ^ 31 = (w.toNat.testBit 31).toNat * 2 ^ 31 := Nat.and_two_pow w.toNat 31
  rw [UInt32.toNat_shiftRight, UInt32.toNat_and]
  show (w.toNat &&& 2 ^ 31) >>> 16 = if w.toNat.testBit 31 then 2 ^ 15 else 0
  rw [h]
  cases w.toNat.testBit 31 <;> rfl

theorem toNat_sign_or (w r : UInt32) (h : r.toNat < 2 ^ 15) :
    ((w &&& 0x80000000) >>> 16 ||| r).toNat = Format.half.withSign (Format.single.isNegative w.toNat) r.toNat := by
  rw [UInt32.toNat_or, toNat_sign]
  unfold Format.withSign
  split
  · exact (Nat.two_pow_add_eq_or_of_lt h 1).symm
  · exact Nat.zero_or _

theorem withSign_eq_add (negative : Bool) (n : Nat) :
    Format.half.withSign negative n = negative.toNat * 2 ^ 15 + n := by
  cases negative with
  | false => exact (Nat.zero_add n).symm
  | true => rfl

theorem withSign_lt (negative : Bool) {n : Nat} (hn : n < 2 ^ 15) : Format.half.withSign negative n < 2 ^ 16 := by
  have hsign := negative.toNat_le
  rw [withSign_eq_add]
  omega

theorem toNat_bits_ofWord {w : UInt32} {negative : Bool} {n : Nat} (hw : w.toNat = Format.half.withSign negative n)
    (hn : n < 2 ^ 15) : (ofWord w).bits.toNat = Format.half.withSign negative n := by
  have hlt := withSign_lt negative hn
  rw [← hw] at hlt ⊢
  exact (UInt32.toNat_toUInt16 w).trans (Nat.mod_eq_of_lt hlt)

theorem toNat_shiftRight (w : UInt32) {k : Nat} (hk : k < 32) : (w >>> UInt32.ofNat k).toNat = w.toNat / 2 ^ k := by
  have hmod : (UInt32.ofNat k).toNat % 32 = k := by
    rw [UInt32.toNat_ofNat_of_lt' (by show k < 2 ^ 32; omega), Nat.mod_eq_of_lt hk]
  rw [UInt32.toNat_shiftRight, hmod, Nat.shiftRight_eq_div_pow]

theorem toNat_shiftLeft (n : Nat) {k : Nat} (hk : k < 32) (hn : n * 2 ^ k < 2 ^ 32) :
    (UInt32.ofNat n <<< UInt32.ofNat k).toNat = n * 2 ^ k := by
  have hmod : (UInt32.ofNat k).toNat % 32 = k := by
    rw [UInt32.toNat_ofNat_of_lt' (by show k < 2 ^ 32; omega), Nat.mod_eq_of_lt hk]
  have hn' : n < 2 ^ 32 := Nat.lt_of_le_of_lt (Nat.le_mul_of_pos_right n (Nat.two_pow_pos k)) hn
  rw [UInt32.toNat_shiftLeft, hmod, UInt32.toNat_ofNat_of_lt' hn', Nat.shiftLeft_eq, Nat.mod_eq_of_lt hn]

theorem toNat_roundedUp (up : Bool) {w : UInt32} (hw : w.toNat < 2 ^ 31) :
    (if up then w + 1 else w).toNat = if up then w.toNat + 1 else w.toNat := by
  split
  · rw [UInt32.toNat_add]
    exact Nat.mod_eq_of_lt (by show w.toNat + 1 < 2 ^ 32; omega)
  · rfl

/-! ## Rounding by the bits -/

theorem bne_zero_iff (w : UInt32) : (w != 0) = true ↔ w.toNat ≠ 0 := by
  rw [bne_iff_ne, ne_eq, ← UInt32.toNat_inj]
  rfl

theorem toNat_mask {r : UInt32} {k : Nat} (hk : k < 30) (hr : r.toNat = 2 ^ k) :
    (3 * r - 1).toNat = 2 ^ (k + 1) ||| (2 ^ k - 1) := by
  have hpos : 0 < 2 ^ k := Nat.two_pow_pos k
  have hle : 2 ^ k ≤ 2 ^ 29 := Nat.pow_le_pow_right (by decide) (by omega)
  have hmul : (3 * r).toNat = 3 * 2 ^ k := by
    rw [UInt32.toNat_mul, hr]
    exact Nat.mod_eq_of_lt (by show 3 * 2 ^ k < 2 ^ 32; omega)
  have hone : (1 : UInt32) ≤ 3 * r := by
    rw [UInt32.le_iff_toNat_le, hmul]
    show 1 ≤ 3 * 2 ^ k
    omega
  have hor := Nat.two_pow_add_eq_or_of_lt (i := k) (b := 2 ^ k - 1) (by omega) 2
  rw [UInt32.toNat_sub_of_le _ _ hone, hmul, Nat.pow_succ', Nat.mul_comm 2, ← hor]
  show 3 * 2 ^ k - 1 = 2 ^ k * 2 + (2 ^ k - 1)
  omega

theorem roundsUp_iff {w r : UInt32} {k : Nat} (hk : k < 30) (hr : r.toNat = 2 ^ k) :
    roundsUp w r = true ↔
      w.toNat / 2 ^ k % 2 = 1 ∧ (w.toNat / 2 ^ (k + 1) % 2 = 1 ∨ w.toNat % 2 ^ k ≠ 0) := by
  have hbit : ∀ i, w.toNat &&& 2 ^ i = 0 ↔ w.toNat / 2 ^ i % 2 = 0 := fun i => by
    rw [Nat.and_two_pow, Nat.toNat_testBit, Nat.mul_eq_zero, or_iff_left (Nat.two_pow_pos i).ne']
  unfold roundsUp
  rw [Bool.and_eq_true, bne_zero_iff, bne_zero_iff, UInt32.toNat_and, UInt32.toNat_and, hr, toNat_mask hk hr,
    Nat.and_or_distrib_left, ne_eq, ne_eq, Nat.or_eq_zero_iff, hbit, hbit, Nat.and_two_pow_sub_one_eq_mod]
  omega

/-- **Rounding up by the bits is rounding to even.** -/
theorem shiftToEven_eq {w r : UInt32} {k : Nat} (hk : k < 30) (hr : r.toNat = 2 ^ k) :
    shiftToEven w.toNat (k + 1) =
      if roundsUp w r then w.toNat / 2 ^ (k + 1) + 1 else w.toNat / 2 ^ (k + 1) := by
  have hrest := Nat.mod_lt w.toNat (Nat.two_pow_pos k)
  have hsplit : w.toNat % 2 ^ (k + 1) = w.toNat % 2 ^ k + 2 ^ k * (w.toNat / 2 ^ k % 2) := Nat.mod_pow_succ
  unfold shiftToEven
  simp only [roundsUp_iff hk hr, Nat.pow_eq]
  refine if_congr ?_ rfl rfl
  rw [hsplit, Nat.pow_succ]
  rcases Nat.mod_two_eq_zero_or_one (w.toNat / 2 ^ k) with hbit | hbit <;> rw [hbit] <;> omega

/-! ## What the exact rounding does -/

section Finite

variable {exponent fraction : Nat}

theorem lastPlace_normal (hfraction : fraction < 2 ^ 23) (hpos : 1 ≤ exponent) :
    Format.half.lastPlace (2 ^ 23 + fraction) (Format.single.minExponent + (exponent - 1)) =
      max ((exponent : Int) - 137) (-24) := by
  have hlog : (2 ^ 23 + fraction).log2 = 23 := (Nat.log2_eq_iff (by omega)).2 ⟨by omega, by omega⟩
  unfold Format.lastPlace
  rw [hlog]
  show max (-149 + ((exponent : Int) - 1) + 23 - 10) (-24) = _
  omega

theorem roundMagnitude_normal (hfraction : fraction < 2 ^ 23) (hexponent : 113 ≤ exponent) :
    Format.half.roundMagnitude (2 ^ 23 + fraction) (Format.single.minExponent + (exponent - 1)) =
      min ((exponent - 112) * 2 ^ 10 + shiftToEven fraction 13) 31744 := by
  have hplace : Format.half.lastPlace (2 ^ 23 + fraction) (Format.single.minExponent + (exponent - 1)) =
      (exponent : Int) - 137 := by
    rw [lastPlace_normal hfraction (by omega), max_eq_left (by omega)]
  have hmin : Format.single.minExponent = -149 := rfl
  have hshift : ((exponent : Int) - 137 - (Format.single.minExponent + (exponent - 1))).toNat = 13 := by omega
  have hlow : ((exponent : Int) - 137 - Format.half.minExponent).toNat = exponent - 113 := by
    show ((exponent : Int) - 137 - -24).toNat = _
    omega
  rw [Format.roundMagnitude_of_lastPlace (by omega) hplace (by omega), hshift, hlow,
    show (2 : Nat) ^ 23 = 2 ^ 10 * 2 ^ 13 from rfl, shiftToEven_add_mul _ _ rfl]
  show min (_ + (exponent - 113) * 2 ^ 10) (31 * 2 ^ 10) = _
  omega

theorem roundMagnitude_subnormal (hfraction : fraction < 2 ^ 23) (hpos : 1 ≤ exponent) (hexponent : exponent < 113) :
    Format.half.roundMagnitude (2 ^ 23 + fraction) (Format.single.minExponent + (exponent - 1)) =
      shiftToEven (2 ^ 23 + fraction) (126 - exponent) := by
  have hplace : Format.half.lastPlace (2 ^ 23 + fraction) (Format.single.minExponent + (exponent - 1)) = -24 := by
    rw [lastPlace_normal hfraction hpos, max_eq_right (by omega)]
  have hmin : Format.single.minExponent = -149 := rfl
  have hshift : (-24 - (Format.single.minExponent + ((exponent : Int) - 1))).toNat = 126 - exponent := by omega
  have hle := shiftToEven_le (2 ^ 23 + fraction) (126 - exponent)
  have hsmall : (2 ^ 23 + fraction) / 2 ^ (126 - exponent) ≤ (2 ^ 23 + fraction) / 2 ^ 14 :=
    Nat.div_le_div_left (Nat.pow_le_pow_right (by decide) (by omega)) (by decide)
  rw [Format.roundMagnitude_of_lastPlace (by omega) hplace (by omega), hshift]
  show min (_ + 0 * 2 ^ 10) (31 * 2 ^ 10) = _
  omega

theorem roundMagnitude_underflow (hfraction : fraction < 2 ^ 23) :
    Format.half.roundMagnitude fraction Format.single.minExponent = 0 := by
  by_cases hzero : fraction = 0
  · exact if_pos hzero
  have hlog : fraction.log2 < 23 := (Nat.log2_lt hzero).2 hfraction
  have hplace : Format.half.lastPlace fraction Format.single.minExponent = -24 := by
    show max (-149 + (fraction.log2 : Int) - 10) (-24) = -24
    omega
  rw [Format.roundMagnitude_of_lastPlace hzero hplace (by decide)]
  show min (shiftToEven fraction 125 + 0) _ = 0
  rw [shiftToEven_eq_zero (by omega)]
  rfl

end Finite

/-! ## What the bits do -/

/-- The fields of a pattern of single precision. -/
structure HasFields (x : Single) (negative : Bool) (exponent fraction : Nat) : Prop where
  sign : Format.single.isNegative x.bits.toNat = negative
  exponent : Format.single.exponentField x.bits.toNat = exponent
  fraction : Format.single.fractionField x.bits.toNat = fraction

namespace HasFields

variable {x : Single} {negative : Bool} {exponent fraction : Nat}

theorem fraction_lt (h : HasFields x negative exponent fraction) : fraction < 2 ^ 23 :=
  h.fraction ▸ Nat.mod_lt _ (by decide)

theorem toNat_exponent (h : HasFields x negative exponent fraction) :
    (x.bits &&& 0x7F800000).toNat = exponent * 2 ^ 23 := by
  rw [← h.exponent]
  exact and_field x.bits.toNat 8 23

theorem exponent_eq_iff (h : HasFields x negative exponent fraction) :
    x.bits &&& 0x7F800000 = 0x7F800000 ↔ exponent = 255 := by
  rw [← UInt32.toNat_inj, h.toNat_exponent]
  show exponent * 2 ^ 23 = 255 * 2 ^ 23 ↔ _
  omega

theorem rebased_eq (h : HasFields x negative exponent fraction) :
    (((x.bits &&& 0x7F800000) >>> 23).toNat : Int) - 127 + 15 = (exponent : Int) - 112 := by
  rw [UInt32.toNat_shiftRight, h.toNat_exponent, Nat.shiftRight_eq_div_pow]
  show ((exponent * 2 ^ 23 / 2 ^ 23 : Nat) : Int) - 127 + 15 = _
  omega

theorem toNat_fraction (h : HasFields x negative exponent fraction) : (x.bits &&& 0x7FFFFF).toNat = fraction := by
  rw [← h.fraction]
  exact Nat.and_two_pow_sub_one_eq_mod x.bits.toNat 23

theorem toNat_upper (h : HasFields x negative exponent fraction) :
    ((x.bits &&& 0x7FFFFF) >>> 13).toNat = fraction / 2 ^ 13 := by
  rw [UInt32.toNat_shiftRight, h.toNat_fraction]
  exact Nat.shiftRight_eq_div_pow fraction 13

theorem toNat_sign_or (h : HasFields x negative exponent fraction) {r : UInt32} {n : Nat} (hr : r.toNat = n)
    (hn : n < 2 ^ 15) :
    ((x.bits &&& 0x80000000) >>> 16 ||| r).toNat = Format.half.withSign negative n := by
  rw [← h.sign, Half.toNat_sign_or _ _ (hr ▸ hn), hr]

theorem bits_special (h : HasFields x negative exponent fraction) (hexponent : exponent = 255) :
    (ofSingle x).bits.toNat =
      Format.half.withSign negative (31744 ||| ((if fraction = 0 then 0 else 512) ||| fraction / 2 ^ 13)) := by
  have hlt := h.fraction_lt
  have hquiet : (if x.bits &&& 0x7FFFFF = 0 then 0 else 0x200 : UInt32).toNat = if fraction = 0 then 0 else 512 := by
    simp only [← UInt32.toNat_inj, h.toNat_fraction]
    split <;> split <;> first | rfl | contradiction
  have hword : ((0x7C00 : UInt32) ||| ((if x.bits &&& 0x7FFFFF = 0 then 0 else 0x200 : UInt32) |||
      (x.bits &&& 0x7FFFFF) >>> 13)).toNat = 31744 ||| ((if fraction = 0 then 0 else 512) ||| fraction / 2 ^ 13) := by
    rw [UInt32.toNat_or, UInt32.toNat_or, hquiet, h.toNat_upper]
    rfl
  have hbound : 31744 ||| ((if fraction = 0 then 0 else 512) ||| fraction / 2 ^ 13) < 2 ^ 15 := by
    refine Nat.or_lt_two_pow (by decide) (Nat.or_lt_two_pow ?_ (by omega))
    split <;> decide
  unfold ofSingle
  simp only []
  rw [if_pos (h.exponent_eq_iff.2 hexponent), UInt32.or_assoc, UInt32.or_assoc]
  exact toNat_bits_ofWord (h.toNat_sign_or hword hbound) hbound

theorem bits_overflow (h : HasFields x negative exponent fraction) (hexponent : 143 ≤ exponent)
    (hfinite : exponent ≠ 255) : (ofSingle x).bits.toNat = Format.half.withSign negative 31744 := by
  unfold ofSingle
  simp only [h.rebased_eq]
  rw [if_neg (mt h.exponent_eq_iff.1 hfinite), if_pos (by omega)]
  exact toNat_bits_ofWord (h.toNat_sign_or rfl (by decide)) (by decide)

theorem bits_underflow (h : HasFields x negative exponent fraction) (hexponent : exponent < 102) :
    (ofSingle x).bits.toNat = Format.half.withSign negative 0 := by
  have hword : ((x.bits &&& 0x80000000) >>> 16).toNat = Format.half.withSign negative 0 := by
    have := h.toNat_sign_or (r := 0) rfl (by decide)
    rwa [UInt32.or_zero] at this
  unfold ofSingle
  simp only [h.rebased_eq]
  rw [if_neg (mt h.exponent_eq_iff.1 (by omega)), if_neg (by omega), if_pos (by omega), if_pos (by omega)]
  exact toNat_bits_ofWord hword (by decide)

theorem bits_subnormal (h : HasFields x negative exponent fraction) (hlow : 102 ≤ exponent) (hhigh : exponent < 113) :
    (ofSingle x).bits.toNat = Format.half.withSign negative (shiftToEven (2 ^ 23 + fraction) (126 - exponent)) := by
  have hlt := h.fraction_lt
  have hsignificand : (x.bits &&& 0x7FFFFF ||| 0x800000).toNat = 2 ^ 23 + fraction := by
    rw [UInt32.toNat_or, h.toNat_fraction, Nat.or_comm]
    exact (Nat.two_pow_add_eq_or_of_lt hlt 1).symm
  obtain ⟨k, hk⟩ : ∃ k, exponent + k = 125 := ⟨125 - exponent, by omega⟩
  have hshift : (14 - ((exponent : Int) - 112)).toNat = k + 1 := by omega
  have hround : (13 - ((exponent : Int) - 112)).toNat = k := by omega
  have hplaces : 126 - exponent = k + 1 := by omega
  have hbit : ((1 : UInt32) <<< UInt32.ofNat k).toNat = 2 ^ k := by
    have := toNat_shiftLeft 1 (k := k) (by omega) (by
      rw [Nat.one_mul]
      exact Nat.pow_lt_pow_right (by decide) (by omega))
    rwa [Nat.one_mul] at this
  have hrounded := shiftToEven_eq (w := x.bits &&& 0x7FFFFF ||| 0x800000) (by omega) hbit
  have hkept : ((x.bits &&& 0x7FFFFF ||| 0x800000) >>> UInt32.ofNat (k + 1)).toNat =
      (2 ^ 23 + fraction) / 2 ^ (k + 1) := by
    rw [toNat_shiftRight _ (by omega), hsignificand]
  have hsmall : (2 ^ 23 + fraction) / 2 ^ (k + 1) ≤ (2 ^ 23 + fraction) / 2 ^ 14 :=
    Nat.div_le_div_left (Nat.pow_le_pow_right (by decide) (by omega)) (by decide)
  have hle := shiftToEven_le (2 ^ 23 + fraction) (k + 1)
  unfold ofSingle
  simp only [h.rebased_eq, hshift, hround, hplaces]
  rw [if_neg (mt h.exponent_eq_iff.1 (by omega)), if_neg (by omega), if_pos (by omega), if_neg (by omega)]
  refine toNat_bits_ofWord (h.toNat_sign_or ?_ (by omega)) (by omega)
  rw [toNat_roundedUp _ (by omega), hkept, ← hsignificand, hrounded]

theorem bits_normal (h : HasFields x negative exponent fraction) (hlow : 113 ≤ exponent) (hhigh : exponent < 143) :
    (ofSingle x).bits.toNat =
      Format.half.withSign negative ((exponent - 112) * 2 ^ 10 + shiftToEven fraction 13) := by
  have hlt := h.fraction_lt
  have hplace : (UInt32.ofNat (exponent - 112) <<< 10).toNat = 2 ^ 10 * (exponent - 112) := by
    have := toNat_shiftLeft (exponent - 112) (k := 10) (by decide) (by omega)
    rwa [Nat.mul_comm] at this
  have hrebased : ((exponent : Int) - 112).toNat = exponent - 112 := by omega
  have hmagnitude : (UInt32.ofNat (exponent - 112) <<< 10 ||| (x.bits &&& 0x7FFFFF) >>> 13).toNat =
      (exponent - 112) * 2 ^ 10 + fraction / 2 ^ 13 := by
    rw [UInt32.toNat_or, hplace, h.toNat_upper, ← Nat.two_pow_add_eq_or_of_lt (by omega), Nat.mul_comm]
  have hkept := h.toNat_sign_or hmagnitude (by omega)
  have hrounded := shiftToEven_eq (w := x.bits &&& 0x7FFFFF) (r := 0x1000) (k := 12) (by decide) rfl
  have hle := shiftToEven_le fraction 13
  rw [h.toNat_fraction] at hrounded
  unfold ofSingle
  simp only [h.rebased_eq, hrebased]
  rw [if_neg (mt h.exponent_eq_iff.1 (by omega)), if_neg (by omega), if_neg (by omega), UInt32.or_assoc]
  refine toNat_bits_ofWord ?_ (by omega)
  have hbound := withSign_lt negative (n := (exponent - 112) * 2 ^ 10 + fraction / 2 ^ 13) (by omega)
  rw [toNat_roundedUp _ (by omega), hkept, hrounded, withSign_eq_add, withSign_eq_add]
  split <;> omega

theorem datum_eq (h : HasFields x negative exponent fraction) : x.datum =
    if exponent = 255 then if fraction = 0 then .infinite negative else .nan negative fraction
    else if exponent = 0 then .finite negative fraction Format.single.minExponent
    else .finite negative (2 ^ 23 + fraction) (Format.single.minExponent + (exponent - 1)) := by
  obtain ⟨rfl, rfl, rfl⟩ := h
  rfl

end HasFields

theorem hasFields (x : Single) : HasFields x (Format.single.isNegative x.bits.toNat)
    (Format.single.exponentField x.bits.toNat) (Format.single.fractionField x.bits.toNat) := ⟨rfl, rfl, rfl⟩

/-- **The bits are those of the exact rounding.** -/
theorem toNat_bits_ofSingle (x : Single) : (ofSingle x).bits.toNat = Format.single.convert .half x.bits.toNat := by
  have h := hasFields x
  have hfraction := h.fraction_lt
  have hdatum := h.datum_eq
  generalize Format.single.isNegative x.bits.toNat = negative at *
  generalize Format.single.exponentField x.bits.toNat = exponent at *
  generalize Format.single.fractionField x.bits.toNat = fraction at *
  by_cases hspecial : exponent = 255
  · rw [if_pos hspecial] at hdatum
    rw [h.bits_special hspecial]
    by_cases hzero : fraction = 0
    · rw [Format.convert_infinite (hdatum.trans (if_pos hzero)), if_pos hzero, hzero]
      rfl
    · rw [Format.convert_nan (hdatum.trans (if_neg hzero)), if_neg hzero, ← Nat.or_assoc]
      show _ = Format.half.withSign negative (31744 ||| 512 ||| fraction * 1 / 2 ^ 13)
      rw [Nat.mul_one]
  rw [if_neg hspecial] at hdatum
  by_cases hzero : exponent = 0
  · rw [Format.convert_finite (hdatum.trans (if_pos hzero)), h.bits_underflow (by omega),
      roundMagnitude_underflow hfraction]
  rw [Format.convert_finite (hdatum.trans (if_neg hzero))]
  by_cases hnormal : 113 ≤ exponent
  · rw [roundMagnitude_normal hfraction hnormal]
    by_cases hlarge : 143 ≤ exponent
    · rw [h.bits_overflow hlarge hspecial, min_eq_right (by omega)]
    · have hle := shiftToEven_le fraction 13
      rw [h.bits_normal hnormal (by omega), min_eq_left (by omega)]
  · rw [roundMagnitude_subnormal hfraction (by omega) (by omega)]
    by_cases hsmall : exponent < 102
    · have hpow : 2 ^ 25 ≤ 2 ^ (126 - exponent) := Nat.pow_le_pow_right (by decide) (by omega)
      rw [h.bits_underflow hsmall, shiftToEven_eq_zero (by omega)]
    · rw [h.bits_subnormal (by omega) (by omega)]

/-! ## The nearest half -/

theorem isNegative_eq (h : Half) : h.isNegative = Format.half.isNegative h.bits.toNat := by
  have hand : (h.bits &&& 0x8000).toNat = (h.bits.toNat.testBit 15).toNat * 2 ^ 15 := Nat.and_two_pow h.bits.toNat 15
  show (h.bits &&& 0x8000 != 0) = h.bits.toNat.testBit 15
  rw [Bool.eq_iff_iff, bne_iff_ne, ne_eq, ← UInt16.toNat_inj, hand]
  cases h.bits.toNat.testBit 15 <;> decide

section Rounded

variable {x : Single} {negative : Bool} {payload n : Nat} {v : ℚ}

theorem eq_of_toNat_bits {h h' : Half} (heq : h.bits.toNat = h'.bits.toNat) : h = h' := by
  cases h
  cases h'
  rw [Half.mk.injEq]
  exact UInt16.toNat_inj.1 heq

theorem payload_lt (hx : x.datum = .nan negative payload) : payload < 2 ^ 23 := by
  have h := hasFields x
  have hdatum := h.datum_eq
  rw [hx] at hdatum
  split at hdatum
  · split at hdatum <;> cases hdatum
    exact h.fraction_lt
  · split at hdatum <;> cases hdatum

/-- The fraction of a NaN is not zero, as the quiet bit is set. -/
theorem quiet_bounds (hx : x.datum = .nan negative payload) :
    512 ≤ 512 ||| payload / 2 ^ 13 ∧ 512 ||| payload / 2 ^ 13 < 2 ^ 10 := by
  have hlt := payload_lt hx
  exact ⟨Nat.left_le_or, Nat.or_lt_two_pow (by decide) (by omega)⟩

theorem bits_of_nan (hx : x.datum = .nan negative payload) :
    (ofSingle x).bits.toNat = Format.half.withSign negative (31 * 2 ^ 10 + (512 ||| payload / 2 ^ 13)) := by
  rw [toNat_bits_ofSingle, Format.convert_nan hx, Nat.mul_comm 31, Nat.two_pow_add_eq_or_of_lt (quiet_bounds hx).2,
    ← Nat.or_assoc]
  show Format.half.withSign negative (31744 ||| 512 ||| payload * 1 / 2 ^ 13) = _
  rw [Nat.mul_one]

theorem bits_of_infinite (hx : x.datum = .infinite negative) :
    (ofSingle x).bits.toNat = Format.half.withSign negative 31744 := by
  rw [toNat_bits_ofSingle, Format.convert_infinite hx]
  rfl

/-- A number of single precision in units of the least positive half, and the pattern nearest to it. -/
theorem exists_nearest (hv : x.datum.value? = some v) : ∃ (y : ℚ) (n : Nat), 0 ≤ y ∧
    v = signedNumber (Format.single.isNegative x.bits.toNat) y * 2 ^ Format.half.minExponent ∧ Format.half.Nearest y n ∧
    (ofSingle x).bits.toNat = Format.half.withSign (Format.single.isNegative x.bits.toNat) (min n 31744) := by
  obtain ⟨m, e, hx, hvalue⟩ := Binary.Datum.exists_of_value? hv
  have hsign : x.datum.isNegative = Format.single.isNegative x.bits.toNat := Format.isNegative_decode _ _
  rw [hsign] at hx hvalue
  obtain ⟨n, hnearest, hround⟩ := Format.exists_nearest (f := .half) (by decide) m e
  refine ⟨m * 2 ^ (e - Format.half.minExponent), n, by positivity, ?_, hnearest, ?_⟩
  · rw [hvalue, ← Binary.signedNumber_mul, mul_assoc, ← zpow_add₀ (by norm_num), sub_add_cancel]
  · rw [toNat_bits_ofSingle, Format.convert_finite hx, hround]
    rfl

theorem exists_bits (x : Single) : ∃ n < 2 ^ 15,
    (ofSingle x).bits.toNat = Format.half.withSign (Format.single.isNegative x.bits.toNat) n := by
  have hsign : x.datum.isNegative = Format.single.isNegative x.bits.toNat := Format.isNegative_decode _ _
  cases hx : x.datum with
  | nan negative payload =>
    rw [← hsign, hx]
    have hbounds := quiet_bounds hx
    exact ⟨_, by omega, bits_of_nan hx⟩
  | infinite negative =>
    rw [← hsign, hx]
    exact ⟨_, by decide, bits_of_infinite hx⟩
  | finite negative m e =>
    obtain ⟨-, n, -, -, -, hbits⟩ := exists_nearest (x := x) (by rw [hx]; rfl)
    exact ⟨_, Nat.lt_of_le_of_lt (Nat.min_le_right n _) (by decide), hbits⟩

theorem isNegative_ofSingle (x : Single) : (ofSingle x).isNegative = Format.single.isNegative x.bits.toNat := by
  obtain ⟨n, hn, hbits⟩ := exists_bits x
  rw [isNegative_eq, hbits, Format.isNegative_withSign _ _ hn]

theorem eq_infinity {h : Half} (hbits : h.bits.toNat = Format.half.withSign negative 31744) :
    h = if negative then negInfinity else infinity := by
  cases negative <;> exact eq_of_toNat_bits hbits

theorem eq_zero {h : Half} (hbits : h.bits.toNat = Format.half.withSign negative 0) :
    h = if negative then negZero else zero := by
  cases negative <;> exact eq_of_toNat_bits hbits

theorem value?_of_bits {h : Half} (hbits : h.bits.toNat = Format.half.withSign negative n) (hn : n < 31744) :
    h.datum.value? = some (signedNumber negative (Format.half.units n) * 2 ^ Format.half.minExponent) := by
  have hlt : n < 2 ^ 15 := by omega
  have hfinite : n < Format.half.infinity := hn
  unfold datum
  rw [Format.value?_decode, hbits, Format.magnitude_withSign _ _ hlt, Format.isNegative_withSign _ _ hlt,
    if_pos hfinite, Format.number, Binary.signedNumber_mul]

theorem exists_of_value? {h : Half} (hv : h.datum.value? = some v) :
    ∃ s k, v = signedNumber s (Format.half.units k) * 2 ^ Format.half.minExponent := by
  unfold datum at hv
  rw [Format.value?_decode] at hv
  split at hv
  · rw [← Option.some.inj hv, Format.number, Binary.signedNumber_mul]
    exact ⟨_, _, rfl⟩
  · cases hv

theorem fraction_mod_two {h : Half} (hbits : h.bits.toNat = Format.half.withSign negative n) (heven : n % 2 = 0) :
    h.fraction % 2 = 0 := by
  have hfraction : h.fraction.toNat = h.bits.toNat % 2 ^ 10 := Nat.and_two_pow_sub_one_eq_mod h.bits.toNat 10
  rw [← UInt16.toNat_inj, UInt16.toNat_mod, hfraction, hbits, withSign_eq_add]
  show (negative.toNat * 2 ^ 15 + n) % 2 ^ 10 % 2 = 0
  omega

theorem not_isSignaling_of_bits {h : Half}
    (hbits : h.bits.toNat = Format.half.withSign negative (31 * 2 ^ 10 + payload)) (hquiet : 512 ≤ payload)
    (hlt : payload < 2 ^ 10) : h.isSignaling = false := by
  have hand : (h.bits &&& 0x200).toNat = (h.bits.toNat.testBit 9).toNat * 2 ^ 9 := Nat.and_two_pow h.bits.toNat 9
  have hbit : h.bits.toNat / 2 ^ 9 % 2 = 1 := by
    rw [hbits, withSign_eq_add]
    omega
  have hne : h.bits &&& 0x200 ≠ 0 := by
    rw [ne_eq, ← UInt16.toNat_inj, hand, Nat.toNat_testBit, hbit]
    decide
  unfold isSignaling
  rw [decide_eq_false hne, Bool.and_false]

theorem datum_eq_nan_of_bits {h : Half}
    (hbits : h.bits.toNat = Format.half.withSign negative (31 * 2 ^ 10 + payload)) (hpos : payload ≠ 0)
    (hlt : payload < 2 ^ 10) : h.datum = .nan negative payload := by
  have hmagnitude : 31 * 2 ^ 10 + payload < 2 ^ 15 := by omega
  have hexponent : Format.half.exponentField h.bits.toNat = Nat.pow 2 Format.half.exponentBits - 1 := by
    rw [Format.exponentField_eq, hbits, Format.magnitude_withSign _ _ hmagnitude]
    show (31 * 2 ^ 10 + payload) / 2 ^ 10 = 31
    omega
  have hfraction : Format.half.fractionField h.bits.toNat = payload := by
    rw [Format.fractionField_eq, hbits, Format.magnitude_withSign _ _ hmagnitude]
    show (31 * 2 ^ 10 + payload) % 2 ^ 10 = payload
    omega
  unfold datum Format.decode
  simp only [hexponent, hfraction, if_true, if_neg hpos]
  rw [hbits, Format.isNegative_withSign _ _ hmagnitude]

/-- Where the nearest pattern becomes infinity, and where it is still zero. -/
theorem nearest_bounds {y : ℚ} (hy : 0 ≤ y) (hv : v = signedNumber negative y * 2 ^ Format.half.minExponent)
    (hnearest : Format.half.Nearest y n) : (n < 31744 ↔ |v| < 65520) ∧ (n < 1 ↔ |v| ≤ 1 / 2 ^ 25) := by
  have habs : |v| = y / 2 ^ 24 := by
    have hpow : (2 : ℚ) ^ Format.half.minExponent = (2 ^ 24)⁻¹ := by
      show (2 : ℚ) ^ (-24 : Int) = _
      rw [zpow_neg]
      rfl
    rw [hv, abs_mul, Binary.abs_signedNumber, abs_of_nonneg hy, hpow, abs_of_pos (by positivity), div_eq_mul_inv]
  constructor
  · have hlow : Format.half.units (31744 - 1) = 2047 * 2 ^ 29 := by decide
    have hhigh : Format.half.units 31744 = 2 ^ 40 := by decide
    rw [hnearest.lt_iff (by decide), Format.middle, hlow, hhigh, habs, div_lt_iff₀ (by positivity)]
    norm_num
  · have hone : Format.half.units 1 = 1 := by decide
    rw [hnearest.lt_iff Nat.one_pos, Format.middle, hone, habs, Nat.sub_self, Format.units_zero,
      div_le_iff₀ (by positivity)]
    norm_num
    rw [← le_iff_lt_or_eq]

/-- **The half is the single, correctly rounded.**  It has the sign of the single.  A number comes out as the nearest
one that a half can say, of two that are equally near as the one whose last fraction bit is zero; it becomes a zero up to
half a step above zero, and an infinity from half a step after 65504.  A NaN comes out quiet and keeps the upper bits of
its payload. -/
structure CorrectlyRounded (x : Single) (h : Half) : Prop where
  sign : h.isNegative = Format.single.isNegative x.bits.toNat
  nearest : ∀ v, x.datum.value? = some v → |v| < 65520 → ∃ r, h.datum.value? = some r ∧
    ∀ (other : Half) (u : ℚ), other.datum.value? = some u → u ≠ r →
      |v - r| < |v - u| ∨ |v - r| = |v - u| ∧ h.fraction % 2 = 0
  underflow : ∀ v, x.datum.value? = some v → |v| ≤ 1 / 2 ^ 25 → h = if h.isNegative then negZero else zero
  overflow : ∀ v, x.datum.value? = some v → 65520 ≤ |v| → h = if h.isNegative then negInfinity else infinity
  infinite : ∀ negative, x.datum = .infinite negative → h = if negative then negInfinity else infinity
  nan : ∀ negative payload, x.datum = .nan negative payload →
    h.isSignaling = false ∧ h.datum = .nan negative (0x200 ||| payload / 2 ^ 13)

/-- **Narrowing is correctly rounded.** -/
theorem correctlyRounded_ofSingle (x : Single) : CorrectlyRounded x (ofSingle x) := by
  have hsign := isNegative_ofSingle x
  constructor
  case sign => exact hsign
  case nearest =>
    intro v hv hlt
    obtain ⟨y, n, hy, hvalue, hnearest, hbits⟩ := exists_nearest hv
    have hn := (nearest_bounds hy hvalue hnearest).1.2 hlt
    rw [Nat.min_eq_left hn.le] at hbits
    refine ⟨_, value?_of_bits hbits hn, fun other u hu hne => ?_⟩
    obtain ⟨s, k, rfl⟩ := exists_of_value? hu
    have hscale : (0 : ℚ) < 2 ^ Format.half.minExponent := by positivity
    have habs : ∀ a b : ℚ, |a * 2 ^ Format.half.minExponent - b * 2 ^ Format.half.minExponent| =
        |a - b| * 2 ^ Format.half.minExponent := fun a b => by rw [← sub_mul, abs_mul, abs_of_pos hscale]
    rw [hvalue, habs, habs]
    rcases hnearest.lt_or_even_signedNumber hy (fun heq => hne (by rw [heq])) with hlt | ⟨htie, heven⟩
    · exact .inl (mul_lt_mul_of_pos_right hlt hscale)
    · exact .inr ⟨by rw [htie], fraction_mod_two hbits heven⟩
  case underflow =>
    intro v hv hle
    obtain ⟨y, n, hy, hvalue, hnearest, hbits⟩ := exists_nearest hv
    have hn := (nearest_bounds hy hvalue hnearest).2.2 hle
    rw [Nat.lt_one_iff.1 hn] at hbits
    rw [hsign]
    exact eq_zero hbits
  case overflow =>
    intro v hv hle
    obtain ⟨y, n, hy, hvalue, hnearest, hbits⟩ := exists_nearest hv
    have hn := mt (nearest_bounds hy hvalue hnearest).1.1 (not_lt.2 hle)
    rw [Nat.min_eq_right (Nat.not_lt.1 hn)] at hbits
    rw [hsign]
    exact eq_infinity hbits
  case infinite =>
    intro negative hx
    exact eq_infinity (bits_of_infinite hx)
  case nan =>
    intro negative payload hx
    obtain ⟨hquiet, hlt⟩ := quiet_bounds hx
    have hbits := bits_of_nan hx
    exact ⟨not_isSignaling_of_bits hbits hquiet hlt, datum_eq_nan_of_bits hbits (by omega) hlt⟩

/-- Ties go down to an even fraction and up to one; the one past 65504 goes to infinity. -/
example : ofSingle ⟨0x3F801000⟩ = ⟨0x3C00⟩ ∧ ofSingle ⟨0x3F803000⟩ = ⟨0x3C02⟩ ∧ ofSingle ⟨0x477FF000⟩ = infinity := by
  decide

end Rounded

end Half
end TensorGraph
