import Mathlib.Algebra.Order.Field.Power
import Mathlib.Data.Rat.Cast.Order
import Mathlib.Tactic.Linarith
import Mathlib.Tactic.NormNum
import Mathlib.Tactic.Positivity
import Mathlib.Tactic.Ring
import TensorGraph.Binary.Rounding
/-!
# Rounding — the nearest pattern, a tie going to the even one

The magnitude bits of a format count its numbers from zero on.  In units of the least positive number the pattern
`q + t · 2 ^ p`, where `p` is the number of fraction bits, stands for `q · 2 ^ t`, as long as `q` has no more than
`p + 1` places, and no fewer if `t` is positive (`units_add`).  Every pattern is of this form.  So the numbers of a format are
either multiples of `2 ^ t` or smaller than `2 ^ p · 2 ^ t`, and the nearest of them to a number from there on is a
multiple: rounding the number divided by `2 ^ t` to an integer finds it (`nearest_add`).  The last bit of the pattern is
that of the integer, which is where ties are decided.

Patterns go on past the finite ones here.  So infinity is the nearest from half a step after the largest finite number
on, and zero is the nearest up to half a step below the least positive one: each pattern takes over from the one before it
in the middle between the two (`Nearest.lt_iff`).
-/
namespace TensorGraph
namespace Binary

/-! ## Numbers -/

/-- The number of this magnitude, negated if `negative` holds. -/
def signedNumber (negative : Bool) (magnitude : ℚ) : ℚ := if negative then -magnitude else magnitude

/-- The number that a datum stands for. -/
def Datum.value? : Datum → Option ℚ
  | .finite negative m e => some (signedNumber negative (m * 2 ^ e))
  | _ => none

/-- The sign, which zeros and NaNs have as well. -/
def Datum.isNegative : Datum → Bool
  | .nan negative _ => negative
  | .infinite negative => negative
  | .finite negative _ _ => negative

theorem Datum.exists_of_value? {d : Datum} {v : ℚ} (h : d.value? = some v) :
    ∃ m e, d = .finite d.isNegative m e ∧ v = signedNumber d.isNegative (m * 2 ^ e) := by
  cases d with
  | nan => cases h
  | infinite => cases h
  | finite negative m e => exact ⟨m, e, rfl, (Option.some.inj h).symm⟩

theorem abs_signedNumber (s : Bool) (a : ℚ) : |signedNumber s a| = |a| := by
  cases s <;> simp [signedNumber]

theorem signedNumber_mul (s : Bool) (a b : ℚ) : signedNumber s (a * b) = signedNumber s a * b := by
  cases s <;> simp [signedNumber]

theorem abs_signedNumber_sub (s : Bool) (a b : ℚ) : |signedNumber s a - signedNumber s b| = |a - b| := by
  cases s
  · rfl
  · rw [signedNumber, signedNumber, if_pos rfl, if_pos rfl, neg_sub_neg, abs_sub_comm]

theorem abs_signedNumber_sub_not (s : Bool) {a b : ℚ} (ha : 0 ≤ a) (hb : 0 ≤ b) :
    |signedNumber s a - signedNumber (!s) b| = a + b := by
  cases s with
  | false =>
    show |a - -b| = a + b
    rw [sub_neg_eq_add, abs_of_nonneg (add_nonneg ha hb)]
  | true =>
    show |-a - b| = a + b
    rw [← neg_add', abs_neg, abs_of_nonneg (add_nonneg ha hb)]

/-! ## Integers -/

/-- **No integer is nearer to the number**, and this one is even if another one is as near. -/
structure NearestInteger (y : ℚ) (q : Nat) : Prop where
  close : |y - q| ≤ 1 / 2
  even : |y - q| = 1 / 2 → q % 2 = 0

variable {y : ℚ} {q j : Nat}

theorem nearestInteger_self (q : Nat) : NearestInteger q q := by
  constructor <;> norm_num

theorem NearestInteger.lt_or_even (h : NearestInteger y q) (hj : j ≠ q) :
    |y - q| < |y - j| ∨ |y - q| = |y - j| ∧ q % 2 = 0 := by
  have hone : (1 : ℚ) ≤ |(j : ℚ) - q| := by
    have : (1 : ℤ) ≤ |(j : ℤ) - q| := Int.one_le_abs (by omega)
    exact_mod_cast this
  have hclose := h.close
  have htriangle : |(j : ℚ) - q| ≤ |y - j| + |y - q| := by
    have := abs_sub_le (j : ℚ) y q
    rwa [abs_sub_comm (j : ℚ) y] at this
  rcases lt_or_ge |y - q| |y - j| with hlt | hge
  · exact .inl hlt
  · exact .inr ⟨by linarith, h.even (by linarith)⟩

theorem NearestInteger.le_of_lt {b : Nat} (h : NearestInteger y q) (hy : y < b) : q ≤ b := by
  have hclose := (abs_le.1 h.close).1
  have : (q : ℚ) < (b + 1 : Nat) := by
    push_cast
    linarith
  exact Nat.lt_succ_iff.1 (Nat.cast_lt.1 this)

theorem NearestInteger.le_of_le {b : Nat} (h : NearestInteger y q) (hy : b ≤ y) : b ≤ q := by
  have hclose := (abs_le.1 h.close).2
  have : (b : ℚ) < (q + 1 : Nat) := by
    push_cast
    linarith
  exact Nat.lt_succ_iff.1 (Nat.cast_lt.1 this)

section Rest

variable {d r : Nat}

theorem nearestInteger_floor (hd : 0 < d) (hr : 2 * r ≤ d) (heven : 2 * r = d → q % 2 = 0) :
    NearestInteger (q + r / d) q := by
  have hpos : (0 : ℚ) < d := Nat.cast_pos.2 hd
  have habs : |(q + r / d - q : ℚ)| = r / d := by
    rw [add_sub_cancel_left, abs_of_nonneg (by positivity)]
  constructor
  · rw [habs, div_le_iff₀ hpos]
    have : (2 * r : ℚ) ≤ d := by exact_mod_cast hr
    linarith
  · rw [habs, div_eq_iff hpos.ne']
    intro h
    have : (2 * r : ℚ) = d := by linarith
    exact heven (by exact_mod_cast this)

theorem nearestInteger_ceil (hd : 0 < d) (hlt : r < d) (hr : d ≤ 2 * r) (heven : 2 * r = d → (q + 1) % 2 = 0) :
    NearestInteger (q + r / d) (q + 1 : Nat) := by
  have hpos : (0 : ℚ) < d := Nat.cast_pos.2 hd
  have hone : (r : ℚ) / d < 1 := (div_lt_one hpos).2 (Nat.cast_lt.2 hlt)
  have habs : |(q + r / d - (q + 1 : Nat) : ℚ)| = 1 - r / d := by
    rw [abs_of_neg] <;> push_cast <;> linarith
  constructor
  · rw [habs, sub_le_comm, le_div_iff₀ hpos]
    have : (d : ℚ) ≤ 2 * r := by exact_mod_cast hr
    linarith
  · rw [habs, sub_eq_iff_eq_add, ← sub_eq_iff_eq_add', eq_div_iff hpos.ne']
    intro h
    have : (2 * r : ℚ) = d := by linarith
    exact heven (by exact_mod_cast this)

end Rest

/-- **A shift that rounds to even finds the nearest integer.** -/
theorem nearestInteger_shiftToEven (m k : Nat) : NearestInteger (m / 2 ^ k) (shiftToEven m k) := by
  have hpos : 0 < 2 ^ k := Nat.two_pow_pos k
  have hquotient : (m / 2 ^ k : ℚ) = (m / 2 ^ k : Nat) + (m % 2 ^ k : Nat) / (2 ^ k : Nat) := by
    have hsplit : (m : ℚ) = (2 ^ k : Nat) * (m / 2 ^ k : Nat) + (m % 2 ^ k : Nat) := by
      exact_mod_cast (Nat.div_add_mod m (2 ^ k)).symm
    have hne : ((2 ^ k : Nat) : ℚ) ≠ 0 := Nat.cast_ne_zero.2 hpos.ne'
    rw [← Nat.cast_ofNat (R := ℚ), ← Nat.cast_pow, div_eq_iff hne, add_mul, div_mul_cancel₀ _ hne, hsplit]
    ring
  have hrest : m % 2 ^ k < 2 ^ k := Nat.mod_lt m hpos
  unfold shiftToEven
  simp only [Nat.pow_eq]
  rw [hquotient]
  split
  · exact nearestInteger_ceil hpos hrest (by omega) (by omega)
  · exact nearestInteger_floor hpos (by omega) (by omega)

theorem shiftToEven_eq_zero {m k : Nat} (h : 2 * m < 2 ^ k) : shiftToEven m k = 0 := by
  unfold shiftToEven
  simp only [Nat.pow_eq]
  rw [Nat.div_eq_of_lt (by omega), Nat.mod_eq_of_lt (by omega), if_neg (by omega)]

theorem shiftToEven_add_mul (m k : Nat) (heven : q % 2 = 0) :
    shiftToEven (q * 2 ^ k + m) k = q + shiftToEven m k := by
  unfold shiftToEven
  simp only [Nat.pow_eq]
  rw [Nat.add_comm (q * 2 ^ k), Nat.add_mul_div_right _ _ (Nat.two_pow_pos k), Nat.add_mul_mod_self_right]
  split <;> split <;> omega

theorem shiftToEven_le (m k : Nat) : shiftToEven m k ≤ m / 2 ^ k + 1 := by
  unfold shiftToEven
  simp only [Nat.pow_eq]
  split <;> omega

namespace Format

variable {f : Format} {n k t m : Nat} {e : Int}

/-! ## Patterns in order -/

/-- **What a pattern stands for in units of the least positive number.** -/
def units (f : Format) (n : Nat) : Nat :=
  if n < 2 ^ f.fractionBits then n
  else (2 ^ f.fractionBits + n % 2 ^ f.fractionBits) * 2 ^ (n / 2 ^ f.fractionBits - 1)

theorem units_zero (f : Format) : f.units 0 = 0 := if_pos (Nat.two_pow_pos _)

theorem units_add (hle : q ≤ 2 * 2 ^ f.fractionBits) (hge : t ≠ 0 → 2 ^ f.fractionBits ≤ q) :
    f.units (q + t * 2 ^ f.fractionBits) = q * 2 ^ t := by
  have hpos : 0 < 2 ^ f.fractionBits := Nat.two_pow_pos _
  unfold units
  generalize 2 ^ f.fractionBits = w at *
  by_cases hsmall : q < w
  · obtain rfl : t = 0 := not_not.1 (fun h => absurd (hge h) (Nat.not_le.2 hsmall))
    simp [hsmall]
  by_cases hfull : q = 2 * w
  · have hsum : q + t * w = w * (t + 2) := by rw [hfull]; ring
    have hlarge : ¬ w * (t + 2) < w := Nat.not_lt.2 (Nat.le_mul_of_pos_right w (by omega))
    rw [hsum, if_neg hlarge, Nat.mul_mod_right, Nat.mul_div_cancel_left _ hpos, hfull]
    show w * 2 ^ (t + 1) = _
    ring
  · obtain ⟨r, rfl⟩ : ∃ r, q = w + r := ⟨q - w, by omega⟩
    have hsum : w + r + t * w = r + w * (t + 1) := by ring
    have hr : r < w := by omega
    have hlarge : ¬ r + w * (t + 1) < w := by
      have : w ≤ w * (t + 1) := Nat.le_mul_of_pos_right w (by omega)
      omega
    rw [hsum, if_neg hlarge, Nat.add_mul_mod_self_left, Nat.mod_eq_of_lt hr, Nat.add_mul_div_left r _ hpos,
      Nat.div_eq_of_lt hr, Nat.zero_add, Nat.add_sub_cancel]

/-- **Every pattern counts some places at some exponent.** -/
theorem exists_add (f : Format) (n : Nat) : ∃ q t, q < 2 * 2 ^ f.fractionBits ∧ (t ≠ 0 → 2 ^ f.fractionBits ≤ q) ∧
    n = q + t * 2 ^ f.fractionBits := by
  have hpos : 0 < 2 ^ f.fractionBits := Nat.two_pow_pos _
  generalize 2 ^ f.fractionBits = w at *
  by_cases hsmall : n < w
  · exact ⟨n, 0, by omega, fun h => absurd rfl h, by omega⟩
  · have hone : 1 ≤ n / w := (Nat.one_le_div_iff hpos).2 (Nat.not_lt.1 hsmall)
    have hrest := Nat.mod_lt n hpos
    refine ⟨w + n % w, n / w - 1, by omega, fun _ => by omega, ?_⟩
    have hsum : w + (n / w - 1) * w = n / w * w := by
      rw [Nat.sub_mul, Nat.one_mul]
      have : w ≤ n / w * w := Nat.le_mul_of_pos_left w hone
      omega
    have := Nat.div_add_mod' n w
    omega

theorem strictMono_units (f : Format) : StrictMono f.units := by
  refine strictMono_nat_of_lt_succ (fun n => ?_)
  obtain ⟨q, t, hlt, hge, rfl⟩ := exists_add f n
  have hsucc : q + t * 2 ^ f.fractionBits + 1 = q + 1 + t * 2 ^ f.fractionBits := by omega
  rw [hsucc, units_add hlt.le hge, units_add (by omega) (fun h => Nat.le_succ_of_le (hge h))]
  exact Nat.mul_lt_mul_of_pos_right (Nat.lt_succ_self q) (Nat.two_pow_pos t)

/-- Numbers from some exponent on are multiples of its last place. -/
theorem multiple_or_lt (f : Format) (n t : Nat) :
    (∃ j, f.units n = j * 2 ^ t) ∨ t ≠ 0 ∧ f.units n < 2 ^ f.fractionBits * 2 ^ t := by
  obtain ⟨q, s, hlt, hge, rfl⟩ := exists_add f n
  rw [units_add hlt.le hge]
  by_cases hle : t ≤ s
  · refine .inl ⟨q * 2 ^ (s - t), ?_⟩
    rw [Nat.mul_assoc, ← Nat.pow_add, Nat.sub_add_cancel hle]
  · refine .inr ⟨by omega, ?_⟩
    calc q * 2 ^ s < 2 * 2 ^ f.fractionBits * 2 ^ s := Nat.mul_lt_mul_of_pos_right hlt (Nat.two_pow_pos s)
      _ = 2 ^ f.fractionBits * 2 ^ (s + 1) := by ring
      _ ≤ 2 ^ f.fractionBits * 2 ^ t := Nat.mul_le_mul_left _ (Nat.pow_le_pow_right (by decide) (by omega))

/-! ## The nearest pattern -/

/-- **No other pattern stands for a number as near**, or this one ends in a zero. -/
def Nearest (f : Format) (y : ℚ) (n : Nat) : Prop :=
  ∀ k, k ≠ n → |y - f.units n| < |y - f.units k| ∨ |y - f.units n| = |y - f.units k| ∧ n % 2 = 0

theorem abs_sub_mul_two_pow (y : ℚ) (j t : Nat) : |y - (j * 2 ^ t : Nat)| = |y / 2 ^ t - j| * 2 ^ t := by
  have hpos : (0 : ℚ) < 2 ^ t := by positivity
  rw [← abs_of_pos hpos, ← abs_mul, abs_of_pos hpos, sub_mul, div_mul_cancel₀ _ hpos.ne']
  push_cast
  rfl

theorem add_mul_mod_two (hp : 1 ≤ f.fractionBits) (q t : Nat) : (q + t * 2 ^ f.fractionBits) % 2 = q % 2 := by
  obtain ⟨p, hp⟩ := Nat.exists_eq_succ_of_ne_zero (Nat.ne_of_gt hp)
  rw [hp, Nat.pow_succ, ← Nat.mul_assoc, Nat.add_mul_mod_self_right]

/-- A multiple of the last place that is kept is no nearer than the integer. -/
theorem lt_or_even_of_multiple (h : NearestInteger (y / 2 ^ t) q) {j : Nat} (hj : j ≠ q) :
    |y - (q * 2 ^ t : Nat)| < |y - (j * 2 ^ t : Nat)| ∨
      |y - (q * 2 ^ t : Nat)| = |y - (j * 2 ^ t : Nat)| ∧ q % 2 = 0 := by
  rw [abs_sub_mul_two_pow, abs_sub_mul_two_pow]
  rcases h.lt_or_even hj with hlt | ⟨heq, heven⟩
  · exact .inl (mul_lt_mul_of_pos_right hlt (by positivity))
  · exact .inr ⟨by rw [heq], heven⟩

theorem nearest_add (hp : 1 ≤ f.fractionBits) (hge : t ≠ 0 → (2 ^ f.fractionBits : ℚ) ≤ y / 2 ^ t)
    (hlt : y / 2 ^ t < 2 * 2 ^ f.fractionBits) (h : NearestInteger (y / 2 ^ t) q) :
    f.Nearest y (q + t * 2 ^ f.fractionBits) := by
  have hqle : q ≤ 2 * 2 ^ f.fractionBits := h.le_of_lt (by exact_mod_cast hlt)
  have hqge : t ≠ 0 → 2 ^ f.fractionBits ≤ q := fun ht => h.le_of_le (by exact_mod_cast hge ht)
  intro k hk
  have hne : f.units k ≠ q * 2 ^ t := by
    rw [← units_add hqle hqge]
    exact fun heq => hk (f.strictMono_units.injective heq)
  rw [units_add hqle hqge, add_mul_mod_two hp]
  rcases multiple_or_lt f k t with ⟨j, hj⟩ | ⟨ht, hsmall⟩
  · rw [hj]
    exact lt_or_even_of_multiple h (fun heq => hne (heq ▸ hj))
  · -- below the multiples every pattern is farther than the least of them
    have hlow : (2 ^ f.fractionBits * 2 ^ t : ℚ) ≤ y := (le_div_iff₀ (by positivity)).1 (hge ht)
    have hsmall' : (f.units k : ℚ) < 2 ^ f.fractionBits * 2 ^ t := by exact_mod_cast hsmall
    have hle : |y - (q * 2 ^ t : Nat)| ≤ |y - (2 ^ f.fractionBits * 2 ^ t : Nat)| := by
      by_cases hq : 2 ^ f.fractionBits = q
      · rw [hq]
      · rcases lt_or_even_of_multiple h hq with hlt | ⟨heq, -⟩
        · exact hlt.le
        · exact heq.le
    refine .inl (hle.trans_lt ?_)
    push_cast
    rw [abs_of_nonneg (by linarith), abs_of_nonneg (by linarith)]
    linarith

/-- The middle between a pattern and the one before it. -/
def middle (f : Format) (limit : Nat) : ℚ := (f.units (limit - 1) + f.units limit) / 2

theorem units_cast_le {i j : Nat} (h : i ≤ j) : (f.units i : ℚ) ≤ f.units j :=
  Nat.cast_le.2 (f.strictMono_units.monotone h)

theorem units_cast_inj {i j : Nat} (h : (f.units i : ℚ) = f.units j) : i = j :=
  f.strictMono_units.injective (Nat.cast_injective h)

theorem units_pred_lt {limit : Nat} (hpos : 0 < limit) : (f.units (limit - 1) : ℚ) < f.units limit :=
  Nat.cast_lt.2 (f.strictMono_units (Nat.sub_lt hpos Nat.one_pos))

theorem Nearest.middle_of_lt {limit : Nat} (h : f.Nearest y n) (hlt : n < limit) :
    y < f.middle limit ∨ y = f.middle limit ∧ limit % 2 = 1 := by
  have hstep := units_pred_lt (f := f) (Nat.zero_lt_of_lt hlt)
  have hn : (f.units n : ℚ) ≤ f.units (limit - 1) := units_cast_le (Nat.le_pred_of_lt hlt)
  unfold middle
  by_cases hmid : y < (f.units (limit - 1) + f.units limit) / 2
  · exact .inl hmid
  rw [not_lt] at hmid
  have habs : |y - f.units n| = y - f.units n := abs_of_nonneg (by linarith)
  have hle : |y - f.units limit| ≤ y - f.units (limit - 1) := abs_le.2 ⟨by linarith, by linarith⟩
  rcases h limit (Nat.ne_of_gt hlt) with hnear | ⟨htie, hlast⟩
  · linarith
  · -- as near as the limit is only the pattern before it, on the half step
    have heq : n = limit - 1 := units_cast_inj (f := f) (by linarith)
    have hhalf : y = (f.units (limit - 1) + f.units limit) / 2 := by
      by_contra hne
      have hgt := lt_of_le_of_ne hmid (Ne.symm hne)
      have : |y - f.units limit| < y - f.units (limit - 1) := abs_lt.2 ⟨by linarith, by linarith⟩
      linarith
    exact .inr ⟨hhalf, by omega⟩

theorem Nearest.lt_of_middle {limit : Nat} (h : f.Nearest y n) (hpos : 0 < limit)
    (hmid : y < f.middle limit ∨ y = f.middle limit ∧ limit % 2 = 1) : n < limit := by
  have hstep := units_pred_lt (f := f) hpos
  unfold middle at hmid
  by_contra hge
  have hn : (f.units limit : ℚ) ≤ f.units n := units_cast_le (Nat.not_lt.1 hge)
  have habs : f.units n - y ≤ |y - f.units n| := by
    rw [abs_sub_comm]
    exact le_abs_self _
  have hnear := h (limit - 1) (by omega)
  rcases hmid with hlt | ⟨heq, hodd⟩
  · have hless : |y - f.units (limit - 1)| < f.units limit - y := abs_lt.2 ⟨by linarith, by linarith⟩
    rcases hnear with hnear | ⟨htie, -⟩ <;> linarith
  · have hhalf : |y - f.units (limit - 1)| = f.units limit - y := by
      rw [abs_of_nonneg (by linarith)]
      linarith
    rcases hnear with hnear | ⟨htie, heven⟩
    · linarith
    · have : n = limit := units_cast_inj (f := f) (by linarith)
      omega

/-- **A pattern takes over half a step after the one before it**, and has the half step itself if it is even. -/
theorem Nearest.lt_iff {limit : Nat} (h : f.Nearest y n) (hpos : 0 < limit) :
    n < limit ↔ y < f.middle limit ∨ y = f.middle limit ∧ limit % 2 = 1 :=
  ⟨h.middle_of_lt, h.lt_of_middle hpos⟩

theorem Nearest.eq_zero (h : f.Nearest 0 n) : n = 0 := by
  have hstep := units_pred_lt (f := f) Nat.one_pos
  have hmiddle : 0 < f.middle 1 := by
    have hnonneg : (0 : ℚ) ≤ f.units (1 - 1) := Nat.cast_nonneg _
    unfold middle
    linarith
  exact Nat.lt_one_iff.1 (h.lt_of_middle Nat.one_pos (.inl hmiddle))

theorem nearest_zero (f : Format) : f.Nearest 0 0 := by
  intro k hk
  have hlt := f.strictMono_units (Nat.pos_of_ne_zero hk)
  rw [units_zero] at hlt ⊢
  refine .inl ?_
  rw [Nat.cast_zero, sub_self, abs_zero, zero_sub, abs_neg, Nat.abs_cast]
  exact Nat.cast_pos.2 hlt

/-- **No number of the other sign is nearer.** -/
theorem Nearest.lt_or_even_signedNumber (h : f.Nearest y n) (hy : 0 ≤ y) {s s' : Bool} {k : Nat}
    (hne : signedNumber s' (f.units k) ≠ signedNumber s (f.units n)) :
    |signedNumber s y - signedNumber s (f.units n)| < |signedNumber s y - signedNumber s' (f.units k)| ∨
      |signedNumber s y - signedNumber s (f.units n)| = |signedNumber s y - signedNumber s' (f.units k)| ∧
        n % 2 = 0 := by
  have hn : (0 : ℚ) ≤ f.units n := Nat.cast_nonneg _
  have hk : (0 : ℚ) ≤ f.units k := Nat.cast_nonneg _
  by_cases hs : s' = s
  · subst hs
    rw [abs_signedNumber_sub, abs_signedNumber_sub]
    exact h k (fun heq => hne (heq ▸ rfl))
  obtain rfl : s' = !s := Bool.eq_not_of_ne hs
  rw [abs_signedNumber_sub, abs_signedNumber_sub_not s hy hk]
  by_cases heq : k = n
  · -- the same magnitude with the other sign is farther, as neither number is zero
    subst heq
    have hunits : (0 : ℚ) < f.units k := hn.lt_of_ne' (fun h0 => hne (by rw [h0]; cases s <;> simp [signedNumber]))
    have hpos : 0 < y := by
      refine hy.lt_of_ne (fun h0 => ?_)
      rw [← h0] at h
      rw [h.eq_zero, units_zero, Nat.cast_zero] at hunits
      exact lt_irrefl _ hunits
    exact .inl (abs_lt.2 ⟨by linarith, by linarith⟩)
  · have hfar : |y - f.units k| ≤ y + f.units k := abs_le.2 ⟨by linarith, by linarith⟩
    rcases h k heq with hlt | ⟨htie, heven⟩
    · exact .inl (hlt.trans_le hfar)
    · rcases hfar.lt_or_eq with hlt | hfar
      · exact .inl (htie.trans_lt hlt)
      · exact .inr ⟨htie.trans hfar, heven⟩

/-! ## What is written -/

/-- The pattern nearest to `m · 2 ^ e` if there was no last exponent. -/
def roundUnbounded (f : Format) (m : Nat) (e : Int) : Nat :=
  (if f.lastPlace m e ≤ e then m * 2 ^ (e - f.lastPlace m e).toNat else shiftToEven m (f.lastPlace m e - e).toNat) +
    (f.lastPlace m e - f.minExponent).toNat * 2 ^ f.fractionBits

theorem roundMagnitude_eq (f : Format) (hm : m ≠ 0) (e : Int) :
    f.roundMagnitude m e = min (f.roundUnbounded m e) f.infinity := if_neg hm

theorem roundMagnitude_of_lastPlace {place : Int} (hm : m ≠ 0) (h : f.lastPlace m e = place) (hlt : e < place) :
    f.roundMagnitude m e =
      min (shiftToEven m (place - e).toNat + (place - f.minExponent).toNat * 2 ^ f.fractionBits) f.infinity := by
  rw [roundMagnitude_eq f hm, roundUnbounded, h, if_neg (by omega)]

theorem minExponent_le_lastPlace (f : Format) (m : Nat) (e : Int) : f.minExponent ≤ f.lastPlace m e := le_max_right _ _

/-- **The places kept are at most as many as the format stores**, and all of them above the least exponent. -/
theorem places_bounds (f : Format) (hm : m ≠ 0) (e : Int) :
    (m * 2 ^ (e - f.lastPlace m e) : ℚ) < 2 * 2 ^ f.fractionBits ∧
      (f.minExponent < f.lastPlace m e → (2 ^ f.fractionBits : ℚ) ≤ m * 2 ^ (e - f.lastPlace m e)) := by
  have hlow : ((2 : ℚ) ^ m.log2) ≤ m := by exact_mod_cast Nat.log2_self_le hm
  have hhigh : (m : ℚ) < 2 ^ (m.log2 + 1) := by exact_mod_cast Nat.lt_log2_self
  have hpos : (0 : ℚ) < 2 ^ (e - f.lastPlace m e) := by positivity
  have hbase : (1 : ℚ) ≤ 2 := by norm_num
  have hne : (2 : ℚ) ≠ 0 := by norm_num
  constructor
  · calc (m * 2 ^ (e - f.lastPlace m e) : ℚ) < 2 ^ (m.log2 + 1) * 2 ^ (e - f.lastPlace m e) :=
          mul_lt_mul_of_pos_right hhigh hpos
      _ = 2 ^ ((m.log2 + 1 : Nat) + (e - f.lastPlace m e) : Int) := by rw [zpow_add₀ hne, zpow_natCast]
      _ ≤ 2 ^ ((f.fractionBits + 1 : Nat) : Int) := by
          refine zpow_le_zpow_right₀ hbase ?_
          have : e + m.log2 - f.fractionBits ≤ f.lastPlace m e := le_max_left _ _
          push_cast
          omega
      _ = 2 * 2 ^ f.fractionBits := by rw [zpow_natCast, pow_succ']
  · intro hplace
    have hplace' : f.lastPlace m e = e + m.log2 - f.fractionBits := by
      unfold lastPlace at hplace ⊢
      omega
    calc (2 ^ f.fractionBits : ℚ) = 2 ^ (m.log2 + (e - f.lastPlace m e) : Int) := by
          rw [hplace', ← zpow_natCast]
          congr 1
          omega
      _ = 2 ^ m.log2 * 2 ^ (e - f.lastPlace m e) := by rw [zpow_add₀ hne, zpow_natCast]
      _ ≤ m * 2 ^ (e - f.lastPlace m e) := mul_le_mul_of_nonneg_right hlow hpos.le

/-- **The pattern that is written is the nearest one.** -/
theorem nearest_roundUnbounded (hp : 1 ≤ f.fractionBits) (hm : m ≠ 0) (e : Int) :
    f.Nearest (m * 2 ^ (e - f.minExponent)) (f.roundUnbounded m e) := by
  have hne : (2 : ℚ) ≠ 0 := by norm_num
  obtain ⟨hlt, hge⟩ := places_bounds f hm e
  obtain ⟨t, ht⟩ := Int.eq_ofNat_of_zero_le (Int.sub_nonneg.2 (minExponent_le_lastPlace f m e))
  -- the number in units of the last place that is kept
  have hscaled : (m * 2 ^ (e - f.minExponent) : ℚ) / 2 ^ t = m * 2 ^ (e - f.lastPlace m e) := by
    rw [mul_div_assoc, ← zpow_natCast, ← zpow_sub₀ hne]
    congr 2
    omega
  unfold roundUnbounded
  rw [ht, Int.toNat_natCast]
  refine nearest_add hp (fun h => ?_) ?_ ?_
  · rw [hscaled]
    exact hge (by omega)
  · rw [hscaled]
    exact hlt
  · rw [hscaled]
    split
    · rename_i hle
      have hexact : (m * 2 ^ (e - f.lastPlace m e) : ℚ) = (m * 2 ^ (e - f.lastPlace m e).toNat : Nat) := by
        push_cast
        rw [← zpow_natCast, Int.toNat_of_nonneg (Int.sub_nonneg.2 hle)]
      rw [hexact]
      exact nearestInteger_self _
    · rename_i hgt
      have hshift : (m * 2 ^ (e - f.lastPlace m e) : ℚ) = m / 2 ^ (f.lastPlace m e - e).toNat := by
        rw [← zpow_natCast, Int.toNat_of_nonneg (by omega), div_eq_mul_inv, ← zpow_neg, neg_sub]
      rw [hshift]
      exact nearestInteger_shiftToEven m _

/-- **What is written is the nearest pattern**, or infinity where that is one past it. -/
theorem exists_nearest (hp : 1 ≤ f.fractionBits) (m : Nat) (e : Int) :
    ∃ n, f.Nearest (m * 2 ^ (e - f.minExponent)) n ∧ f.roundMagnitude m e = min n f.infinity := by
  by_cases hm : m = 0
  · subst hm
    refine ⟨0, ?_, by rw [Nat.zero_min]; rfl⟩
    rw [Nat.cast_zero, zero_mul]
    exact nearest_zero f
  · exact ⟨f.roundUnbounded m e, nearest_roundUnbounded hp hm e, roundMagnitude_eq f hm e⟩

/-! ## What is read -/

theorem fractionField_eq (f : Format) (bits : Nat) :
    f.fractionField bits = f.magnitude bits % 2 ^ f.fractionBits := by
  unfold fractionField magnitude
  simp only [Nat.pow_eq]
  rw [Nat.mod_mod_of_dvd _ (Nat.pow_dvd_pow 2 (Nat.le_add_left _ _))]

theorem exponentField_eq (f : Format) (bits : Nat) :
    f.exponentField bits = f.magnitude bits / 2 ^ f.fractionBits := by
  unfold exponentField magnitude
  simp only [Nat.pow_eq]
  rw [Nat.add_comm, Nat.pow_add, Nat.mod_mul_right_div_self]

theorem magnitude_lt (f : Format) (bits : Nat) : f.magnitude bits < 2 ^ (f.exponentBits + f.fractionBits) :=
  Nat.mod_lt _ (Nat.two_pow_pos _)

theorem isNegative_decode (f : Format) (bits : Nat) : (f.decode bits).isNegative = f.isNegative bits := by
  unfold decode
  simp only []
  split
  · split <;> rfl
  · split <;> rfl

theorem isNegative_withSign (f : Format) (negative : Bool) (h : n < 2 ^ (f.exponentBits + f.fractionBits)) :
    f.isNegative (f.withSign negative n) = negative := by
  unfold isNegative withSign
  cases negative with
  | false => exact Nat.testBit_lt_two_pow h
  | true =>
    rw [if_pos rfl, Nat.pow_eq, Nat.testBit_two_pow_add_eq, Nat.testBit_lt_two_pow h]
    rfl

theorem magnitude_withSign (f : Format) (negative : Bool) (h : n < 2 ^ (f.exponentBits + f.fractionBits)) :
    f.magnitude (f.withSign negative n) = n := by
  unfold magnitude withSign
  cases negative with
  | false => exact Nat.mod_eq_of_lt h
  | true => rw [if_pos rfl, Nat.pow_eq, Nat.add_mod_left, Nat.mod_eq_of_lt h]

/-- The number that magnitude bits stand for. -/
def number (f : Format) (n : Nat) : ℚ := f.units n * 2 ^ f.minExponent

theorem units_eq_of_field_zero (h : n / 2 ^ f.fractionBits = 0) : f.units n = n % 2 ^ f.fractionBits := by
  have hlt : n < 2 ^ f.fractionBits := (Nat.div_eq_zero_iff_lt (Nat.two_pow_pos _)).1 h
  rw [units, if_pos hlt, Nat.mod_eq_of_lt hlt]

theorem units_eq_of_field_pos (h : n / 2 ^ f.fractionBits ≠ 0) :
    f.units n = (2 ^ f.fractionBits + n % 2 ^ f.fractionBits) * 2 ^ (n / 2 ^ f.fractionBits - 1) :=
  if_neg (fun hlt => h (Nat.div_eq_of_lt hlt))

theorem lt_infinity_iff : n < f.infinity ↔ n / 2 ^ f.fractionBits < 2 ^ f.exponentBits - 1 :=
  (Nat.div_lt_iff_lt_mul (Nat.two_pow_pos _)).symm

/-- **A pattern below infinity stands for its number**, and no other one for any. -/
theorem value?_decode (f : Format) (bits : Nat) : (f.decode bits).value? =
    if f.magnitude bits < f.infinity then
      some (signedNumber (f.isNegative bits) (f.number (f.magnitude bits)))
    else none := by
  have hlt : f.magnitude bits / 2 ^ f.fractionBits < 2 ^ f.exponentBits := by
    rw [Nat.div_lt_iff_lt_mul (Nat.two_pow_pos _), ← Nat.pow_add]
    exact magnitude_lt f bits
  have hfinite : f.magnitude bits < f.infinity ↔ f.magnitude bits / 2 ^ f.fractionBits ≠ 2 ^ f.exponentBits - 1 :=
    lt_infinity_iff.trans ⟨Nat.ne_of_lt, Nat.lt_of_le_of_ne (Nat.le_pred_of_lt hlt)⟩
  unfold decode
  simp only [exponentField_eq, fractionField_eq, Nat.pow_eq]
  by_cases hlast : f.magnitude bits / 2 ^ f.fractionBits = 2 ^ f.exponentBits - 1
  · rw [if_pos hlast, if_neg (fun h => hfinite.1 h hlast)]
    split <;> rfl
  rw [if_neg hlast, if_pos (hfinite.2 hlast)]
  by_cases hfirst : f.magnitude bits / 2 ^ f.fractionBits = 0
  · rw [if_pos hfirst, number, units_eq_of_field_zero hfirst]
    rfl
  · have hnumber : f.number (f.magnitude bits) = (2 ^ f.fractionBits + f.magnitude bits % 2 ^ f.fractionBits : Nat) *
        2 ^ (f.minExponent + ((f.magnitude bits / 2 ^ f.fractionBits : Nat) - 1) : Int) := by
      have hexponent : (((f.magnitude bits / 2 ^ f.fractionBits : Nat) : Int) - 1) =
          (f.magnitude bits / 2 ^ f.fractionBits - 1 : Nat) :=
        (Int.natCast_pred_of_pos (Nat.pos_of_ne_zero hfirst)).symm
      rw [number, units_eq_of_field_pos hfirst, hexponent, zpow_add₀ (by norm_num), zpow_natCast]
      push_cast
      ring
    rw [if_neg hfirst, hnumber]
    rfl

/-! ## What is rewritten -/

section Convert

variable {source target : Format} {bits payload : Nat} {negative : Bool}

theorem convert_nan (h : source.decode bits = .nan negative payload) : source.convert target bits =
    target.encode (.nan negative (payload * 2 ^ (target.fractionBits - source.fractionBits) /
      2 ^ (source.fractionBits - target.fractionBits))) := by
  unfold convert
  rw [h]
  rfl

theorem convert_infinite (h : source.decode bits = .infinite negative) :
    source.convert target bits = target.withSign negative target.infinity := by
  unfold convert
  rw [h]
  rfl

theorem convert_finite (h : source.decode bits = .finite negative m e) :
    source.convert target bits = target.withSign negative (target.roundMagnitude m e) := by
  unfold convert
  rw [h]
  rfl

end Convert

end Format
end Binary
end TensorGraph
