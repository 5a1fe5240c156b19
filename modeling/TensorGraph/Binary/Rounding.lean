import TensorGraph.Binary.Format
/-!
# Rounding to a format

An exact number `m · 2^e` is written in a format by keeping as many places as the format
stores and rounding to the nearest pattern, a tie going to the even one.  The places kept
end at the larger of two exponents: the one that leaves a significand of full width, and
`minExponent`, below which the format stores nothing.

The magnitude bits of a format count its non-negative numbers in order.  So the rounded
significand is added to the bits of its exponent without separating the two, and a carry
out of the fraction moves to the next exponent by itself; numbers past the largest finite
one end at `infinity`.
-/
namespace TensorGraph
namespace Binary

/-- The integer nearest to `m / 2^k`, a tie going to the even one. -/
def shiftToEven (m k : Nat) : Nat :=
  let q := m / Nat.pow 2 k
  let r := m % Nat.pow 2 k
  if Nat.pow 2 k < 2 * r ∨ (Nat.pow 2 k = 2 * r ∧ q % 2 = 1) then q + 1 else q

namespace Format

/-- Exponent of the last place kept of `m · 2^e`. -/
def lastPlace (f : Format) (m : Nat) (e : Int) : Int :=
  max (e + m.log2 - f.fractionBits) f.minExponent

/-- Magnitude bits of the pattern nearest to `m · 2^e`. -/
def roundMagnitude (f : Format) (m : Nat) (e : Int) : Nat :=
  if m = 0 then 0
  else
    let place := f.lastPlace m e
    let kept := if place ≤ e then m * Nat.pow 2 (e - place).toNat else shiftToEven m (place - e).toNat
    min (kept + (place - f.minExponent).toNat * Nat.pow 2 f.fractionBits) f.infinity

/-- The pattern of a datum: finite numbers are rounded, and every NaN comes out quiet. -/
def encode (f : Format) : Datum → Nat
  | .nan negative payload => f.withSign negative (f.infinity ||| f.quietBit ||| payload)
  | .infinite negative => f.withSign negative f.infinity
  | .finite negative m e => f.withSign negative (f.roundMagnitude m e)

/-- Rewrite a pattern in another format.  The payload of a NaN keeps its leading bits. -/
def convert (source target : Format) (bits : Nat) : Nat :=
  match source.decode bits with
  | .nan negative payload =>
    target.encode (.nan negative
      (payload * Nat.pow 2 (target.fractionBits - source.fractionBits)
        / Nat.pow 2 (source.fractionBits - target.fractionBits)))
  | d => target.encode d

end Format
end Binary
end TensorGraph
