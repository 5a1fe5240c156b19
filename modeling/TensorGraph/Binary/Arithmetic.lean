import TensorGraph.Binary.Rounding
/-!
# Arithmetic on decoded numbers

Sums and products of finite numbers are exact here; only `Format.encode` rounds.  A
quotient has no finite binary form in general, so `quotient` keeps `guard` places and
sets the last one if anything is left over.  That last place lies below every place the
format keeps, so the rounded result is that of the exact quotient.

Operations without a meaningful answer, and operations on NaN, give `invalid`.
-/
namespace TensorGraph
namespace Binary
namespace Datum

/-- The NaN that stands for an invalid operation. -/
def invalid : Datum := .nan false 0

def negate : Datum → Datum
  | nan s p => nan (!s) p
  | infinite s => infinite (!s)
  | finite s m e => finite (!s) m e

/-- The number `n · 2^e`, where zero takes the given sign. -/
def ofScaled (zeroNegative : Bool) (n : Int) (e : Int) : Datum :=
  finite (if n = 0 then zeroNegative else decide (n < 0)) n.natAbs e

def ofInt (n : Int) : Datum := ofScaled false n 0

def signed (negative : Bool) (m : Nat) : Int := if negative then -(m : Int) else m

/-- The sum of opposite numbers is a positive zero; only two negative zeros add up to a
negative one. -/
def add : Datum → Datum → Datum
  | nan _ _, _ | _, nan _ _ => invalid
  | infinite s, infinite t => if s = t then infinite s else invalid
  | infinite s, finite _ _ _ => infinite s
  | finite _ _ _, infinite t => infinite t
  | finite s m e, finite t n k =>
    let low := min e k
    ofScaled (s && t)
      (signed s (m * Nat.pow 2 (e - low).toNat) + signed t (n * Nat.pow 2 (k - low).toNat)) low

def sub (a b : Datum) : Datum := a.add b.negate

def mul : Datum → Datum → Datum
  | nan _ _, _ | _, nan _ _ => invalid
  | infinite s, infinite t => infinite (s != t)
  | infinite s, finite t n _ => if n = 0 then invalid else infinite (s != t)
  | finite s m _, infinite t => if m = 0 then invalid else infinite (s != t)
  | finite s m e, finite t n k => finite (s != t) (m * n) (e + k)

/-- Quotient of two significands to `guard` places, the last of them sticky. -/
def quotient (guard m n : Nat) : Nat :=
  2 * (m * Nat.pow 2 guard / n) + (if m * Nat.pow 2 guard % n = 0 then 0 else 1)

def div (f : Format) : Datum → Datum → Datum
  | nan _ _, _ | _, nan _ _ => invalid
  | infinite _, infinite _ => invalid
  | infinite s, finite t _ _ => infinite (s != t)
  | finite s _ _, infinite t => finite (s != t) 0 0
  | finite s m e, finite t n k =>
    if n = 0 then (if m = 0 then invalid else infinite (s != t))
    else
      let guard := f.fractionBits + 3 + n.log2
      finite (s != t) (quotient guard m n) (e - k - guard - 1)

/-- The integer part, held between `low` and `high`; NaN counts as zero. -/
def truncate (low high : Int) : Datum → Int
  | nan _ _ => 0
  | infinite s => if s then low else high
  | finite s m e =>
    let whole := if 0 ≤ e then m * Nat.pow 2 e.toNat else m / Nat.pow 2 (-e).toNat
    max low (min high (signed s whole))

def isZero : Datum → Bool
  | finite _ m _ => m = 0
  | _ => false

end Datum
end Binary
end TensorGraph
