/-!
# Binary interchange formats

A format has a sign bit, an exponent field and a fraction field.  Bit patterns are
natural numbers here; the fixed-width types of `Binary.Number` hold them.

`decode` says what a pattern stands for.  The value of `finite negative m e` is `m · 2^e`,
negated if `negative` holds, so a subnormal number and a zero need no case of their own:
they are finite with the smallest exponent.
-/
namespace TensorGraph
namespace Binary

structure Format where
  exponentBits : Nat
  fractionBits : Nat
  deriving DecidableEq

/-- What a bit pattern stands for. -/
inductive Datum where
  | nan (negative : Bool) (payload : Nat)
  | infinite (negative : Bool)
  | finite (negative : Bool) (significand : Nat) (exponent : Int)
  deriving DecidableEq

namespace Format

def half : Format := ⟨5, 10⟩
def single : Format := ⟨8, 23⟩
def double : Format := ⟨11, 52⟩

/-- The number subtracted from a stored exponent. -/
def bias (f : Format) : Nat := Nat.pow 2 (f.exponentBits - 1) - 1

/-- Exponent of the least significant place that the format can store. -/
def minExponent (f : Format) : Int := 1 - f.bias - f.fractionBits

/-- Magnitude bits of infinity: the exponent field is all ones, the fraction is zero. -/
def infinity (f : Format) : Nat := (Nat.pow 2 f.exponentBits - 1) * Nat.pow 2 f.fractionBits

/-- The fraction bit that tells a quiet NaN from a signalling one. -/
def quietBit (f : Format) : Nat := Nat.pow 2 (f.fractionBits - 1)

def isNegative (f : Format) (bits : Nat) : Bool := bits.testBit (f.exponentBits + f.fractionBits)

def exponentField (f : Format) (bits : Nat) : Nat := bits / Nat.pow 2 f.fractionBits % Nat.pow 2 f.exponentBits

def fractionField (f : Format) (bits : Nat) : Nat := bits % Nat.pow 2 f.fractionBits

/-- The pattern without its sign bit. -/
def magnitude (f : Format) (bits : Nat) : Nat := bits % Nat.pow 2 (f.exponentBits + f.fractionBits)

def withSign (f : Format) (negative : Bool) (magnitude : Nat) : Nat :=
  if negative then Nat.pow 2 (f.exponentBits + f.fractionBits) + magnitude else magnitude

def decode (f : Format) (bits : Nat) : Datum :=
  let negative := f.isNegative bits
  let exponent := f.exponentField bits
  let fraction := f.fractionField bits
  if exponent = Nat.pow 2 f.exponentBits - 1 then
    if fraction = 0 then .infinite negative else .nan negative fraction
  else if exponent = 0 then .finite negative fraction f.minExponent
  else .finite negative (Nat.pow 2 f.fractionBits + fraction) (f.minExponent + (exponent - 1))

def isNaN (f : Format) (bits : Nat) : Bool :=
  f.exponentField bits = Nat.pow 2 f.exponentBits - 1 && f.fractionField bits != 0

/-- A position on the number line: patterns that are not NaN compare as these numbers do,
and the two zeros share one. -/
def rank (f : Format) (bits : Nat) : Int :=
  if f.isNegative bits then -(f.magnitude bits : Int) else f.magnitude bits

/-- Order of two patterns; NaN has no place in it. -/
def compare? (f : Format) (a b : Nat) : Option Ordering :=
  if f.isNaN a || f.isNaN b then none else some (compare (f.rank a) (f.rank b))

/-- Equality as numbers: the two zeros are equal, and NaN equals nothing. -/
def sameNumber (f : Format) (a b : Nat) : Bool := f.compare? a b = some .eq

end Format
end Binary
end TensorGraph
