import TensorGraph.Binary.Number
/-!
# The shortest decimal that reads back

A finite binary number is the nearest one to a whole interval of reals.  Among the
decimals in that interval the shortest has the largest power of ten as its unit, so
`shortest` walks the units downwards and takes the first one that has a multiple in the
interval.  If a unit has one, then one of the two multiples next to the number is in the
interval, so only these are tried; if both are, the nearer one is taken, and the upper one
when they are equally near.

The ends belong to the interval exactly if the significand is even, since a tie rounds to
the even neighbour.

A half is written as the single precision number of the same value: the fewest digits that
single precision reads back, in positional notation at every magnitude.  The sign of zero
is written, that of a NaN is not.
-/
namespace TensorGraph
namespace Decimal

open Binary (Format)

/-- An interval of reals around a number, as fractions over one denominator. -/
structure Interval where
  low : Nat
  value : Nat
  high : Nat
  denominator : Nat
  closed : Bool

/-- The reals that round to `m · 2^e`.  The gap below a power of two is half as wide as the
gap above it, unless the number is at the bottom of the range of exponents. -/
def Interval.around (f : Format) (m : Nat) (e : Int) : Interval :=
  let narrow := m = Nat.pow 2 f.fractionBits ∧ f.minExponent < e
  let scale := Nat.pow 2 (e - 2).toNat
  { low := (if narrow then 4 * m - 1 else 4 * m - 2) * scale
    value := 4 * m * scale
    high := (4 * m + 2) * scale
    denominator := Nat.pow 2 (2 - e).toNat
    closed := m % 2 = 0 }

/-- Multiply the interval by a power of ten, so that a unit of `10 ^ unit` becomes a unit
of one. -/
def Interval.inUnits (i : Interval) (unit : Int) : Interval :=
  let up := Nat.pow 10 (-unit).toNat
  { i with
    low := i.low * up
    value := i.value * up
    high := i.high * up
    denominator := i.denominator * Nat.pow 10 unit.toNat }

def Interval.contains (i : Interval) (n : Nat) : Bool :=
  let x := n * i.denominator
  if i.closed then i.low ≤ x && x ≤ i.high else i.low < x && x < i.high

/-- The multiple of one nearest to the value, of the two next to it that the interval
contains. -/
def Interval.nearest? (i : Interval) : Option Nat :=
  let down := i.value / i.denominator
  let up := down + 1
  match i.contains down, i.contains up with
  | false, false => none
  | true, false => some down
  | false, true => some up
  | true, true =>
    if i.value - down * i.denominator < up * i.denominator - i.value then some down else some up

/-- Walk the units downwards from `unit`. -/
def firstUnit (i : Interval) : Nat → Int → Nat × Int
  | 0, unit => ((i.inUnits unit).value / (i.inUnits unit).denominator, unit)
  | steps + 1, unit =>
    match (i.inUnits unit).nearest? with
    | some n => (n, unit)
    | none => firstUnit i steps (unit - 1)

/-- The pair `(n, unit)` for which `n · 10 ^ unit` is the shortest decimal that reads back
as `m · 2^e`.  No more units are tried than the exact value has places. -/
def shortest (f : Format) (m : Nat) (e : Int) : Nat × Int :=
  let i := Interval.around f m e
  let start := (toString (i.value / i.denominator)).length
  firstUnit i (start + e.natAbs + 1) start

/-- Positional notation of `n · 10 ^ unit`: no exponent, and no point in an integer. -/
def positional (n : Nat) (unit : Int) : String :=
  let digits := toString n
  if 0 ≤ unit then digits ++ String.ofList (List.replicate unit.toNat '0')
  else
    let places := (-unit).toNat
    let padded := List.replicate (places + 1 - digits.length) '0' ++ digits.toList
    String.ofList (padded.take (padded.length - places)) ++ "."
      ++ String.ofList (padded.drop (padded.length - places))

end Decimal

/-! ## The text of a half precision number -/

def Single.text (x : Single) : String :=
  match x.datum with
  | .nan _ _ => "NaN"
  | .infinite negative => if negative then "-inf" else "inf"
  | .finite negative m e =>
    let magnitude :=
      if m = 0 then "0"
      else
        let (n, unit) := Decimal.shortest .single m e
        Decimal.positional n unit
    if negative then "-" ++ magnitude else magnitude

def Half.text (x : Half) : String := x.toSingle.text

/-- The form with the name of the type around it. -/
def Half.describe (x : Half) : String := "F16(" ++ x.text ++ ")"

end TensorGraph
