import TensorGraph.Binary.Arithmetic
/-!
# Half, Single, Double — numbers held as bit patterns

Each type is its pattern, so that NaN payloads and the sign of zero are kept.  Equality of
patterns is `=`; equality of numbers is `sameNumber`.

Half precision has arithmetic: an operation is carried out in single precision and the
result is then rounded to half precision.  Widening to single precision is exact.
-/
namespace TensorGraph

structure Half where
  bits : UInt16
  deriving DecidableEq, Inhabited

structure Single where
  bits : UInt32
  deriving DecidableEq, Inhabited

structure Double where
  bits : UInt64
  deriving DecidableEq, Inhabited

open Binary (Datum Format)

namespace Single

def datum (x : Single) : Datum := Format.single.decode x.bits.toNat

def ofDatum (d : Datum) : Single := ⟨UInt32.ofNat (Format.single.encode d)⟩

def toDouble (x : Single) : Double := ⟨UInt64.ofNat (Format.single.convert .double x.bits.toNat)⟩

def sameNumber (x y : Single) : Bool := Format.single.sameNumber x.bits.toNat y.bits.toNat

end Single

namespace Double

def datum (x : Double) : Datum := Format.double.decode x.bits.toNat

def ofDatum (d : Datum) : Double := ⟨UInt64.ofNat (Format.double.encode d)⟩

def toSingle (x : Double) : Single := ⟨UInt32.ofNat (Format.double.convert .single x.bits.toNat)⟩

def ofInt (n : Int) : Double := ofDatum (Datum.ofInt n)

def zero : Double := ⟨0⟩

def one : Double := ofInt 1

def isNaN (x : Double) : Bool := Format.double.isNaN x.bits.toNat

def sameNumber (x y : Double) : Bool := Format.double.sameNumber x.bits.toNat y.bits.toNat

end Double

namespace Half

def datum (x : Half) : Datum := Format.half.decode x.bits.toNat

def toSingle (x : Half) : Single := ⟨UInt32.ofNat (Format.half.convert .single x.bits.toNat)⟩

def toDouble (x : Half) : Double := x.toSingle.toDouble

/-! ## Narrowing -/

/-- The low bits of a word. -/
def ofWord (word : UInt32) : Half := ⟨word.toUInt16⟩

/-- Whether to round up where the bits from `roundBit` down are dropped: the first of them is set, and either a later one
or the last bit that is kept. -/
def roundsUp (bits roundBit : UInt32) : Bool := bits &&& roundBit != 0 && bits &&& (3 * roundBit - 1) != 0

/-- The nearest half.  Numbers too large for one become infinities, numbers too small a zero, and a NaN becomes quiet and
keeps the upper bits of its payload. -/
def ofSingle (x : Single) : Half :=
  let sign : UInt32 := (x.bits &&& 0x80000000) >>> 16
  let exponent := x.bits &&& 0x7F800000
  let fraction := x.bits &&& 0x7FFFFF
  let upper : UInt32 := fraction >>> 13
  if exponent = 0x7F800000 then
    let quiet : UInt32 := if fraction = 0 then 0 else 0x200
    ofWord (sign ||| 0x7C00 ||| quiet ||| upper)
  else
    let rebased : Int := (exponent >>> 23).toNat - 127 + 15
    if 0x1F ≤ rebased then ofWord (sign ||| 0x7C00)
    else if rebased ≤ 0 then
      if 24 < 14 - rebased then ofWord sign
      else
        -- a subnormal number stores the leading bit that a normal one leaves out
        let significand := fraction ||| 0x800000
        let kept : UInt32 := significand >>> UInt32.ofNat (14 - rebased).toNat
        let roundBit : UInt32 := 1 <<< UInt32.ofNat (13 - rebased).toNat
        ofWord (sign ||| (if roundsUp significand roundBit then kept + 1 else kept))
    else
      -- a carry out of the fraction goes on into the exponent
      let place : UInt32 := UInt32.ofNat rebased.toNat <<< 10
      let kept := sign ||| place ||| upper
      ofWord (if roundsUp fraction 0x1000 then kept + 1 else kept)

/-! ## Fields -/

/-- Put a pattern together from its three fields; bits past the width of a field are
dropped. -/
def ofFields (sign exponent fraction : UInt16) : Half :=
  ⟨((sign &&& 1) <<< 15) ||| ((exponent &&& 0x1F) <<< 10) ||| (fraction &&& 0x3FF)⟩

def sign (x : Half) : UInt16 := x.bits >>> 15

/-- The exponent as it is stored. -/
def exponentField (x : Half) : UInt16 := (x.bits &&& 0x7C00) >>> 10

def fraction (x : Half) : UInt16 := x.bits &&& 0x3FF

def isNaN (x : Half) : Bool := x.bits &&& 0x7C00 = 0x7C00 && x.bits &&& 0x3FF != 0

/-- A NaN whose quiet bit is clear. -/
def isSignaling (x : Half) : Bool := x.isNaN && x.bits &&& 0x200 = 0

def isInfinite (x : Half) : Bool := x.bits &&& 0x7FFF = 0x7C00

def isFinite (x : Half) : Bool := x.bits &&& 0x7C00 != 0x7C00

def isSubnormal (x : Half) : Bool := x.bits &&& 0x7C00 = 0 && x.bits &&& 0x3FF != 0

def isNegative (x : Half) : Bool := x.bits &&& 0x8000 != 0

/-! ## Distinguished numbers -/

def fractionBits : Nat := Format.half.fractionBits
def exponentBits : Nat := Format.half.exponentBits
def exponentBias : Nat := Format.half.bias

def zero : Half := ⟨0⟩
def negZero : Half := ⟨0x8000⟩
def one : Half := ⟨0x3C00⟩
def infinity : Half := ⟨0x7C00⟩
def negInfinity : Half := ⟨0xFC00⟩
def nan : Half := ⟨0x7E00⟩

/-- The largest finite number, 65504. -/
def greatest : Half := ⟨0x7BFF⟩

/-- The smallest finite number, -65504. -/
def least : Half := ⟨0xFBFF⟩

/-- The smallest positive number of full precision. -/
def leastNormal : Half := ⟨0x0400⟩

/-- The smallest positive number. -/
def leastPositive : Half := ⟨0x0001⟩

/-- The distance from 1 to the next number. -/
def epsilon : Half := ⟨0x1400⟩

/-! ## Arithmetic and order -/

/-- Round to single precision first and to half precision after that. -/
def ofDatum (d : Datum) : Half := ofSingle (Single.ofDatum d)

def add (x y : Half) : Half := ofDatum (x.datum.add y.datum)
def sub (x y : Half) : Half := ofDatum (x.datum.sub y.datum)
def mul (x y : Half) : Half := ofDatum (x.datum.mul y.datum)
def div (x y : Half) : Half := ofDatum (Datum.div .single x.datum y.datum)

/-- Flip the sign bit, of a NaN as well. -/
def neg (x : Half) : Half := ⟨x.bits ^^^ 0x8000⟩

def compare? (x y : Half) : Option Ordering := Format.half.compare? x.bits.toNat y.bits.toNat

def sameNumber (x y : Half) : Bool := Format.half.sameNumber x.bits.toNat y.bits.toNat

end Half
end TensorGraph
