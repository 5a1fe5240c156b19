import TensorGraph.Binary.Number
import TensorGraph.TensorType
/-!
# Constant — tensors whose elements are known

The elements are one list of one type.  Six element types have such lists; `splat?`
refuses the others.

Element lists are compared in two ways.  `=` compares patterns; `sameNumbers` compares as
numbers do, so that a NaN differs from itself and the two zeros agree.

A type of this library whose values are elements of tensors has one element type
(`HasElementType`).
-/
namespace TensorGraph

open Binary (Datum)

class HasElementType (α : Type) where
  elementType : ElementType

namespace HasElementType

instance : HasElementType Bool := ⟨.boolean⟩
instance : HasElementType Half := ⟨.f16⟩
instance : HasElementType Single := ⟨.f32⟩
instance : HasElementType Double := ⟨.f64⟩
instance : HasElementType Int8 := ⟨.i8⟩
instance : HasElementType Int16 := ⟨.i16⟩
instance : HasElementType Int32 := ⟨.i32⟩
instance : HasElementType Int64 := ⟨.i64⟩
instance : HasElementType UInt8 := ⟨.u8⟩
instance : HasElementType UInt16 := ⟨.u16⟩
instance : HasElementType UInt32 := ⟨.u32⟩
instance : HasElementType UInt64 := ⟨.u64⟩

end HasElementType

inductive ConstantData where
  | bool (elements : List Bool)
  | f16 (elements : List Half)
  | f32 (elements : List Single)
  | f64 (elements : List Double)
  | i32 (elements : List Int32)
  | i64 (elements : List Int64)
  deriving DecidableEq

namespace ConstantData

def size : ConstantData → Nat
  | bool xs => xs.length
  | f16 xs => xs.length
  | f32 xs => xs.length
  | f64 xs => xs.length
  | i32 xs => xs.length
  | i64 xs => xs.length

def isEmpty (d : ConstantData) : Bool := d.size = 0

def elementType : ConstantData → ElementType
  | bool _ => .boolean
  | f16 _ => .f16
  | f32 _ => .f32
  | f64 _ => .f64
  | i32 _ => .i32
  | i64 _ => .i64

/-- One element with the given value.  Integers take the integer part and stay within
their range; a boolean is true unless the value is zero. -/
def splat? (type : ElementType) (x : Double) : Option ConstantData :=
  match type with
  | .f16 => some (f16 [Half.ofSingle x.toSingle])
  | .f32 => some (f32 [x.toSingle])
  | .f64 => some (f64 [x])
  | .i32 => some (i32 [Int32.ofInt (x.datum.truncate (-0x80000000) 0x7FFFFFFF)])
  | .i64 => some (i64 [Int64.ofInt (x.datum.truncate (-signedLimit) (signedLimit - 1))])
  | .boolean => some (bool [!x.datum.isZero])
  | _ => none

/-- The elements as integers, if they are integers. -/
def ints? : ConstantData → Option (List Int)
  | i32 xs => some (xs.map Int32.toInt)
  | i64 xs => some (xs.map Int64.toInt)
  | _ => none

/-- Element `index` as a double, rounded if it has to be. -/
def double? (d : ConstantData) (index : Nat) : Option Double :=
  match d with
  | bool xs => xs[index]?.map (fun b => if b then Double.one else Double.zero)
  | f16 xs => xs[index]?.map Half.toDouble
  | f32 xs => xs[index]?.map Single.toDouble
  | f64 xs => xs[index]?
  | i32 xs => xs[index]?.map (fun n => Double.ofInt n.toInt)
  | i64 xs => xs[index]?.map (fun n => Double.ofInt n.toInt)

/-- Two lists agree position by position. -/
def agree {α : Type} (same : α → α → Bool) : List α → List α → Bool
  | [], [] => true
  | x :: xs, y :: ys => same x y && agree same xs ys
  | _, _ => false

def sameNumbers : ConstantData → ConstantData → Bool
  | bool xs, bool ys => xs = ys
  | f16 xs, f16 ys => agree Half.sameNumber xs ys
  | f32 xs, f32 ys => agree Single.sameNumber xs ys
  | f64 xs, f64 ys => agree Double.sameNumber xs ys
  | i32 xs, i32 ys => xs = ys
  | i64 xs, i64 ys => xs = ys
  | _, _ => false

end ConstantData

/-- Elements together with the sizes of the tensor they fill. -/
structure Constant where
  data : ConstantData
  sizes : List Nat
  deriving DecidableEq

namespace Constant

def scalar (data : ConstantData) : Constant := ⟨data, []⟩

/-- The value of a constant with exactly one element. -/
def scalarDouble? (c : Constant) : Option Double :=
  if c.data.size = 1 then c.data.double? 0 else none

def sameNumbers (a b : Constant) : Bool := a.data.sameNumbers b.data && a.sizes = b.sizes

end Constant
end TensorGraph
