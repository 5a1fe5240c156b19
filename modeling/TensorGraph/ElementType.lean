/-!
# ElementType — what the elements of a tensor are

The list is closed.  `dynamic` stands for an element type that is not known yet; every
other member names a stored format.  The classes below are the ones operations ask about:
`isFloat`, `isIntegral` (booleans are neither) and `isSigned` (floats are signed).

A type has two spellings.  `text` is the short one that messages use, `variantName` the
long one that serialised types use.

As partial information `dynamic` says nothing and every other type says all there is.
`relaxes a b` says that `a` claims no more than `b`; `merge` joins what two sources claim,
and fails with a `Conflict` if they cannot both be true.
-/
namespace TensorGraph

inductive ElementType where
  | dynamic | boolean
  | f16 | bf16 | f32 | f64
  | i8 | i16 | i32 | i64
  | u8 | u16 | u32 | u64
  deriving DecidableEq, Inhabited

namespace ElementType

/-- Every element type, in the order of the declaration. -/
def all : List ElementType :=
  [dynamic, boolean, f16, bf16, f32, f64, i8, i16, i32, i64, u8, u16, u32, u64]

theorem mem_all (t : ElementType) : t ∈ all := by cases t <;> decide

/-- Size of one element in bits; unknown for `dynamic`. -/
def bitWidth? : ElementType → Option Nat
  | dynamic => none
  | boolean | i8 | u8 => some 8
  | f16 | bf16 | i16 | u16 => some 16
  | f32 | i32 | u32 => some 32
  | f64 | i64 | u64 => some 64

def isDynamic (t : ElementType) : Bool := t = dynamic

def isFloat : ElementType → Bool
  | f16 | bf16 | f32 | f64 => true
  | _ => false

/-- Integers of either sign; booleans are not integers. -/
def isIntegral : ElementType → Bool
  | i8 | i16 | i32 | i64 | u8 | u16 | u32 | u64 => true
  | _ => false

def isSigned : ElementType → Bool
  | f16 | bf16 | f32 | f64 | i8 | i16 | i32 | i64 => true
  | _ => false

/-- The spelling used in messages. -/
def text : ElementType → String
  | dynamic => "dynamic" | boolean => "bool"
  | f16 => "f16" | bf16 => "bf16" | f32 => "f32" | f64 => "f64"
  | i8 => "i8" | i16 => "i16" | i32 => "i32" | i64 => "i64"
  | u8 => "u8" | u16 => "u16" | u32 => "u32" | u64 => "u64"

/-- The spelling used in serialised types. -/
def variantName : ElementType → String
  | dynamic => "Dynamic" | boolean => "Boolean"
  | f16 => "F16" | bf16 => "BF16" | f32 => "F32" | f64 => "F64"
  | i8 => "I8" | i16 => "I16" | i32 => "I32" | i64 => "I64"
  | u8 => "U8" | u16 => "U16" | u32 => "U32" | u64 => "U64"

/-- The element type spelled `s` in messages. -/
def ofText? (s : String) : Option ElementType := all.find? (fun t => t.text = s)

/-- The element type spelled `s` in serialised types. -/
def ofVariantName? (s : String) : Option ElementType := all.find? (fun t => t.variantName = s)

end ElementType

/-! ## Partial information -/

/-- Why two descriptions of sizes, ranks or element types cannot both be true.  Each constructor keeps the two sides in
the order in which they were given. -/
inductive Conflict where
  /-- Two sizes of the same dimension differ. -/
  | dimension (lhs rhs : Nat)
  /-- Two sizes differ and neither is 1. -/
  | broadcast (lhs rhs : Nat)
  /-- Two ranks of the same shape differ. -/
  | rank (lhs rhs : Nat)
  /-- Two known element types differ. -/
  | elementType (lhs rhs : ElementType)
  deriving DecidableEq

namespace Conflict

def message : Conflict → String
  | dimension l r => "dimensions " ++ toString l ++ " and " ++ toString r ++ " are not equal"
  | broadcast l r => "dimensions " ++ toString l ++ " and " ++ toString r ++ " cannot be broadcast together"
  | rank l r => "ranks " ++ toString l ++ " and " ++ toString r ++ " are not equal"
  | elementType l r => "element types " ++ l.text ++ " and " ++ r.text ++ " are not compatible"

end Conflict

namespace ElementType

/-- The first type claims no more than the second. -/
def relaxes (a b : ElementType) : Bool := a.isDynamic || a = b

/-- Both types can describe the same tensor. -/
def compatible (a b : ElementType) : Bool := a = b || a.isDynamic || b.isDynamic

def merge (a b : ElementType) : Except Conflict ElementType :=
  if a = .dynamic then .ok b
  else if b = .dynamic then .ok a
  else if a = b then .ok a
  else .error (.elementType a b)

theorem merge_dynamic_left (b : ElementType) : merge .dynamic b = .ok b := by simp [merge]

theorem merge_self (a : ElementType) : merge a a = .ok a := by cases a <;> rfl

end ElementType
end TensorGraph
