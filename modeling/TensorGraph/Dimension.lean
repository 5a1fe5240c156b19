import TensorGraph.ElementType
/-!
# Dimension — one extent of a tensor

A dimension is a size, or `dynamic` when the size is not known before the graph runs.
Sizes are counted in 64-bit words, so sums and products that reach `sizeLimit` have no
answer: `add?` and `mul?` return `none` there, and nowhere else.

Two ways of combining dimensions:
- `merge` joins two claims about the same extent;
- `broadcast` stretches an extent of 1 to the other one.  A dynamic extent beside a size
  other than 1 has to have that size when the graph runs, so the answer is the size.
-/
namespace TensorGraph

/-- The number of 64-bit words; sizes are below it. -/
def sizeLimit : Nat := 0x10000000000000000

/-- The number of non-negative signed 64-bit words. -/
def signedLimit : Nat := 0x8000000000000000

inductive Dimension where
  | fixed (size : Nat)
  | dynamic
  deriving DecidableEq, Inhabited

namespace Dimension

def isStatic : Dimension → Bool
  | fixed _ => true
  | dynamic => false

def size? : Dimension → Option Nat
  | fixed n => some n
  | dynamic => none

def text : Dimension → String
  | fixed n => toString n
  | dynamic => "?"

/-- The first dimension claims no more than the second. -/
def relaxes : Dimension → Dimension → Bool
  | dynamic, _ => true
  | fixed a, d => d = fixed a

def merge : Dimension → Dimension → Except Conflict Dimension
  | fixed a, fixed b => if a = b then .ok (fixed a) else .error (.dimension a b)
  | fixed a, dynamic => .ok (fixed a)
  | dynamic, d => .ok d

def broadcast : Dimension → Dimension → Except Conflict Dimension
  | fixed a, fixed b =>
    if a = b then .ok (fixed a)
    else if a = 1 then .ok (fixed b)
    else if b = 1 then .ok (fixed a)
    else .error (.broadcast a b)
  | fixed a, dynamic => .ok (if a = 1 then dynamic else fixed a)
  | dynamic, fixed b => .ok (if b = 1 then dynamic else fixed b)
  | dynamic, dynamic => .ok dynamic

/-- Both dimensions can describe the same size. -/
def compatible (a b : Dimension) : Bool := (a.merge b).isOk

/-- Sum, unless it overflows. -/
def add? : Dimension → Dimension → Option Dimension
  | fixed a, fixed b => if a + b < sizeLimit then some (fixed (a + b)) else none
  | _, _ => some dynamic

/-- Product, unless it overflows.  A factor of zero decides the product even beside a
dynamic one. -/
def mul? : Dimension → Dimension → Option Dimension
  | fixed a, fixed b => if a * b < sizeLimit then some (fixed (a * b)) else none
  | fixed a, dynamic => some (if a = 0 then fixed 0 else dynamic)
  | dynamic, fixed b => some (if b = 0 then fixed 0 else dynamic)
  | dynamic, dynamic => some dynamic

/-- Product of a list, from the left; `none` as soon as a partial product overflows. -/
def product? (dims : List Dimension) : Option Dimension := dims.foldlM mul? (fixed 1)

end Dimension
end TensorGraph
