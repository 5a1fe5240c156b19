import TensorGraph.Binary.Number
import TensorGraph.Json.Compact
import TensorGraph.Shape
/-!
# Serialised shapes, dimensions, element types and numbers

How each of these is declared, over any layer that serialises declarations.  A dimension is a
choice: a size of one word, or a name alone.  A shape is a structure whose only field `dims`
holds the list of dimensions, if the rank is known.  An element type is a choice of names.  A
half precision number is a structure that holds its bit pattern, so every NaN survives.

The texts of this library are those of the compact layer.
-/
namespace TensorGraph

namespace Dimension

/-- The alternative, with its contents. -/
def variant : Dimension → String × Option Nat
  | fixed n => ("Fixed", some n)
  | dynamic => ("Dynamic", none)

def ofVariant? : String × Option Nat → Option Dimension
  | ("Fixed", some n) => some (fixed n)
  | ("Dynamic", none) => some dynamic
  | _ => none

end Dimension

namespace Shape

/-- The shape with these dimensions, or of unknown rank. -/
def ofDims : Option (List Dimension) → Shape
  | none => unknown
  | some dims => ranked dims

end Shape

namespace JsonLayer

variable (L : JsonLayer)

def dimension : Coder Dimension :=
  (L.choice ["Dynamic"] ["Fixed"] (L.word sizeLimit)).via Dimension.variant Dimension.ofVariant?

def shape : Coder Shape :=
  (L.record "dims" (L.option (L.list L.dimension))).via Shape.dims? (fun dims => some (Shape.ofDims dims))

/-- No element type has contents, so it does not matter how contents would be coded. -/
def elementType : Coder ElementType :=
  (L.choice (ElementType.all.map ElementType.variantName) [] (L.word 0)).via (fun t => (t.variantName, none))
    (fun v => ElementType.ofVariantName? v.1)

def half : Coder Half :=
  (L.newtype (L.word 0x10000)).via (fun x => x.bits.toNat) (fun n => some ⟨UInt16.ofNat n⟩)

end JsonLayer

/-! ## Whole texts -/

namespace Serial

open JsonLayer (compact)

def shapeText : Shape → String := compact.textOf compact.shape
def dimensionText : Dimension → String := compact.textOf compact.dimension
def elementTypeText : ElementType → String := compact.textOf compact.elementType
def halfText : Half → String := compact.textOf compact.half

def shape? : String → Option Shape := compact.valueOf? compact.shape
def dimension? : String → Option Dimension := compact.valueOf? compact.dimension
def elementType? : String → Option ElementType := compact.valueOf? compact.elementType
def half? : String → Option Half := compact.valueOf? compact.half

end Serial
end TensorGraph
