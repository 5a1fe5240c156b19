import TensorGraph.ElementType
import TensorGraph.Shape
/-!
# TensorType — element type and shape of a value

The information order on types is the product of the two orders.
-/
namespace TensorGraph

structure TensorType where
  element : ElementType
  shape : Shape
  deriving DecidableEq, Inhabited

namespace TensorType

/-- A type about which nothing is known. -/
def unknown : TensorType := ⟨.dynamic, .unknown⟩

def rank? (t : TensorType) : Option Nat := t.shape.rank?

/-- Both types can describe the same tensor. -/
def compatible (a b : TensorType) : Bool :=
  a.element.compatible b.element && a.shape.compatible b.shape

/-- The first type claims no more than the second. -/
def relaxes (a b : TensorType) : Bool :=
  a.element.relaxes b.element && a.shape.relaxes b.shape

def text (t : TensorType) : String := t.element.text ++ t.shape.text

end TensorType
end TensorGraph
