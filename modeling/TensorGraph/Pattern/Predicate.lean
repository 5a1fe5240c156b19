import TensorGraph.Graph.Basic
/-!
# Predicates on values

A predicate is a named condition.  It is asked about the graph as it is at the moment of
matching, so a condition such as the number of readers can change while rewrites are made.
-/
namespace TensorGraph

structure Predicate where
  name : String
  holds : Graph → ValueId → Bool

namespace Predicate

/-- The value has a known rank, equal to `rank`. -/
def rankEquals (rank : Nat) : Predicate where
  name := "rank_equals(" ++ toString rank ++ ")"
  holds g v := (g.type? v).bind TensorType.rank? = some rank

/-- Exactly `count` distinct nodes read the value. -/
def consumers (count : Nat) : Predicate where
  name := "consumers(" ++ toString count ++ ")"
  holds g v := g.consumerCount v = count

def staticShape : Predicate where
  name := "static_shape"
  holds g v := ((g.type? v).map (·.shape.isStatic)).getD false

def elementType (type : ElementType) : Predicate where
  name := "element_type(" ++ type.text ++ ")"
  holds g v := (g.type? v).map TensorType.element = some type

/-- Both hold; the second is asked only if the first does. -/
def and (p q : Predicate) : Predicate where
  name := p.name ++ " && " ++ q.name
  holds g v := p.holds g v && q.holds g v

/-- A rank and a number of readers together. -/
def consumersAndRank (count rank : Nat) : Predicate := (consumers count).and (rankEquals rank)

/-- Exactly one node reads the value, and it is no result. -/
def singleUse : Predicate where
  name := "single_use"
  holds g v := g.consumerCount v = 1 && !g.isResult v

def describe (p : Predicate) : String := "Predicate(" ++ p.name ++ ")"

end Predicate
end TensorGraph
