import TensorGraph.Dimension
/-!
# Shape — the extents of a tensor, as far as they are known

A shape either has no known rank or is a list of dimensions.  `relaxes` orders shapes by
how much they claim, `merge` joins two claims, `broadcast` aligns two shapes at their last
dimension and stretches extents of 1, the shorter shape being filled up with 1s on the
left.  Broadcasting with a shape of unknown rank gives unknown rank, since the unknown
side may have more dimensions than the other.
-/
namespace TensorGraph

inductive Shape where
  | unknown
  | ranked (dims : List Dimension)
  deriving DecidableEq, Inhabited

/-- Combine two lists position by position, stopping at the first conflict. -/
def Dimension.zipEach (f : Dimension → Dimension → Except Conflict Dimension) :
    List Dimension → List Dimension → Except Conflict (List Dimension)
  | a :: as, b :: bs => do
    let d ← f a b
    let ds ← zipEach f as bs
    return d :: ds
  | _, _ => .ok []

namespace Shape

def scalar : Shape := ranked []

/-- A shape of known rank with nothing known about its extents. -/
def ofRank (rank : Nat) : Shape := ranked (List.replicate rank .dynamic)

def ofSizes (sizes : List Nat) : Shape := ranked (sizes.map .fixed)

def dims? : Shape → Option (List Dimension)
  | unknown => none
  | ranked dims => some dims

def rank? (s : Shape) : Option Nat := s.dims?.map List.length

/-- Dimension `index`, if the rank is known and reaches that far. -/
def dim? (s : Shape) (index : Nat) : Option Dimension := s.dims?.bind (·[index]?)

def isRanked (s : Shape) : Bool := s.dims?.isSome

/-- The rank and every extent are known. -/
def isStatic (s : Shape) : Bool :=
  match s with
  | unknown => false
  | ranked dims => dims.all Dimension.isStatic

def sizes? (s : Shape) : Option (List Nat) :=
  match s with
  | unknown => none
  | ranked dims => dims.mapM Dimension.size?

/-- Number of elements, if it is known and does not overflow.  One extent of zero makes
the number zero whatever the others are. -/
def elementCount? (s : Shape) : Option Nat :=
  match s with
  | unknown => none
  | ranked dims =>
    if dims.contains (.fixed 0) then some 0 else (Dimension.product? dims).bind Dimension.size?

def merge (a b : Shape) : Except Conflict Shape :=
  match a, b with
  | unknown, _ => .ok b
  | _, unknown => .ok a
  | ranked xs, ranked ys =>
    if xs.length ≠ ys.length then .error (.rank xs.length ys.length)
    else ranked <$> Dimension.zipEach Dimension.merge xs ys

/-- Fill `dims` up with 1s on the left to length `rank`. -/
def padTo (rank : Nat) (dims : List Dimension) : List Dimension :=
  List.replicate (rank - dims.length) (.fixed 1) ++ dims

def broadcast (a b : Shape) : Except Conflict Shape :=
  match a, b with
  | ranked xs, ranked ys =>
    let rank := max xs.length ys.length
    ranked <$> Dimension.zipEach Dimension.broadcast (padTo rank xs) (padTo rank ys)
  | _, _ => .ok unknown

/-- Both shapes can describe the same tensor. -/
def compatible (a b : Shape) : Bool := (a.merge b).isOk

/-- The first shape claims no more than the second. -/
def relaxes (a b : Shape) : Bool :=
  match a, b with
  | unknown, _ => true
  | ranked _, unknown => false
  | ranked xs, ranked ys =>
    decide (xs.length = ys.length) && (xs.zip ys).all (fun p => p.1.relaxes p.2)

def text : Shape → String
  | unknown => "?"
  | ranked dims => "\x7b" ++ String.intercalate "," (dims.map Dimension.text) ++ "\x7d"

end Shape
end TensorGraph
