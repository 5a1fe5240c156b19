import TensorGraph.Op.Catalog
import TensorGraph.Text
/-!
# Registry — the operations that a graph accepts

A registry lists operations, each once, in the order in which they were registered.  What
it says about an operation is taken from the catalogue.
-/
namespace TensorGraph

structure Registry where
  ops : List OpType
  deriving DecidableEq

/-- What a registry knows about an operation. -/
structure OpInfo where
  name : String
  arity : Arity
  isCommutative : Bool
  deriving DecidableEq

namespace Registry

def empty : Registry := ⟨[]⟩

def contains (r : Registry) (op : OpType) : Bool := r.ops.contains op

/-- Registering an operation again changes nothing. -/
def register (r : Registry) (op : OpType) : Registry :=
  if r.contains op then r else ⟨r.ops ++ [op]⟩

def ofList (ops : List OpType) : Registry := ops.foldl register empty

/-- Every operation of the catalogue. -/
def full : Registry := ⟨OpType.all⟩

def info? (r : Registry) (op : OpType) : Option OpInfo :=
  if r.contains op then some ⟨op.name, op.arity, op.isCommutative⟩ else none

/-- The operation is registered and its operands can be swapped. -/
def isCommutative (r : Registry) (op : OpType) : Bool := r.contains op && op.isCommutative

def size (r : Registry) : Nat := r.ops.length

def isEmpty (r : Registry) : Bool := r.ops.isEmpty

/-- The names of the operations in alphabetical order. -/
def names (r : Registry) : List String :=
  (r.ops.map OpType.name).mergeSort (fun a b => decide (a ≤ b))

def describe (r : Registry) : String :=
  "OpRegistry \x7b ops: " ++ Text.bracketed Text.quote r.names ++ " \x7d"

theorem contains_full (op : OpType) : full.contains op = true := by
  simp [contains, full, OpType.mem_all]

end Registry
end TensorGraph
