/-!
# The catalogue of operations, without their attributes

Operations that share one inference rule share one constructor of `OpType` and differ in a
member of a small enumeration.  `all` lists the catalogue in its fixed order; names, numbers
of inputs and commutativity are read from here and nowhere else.
-/
namespace TensorGraph

/-- Number of inputs that an operation accepts. -/
inductive Arity where
  | exact (count : Nat)
  | atLeast (count : Nat)
  /-- Both ends belong to the range. -/
  | range (low high : Nat)
  deriving DecidableEq

namespace Arity

def accepts : Arity → Nat → Bool
  | exact n, count => count = n
  | atLeast n, count => n ≤ count
  | range low high, count => low ≤ count && count ≤ high

def text : Arity → String
  | exact n => toString n
  | atLeast n => "at least " ++ toString n
  | range low high => toString low ++ " to " ++ toString high

end Arity

/-- Operations that map one tensor element by element. -/
inductive UnaryOp where
  | abs | erf | exp | floor | negative | relu | sigmoid | sqrt | tanh
  deriving DecidableEq

/-- Operations that combine two tensors element by element. -/
inductive BinaryOp where
  | add | subtract | multiply | divide | maximum | minimum | power
  | equal | less | greater
  deriving DecidableEq

/-- Operations that collapse axes. -/
inductive ReduceOp where
  | sum | mean | prod
  deriving DecidableEq

/-- Operations that slide a window over the spatial axes. -/
inductive PoolOp where
  | max | avg
  deriving DecidableEq

inductive OpType where
  | parameter | constant
  | unary (op : UnaryOp)
  | convert | softmax
  | binary (op : BinaryOp)
  | matMul
  | reduce (op : ReduceOp)
  | shapeOf | transpose | reshape | flatten | concat | split
  | stridedSlice | reverseSequence
  | pool (op : PoolOp)
  | hardSigmoid | fusedMultiplyAdd
  deriving DecidableEq

namespace UnaryOp

def all : List UnaryOp := [abs, erf, exp, floor, negative, relu, sigmoid, sqrt, tanh]

def name : UnaryOp → String
  | abs => "Abs" | erf => "Erf" | exp => "Exp" | floor => "Floor" | negative => "Negative"
  | relu => "Relu" | sigmoid => "Sigmoid" | sqrt => "Sqrt" | tanh => "Tanh"

/-- The operation has no meaning on integers. -/
def floatOnly : UnaryOp → Bool
  | erf | exp | sigmoid | sqrt | tanh => true
  | abs | floor | negative | relu => false

end UnaryOp

namespace BinaryOp

def all : List BinaryOp :=
  [add, subtract, multiply, divide, maximum, minimum, power, equal, less, greater]

def name : BinaryOp → String
  | add => "Add" | subtract => "Subtract" | multiply => "Multiply" | divide => "Divide"
  | maximum => "Maximum" | minimum => "Minimum" | power => "Power"
  | equal => "Equal" | less => "Less" | greater => "Greater"

/-- The operands can be swapped without changing the result. -/
def isCommutative : BinaryOp → Bool
  | add | multiply | maximum | minimum | equal => true
  | subtract | divide | power | less | greater => false

/-- The result tells whether a relation holds. -/
def isComparison : BinaryOp → Bool
  | equal | less | greater => true
  | _ => false

end BinaryOp

namespace ReduceOp

def all : List ReduceOp := [sum, mean, prod]

def name : ReduceOp → String
  | sum => "ReduceSum" | mean => "ReduceMean" | prod => "ReduceProd"

end ReduceOp

namespace PoolOp

def all : List PoolOp := [max, avg]

def name : PoolOp → String
  | max => "MaxPool" | avg => "AvgPool"

end PoolOp

namespace OpType

/-- The whole catalogue, in order. -/
def all : List OpType :=
  [parameter, constant] ++ UnaryOp.all.map unary ++ [convert, softmax]
    ++ BinaryOp.all.map binary ++ [matMul] ++ ReduceOp.all.map reduce
    ++ [shapeOf, transpose, reshape, flatten, concat, split, stridedSlice, reverseSequence]
    ++ PoolOp.all.map pool ++ [hardSigmoid, fusedMultiplyAdd]

theorem mem_all (t : OpType) : t ∈ all := by
  cases t <;> first | decide | (rename_i op; cases op <;> decide)

def name : OpType → String
  | parameter => "Parameter" | constant => "Constant"
  | unary op => op.name
  | convert => "Convert" | softmax => "Softmax"
  | binary op => op.name
  | matMul => "MatMul"
  | reduce op => op.name
  | shapeOf => "ShapeOf" | transpose => "Transpose" | reshape => "Reshape"
  | flatten => "Flatten" | concat => "Concat" | split => "Split"
  | stridedSlice => "StridedSlice" | reverseSequence => "ReverseSequence"
  | pool op => op.name
  | hardSigmoid => "HardSigmoid" | fusedMultiplyAdd => "FusedMultiplyAdd"

def ofName? (s : String) : Option OpType := all.find? (fun t => t.name = s)

def arity : OpType → Arity
  | parameter | constant => .exact 0
  | unary _ | convert | softmax | reduce _ | shapeOf | flatten | split | stridedSlice | pool _ => .exact 1
  | binary _ | matMul | reverseSequence => .exact 2
  | hardSigmoid | fusedMultiplyAdd => .exact 3
  | transpose | reshape => .range 1 2
  | concat => .atLeast 1

/-- A binary operation whose operands can be swapped. -/
def isCommutative : OpType → Bool
  | binary op => op.isCommutative
  | _ => false

end OpType
end TensorGraph
