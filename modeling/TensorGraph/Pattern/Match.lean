import TensorGraph.Pattern.Build
/-!
# Matching

A match starts at a value and the root of a pattern and works backwards along the inputs of
nodes.  It collects bindings: the labelled values, in the order in which they were bound,
and the nodes that operation patterns stood for.  A failed attempt returns nothing, so the
next one goes on from the bindings before it.

The two inputs of a commutative operation are tried in the declared order first and then
swapped.  The first success is final: later failures do not come back to it.

Patterns may be cyclic, so the recursion is bounded by fuel.  `matchBound` is more than any
chain of attempts needs: a chain visits each pattern node at most once before it moves on
to an input of a node of the graph, and that happens at most once per node.  An attempt
that ran out of fuel would say so, by `cut`.
-/
namespace TensorGraph

structure Bindings where
  labels : List (String × ValueId)
  nodes : List NodeId
  deriving DecidableEq

namespace Bindings

def empty : Bindings := ⟨[], []⟩

def find? (b : Bindings) (name : String) : Option ValueId :=
  (b.labels.find? (fun p => p.1 = name)).map Prod.snd

def addNode (b : Bindings) (id : NodeId) : Bindings := { b with nodes := b.nodes ++ [id] }

/-- Bind a label, or check it against the value it is bound to. -/
def bind? (b : Bindings) (name : String) (v : ValueId) : Option Bindings :=
  match b.find? name with
  | some bound => if bound = v then some b else none
  | none => some { b with labels := b.labels ++ [(name, v)] }

end Bindings

/-- The outcome of one attempt. -/
inductive Attempt where
  | found (b : Bindings)
  | fails
  /-- The fuel ran out before there was an answer. -/
  | cut
  deriving DecidableEq

namespace Attempt

def ofOption : Option Bindings → Attempt
  | some b => found b
  | none => fails

def andThen (a : Attempt) (next : Bindings → Attempt) : Attempt :=
  match a with
  | found b => next b
  | a => a

/-- Try something else after a failure. -/
def orElse (a : Attempt) (next : Unit → Attempt) : Attempt :=
  match a with
  | fails => next ()
  | a => a

/-- Match patterns against values in turn, carrying the bindings along. -/
def all (step : PatternId → ValueId → Bindings → Attempt) :
    List PatternId → List ValueId → Bindings → Attempt
  | p :: ps, v :: vs, b => (step p v b).andThen (all step ps vs)
  | _, _, b => found b

/-- The first alternative that does not fail. -/
def first (step : PatternId → Bindings → Attempt) : List PatternId → Bindings → Attempt
  | [], _ => fails
  | p :: ps, b => (step p b).orElse (fun _ => first step ps b)

end Attempt

namespace Pattern

/-- The inputs fit in number. -/
def countFits (openEnded : Bool) (patterns inputs : Nat) : Bool :=
  if openEnded then patterns ≤ inputs else inputs = patterns

/-- Match the inputs of a node, in either order if the operation is commutative. -/
def matchInputs (g : Graph) (type : OpType) (step : PatternId → ValueId → Bindings → Attempt)
    (patterns : List PatternId) (inputs : List ValueId) (b : Bindings) : Attempt :=
  let declared := Attempt.all step patterns inputs b
  match patterns with
  | [p, q] =>
    if g.registry.isCommutative type then
      declared.orElse (fun _ => Attempt.all step [q, p] inputs b)
    else declared
  | _ => declared

/-- Match pattern node `id` against a value. -/
def attempt (p : Pattern) (g : Graph) : Nat → PatternId → ValueId → Bindings → Attempt
  | 0, _, _, _ => .cut
  | fuel + 1, id, v, b =>
    match p.node? id with
    | none => .fails
    | some .any => if (g.value? v).isSome then .found b else .fails
    | some (.op types patterns openEnded) =>
      match g.producerId? v with
      | none => .fails
      | some producer =>
        match g.node? producer with
        | none => .fails
        | some node =>
          if types.contains node.op.type
              && countFits openEnded patterns.length node.inputs.length then
            (matchInputs g node.op.type (attempt p g fuel) patterns node.inputs b).andThen
              (fun b => .found (b.addNode producer))
          else .fails
    | some (.label name inner) =>
      (attempt p g fuel inner v b).andThen (fun b => .ofOption (b.bind? name v))
    | some (.either alternatives) => Attempt.first (fun q b => attempt p g fuel q v b) alternatives b
    | some (.branch destination) =>
      match destination with
      | none => .fails
      | some q => attempt p g fuel q v b
    | some (.guard inner predicate) =>
      if predicate.holds g v then attempt p g fuel inner v b else .fails

/-- More than the length of any chain of attempts. -/
def matchBound (p : Pattern) (g : Graph) : Nat := (p.nodes.size + 1) * (g.nodeSlots + 1) + 1

end Pattern

structure Match where
  root : ValueId
  labels : List (String × ValueId)
  /-- The nodes that operation patterns stood for, each once, in the order of matching. -/
  nodes : List NodeId
  deriving DecidableEq

def Match.get? (m : Match) (name : String) : Option ValueId :=
  (m.labels.find? (fun p => p.1 = name)).map Prod.snd

namespace Pattern

def matchValue? (p : Pattern) (g : Graph) (v : ValueId) : Option Match :=
  match p.attempt g (p.matchBound g) p.root v .empty with
  | .found b => some ⟨v, b.labels, b.nodes.eraseDups⟩
  | _ => none

/-- The matches at all values of the graph, in order of creation of the values. -/
def findAll (p : Pattern) (g : Graph) : List Match := g.valueIds.filterMap (p.matchValue? g)

end Pattern
end TensorGraph
