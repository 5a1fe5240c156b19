import TensorGraph.Graph.Insert
/-!
# Construction — programs that only add nodes

A construction may look at the whole graph and add nodes to it; there is no step with which
it could do anything else.  Rewrite rules and the expansions of composite operations are
constructions, so whatever one of them does, the graph before it is still there, with some
nodes more and some uses more.

`run` carries a construction out.  Nodes added before a failure stay; whoever runs the
construction decides what becomes of them.
-/
namespace TensorGraph

inductive Construction (α : Type) : Type where
  | done (a : α)
  | look (next : Graph → Construction α)
  /-- Add a node; the answer names it and its first output. -/
  | add (name : Option String) (op : Op) (inputs : List ValueId)
      (next : Except ValidationError (NodeId × ValueId) → Construction α)

namespace Construction

def bind {α β : Type} : Construction α → (α → Construction β) → Construction β
  | done a, f => f a
  | look next, f => look (fun g => bind (next g) f)
  | add name op inputs next, f => add name op inputs (fun r => bind (next r) f)

instance : Monad Construction where
  pure := done
  bind := bind

def run {α : Type} : Construction α → Graph → α × Graph
  | done a, g => (a, g)
  | look next, g => run (next g) g
  | add name op inputs next, g =>
    match g.insert name op inputs with
    | .error e => run (next (.error e)) g
    | .ok (node, value, g) => run (next (.ok (node, value))) g

theorem run_bind {α β : Type} (c : Construction α) (f : α → Construction β) (g : Graph) :
    run (c.bind f) g = run (f (run c g).1) (run c g).2 := by
  induction c generalizing g with
  | done a => rfl
  | look next ih => simp only [bind, run]; exact ih g g
  | add name op inputs next ih =>
    simp only [bind, run]
    cases g.insert name op inputs with
    | error e => exact ih _ g
    | ok r => exact ih _ r.2.2

def graph : Construction Graph := look done

def addNode (name : Option String) (op : Op) (inputs : List ValueId) :
    Construction (Except ValidationError (NodeId × ValueId)) :=
  add name op inputs done

end Construction

/-- A construction that may fail for a reason of type `ε`. -/
abbrev Attempted (ε α : Type) := ExceptT ε Construction α

/-- Add a node and go on with its first output. -/
def Construction.addValue (name : Option String) (op : Op) (inputs : List ValueId) :
    Attempted ValidationError ValueId :=
  ExceptT.mk (do
    let r ← addNode name op inputs
    return r.map Prod.snd)

end TensorGraph
