/-!
# Digraph — directed graphs on numbers

The nodes are the numbers below `size`.  `table` lists for each node where its edges lead,
in a fixed order.  An edge may lead past the nodes; nothing starts there.

The dependencies between the nodes of a graph are such edges, and so are the references
between the nodes of a pattern.  Walks over both are written once, for this type:
- `reach` visits the roots and whatever edges lead to from there, each node once.  It also
  keeps the order of the visits: the last root and the last edge of a node come first.
- `walkAll` enters each root that was not visited before, and finishes a node after the nodes
  its edges lead to.  So the order in which nodes are finished lists every node after those,
  unless there is a cycle.  A node that is met again while it is entered and not finished lies
  on a cycle; the first one met is kept, and the walk goes on.

Both keep their own stack, so graphs of any depth are walked in constant space.
-/
namespace TensorGraph

structure Digraph where
  table : Array (List Nat)

namespace Digraph

def size (d : Digraph) : Nat := d.table.size

/-- Where the edges of a node lead. -/
def next (d : Digraph) (i : Nat) : List Nat := d.table.getD i []

/-- The number of nodes and edges together; no walk takes more steps. -/
def steps (d : Digraph) : Nat := d.table.foldl (fun n js => n + 1 + js.length) 0

end Digraph

/-! ## What can be reached -/

/-- The nodes visited so far, as a table and in order. -/
structure Reach where
  seen : Array Bool
  visited : Array Nat

namespace Reach

/-- No node of `size` was visited. -/
def start (size : Nat) : Reach := ⟨Array.replicate size false, #[]⟩

def contains (r : Reach) (i : Nat) : Bool := r.seen.getD i false

def visit (r : Reach) (i : Nat) : Reach := ⟨r.seen.setIfInBounds i true, r.visited.push i⟩

end Reach

namespace Digraph

/-- Visit the nodes on the stack and whatever edges lead to from there. -/
def reachFrom (d : Digraph) : Nat → List Nat → Reach → Reach
  | 0, _, r => r
  | _, [], r => r
  | fuel + 1, i :: stack, r =>
    if r.contains i then reachFrom d fuel stack r
    else reachFrom d fuel ((d.next i).reverse ++ stack) (r.visit i)

/-- Visit the roots and whatever edges lead to from there. -/
def reach (d : Digraph) (roots : List Nat) : Reach :=
  d.reachFrom (d.steps + roots.length) roots.reverse (.start d.size)

end Digraph

/-! ## Depth-first walks -/

/-- How far the walk has come with a node. -/
inductive Mark where
  | unvisited
  /-- The node is on the stack. -/
  | entered
  | finished
  deriving DecidableEq

/-- The state of a walk: the marks, the finished nodes in order, and the first node that
was found on a cycle. -/
structure Walk where
  marks : Array Mark
  order : Array Nat
  cycle : Option Nat

namespace Walk

/-- No node of `size` was visited. -/
def start (size : Nat) : Walk := ⟨Array.replicate size .unvisited, #[], none⟩

/-- How far the walk has come with `i`; there is nothing to do about a number past the
nodes. -/
def mark (w : Walk) (i : Nat) : Mark := w.marks.getD i .finished

def setMark (w : Walk) (i : Nat) (m : Mark) : Walk := { w with marks := w.marks.setIfInBounds i m }

def enter (w : Walk) (i : Nat) : Walk := w.setMark i .entered

def finish (w : Walk) (i : Nat) : Walk :=
  let w := w.setMark i .finished
  { w with order := w.order.push i }

def reportCycle (w : Walk) (i : Nat) : Walk := { w with cycle := w.cycle.or (some i) }

end Walk

namespace Digraph

/-- Empty the stack: each entry is a node that was entered and the edges that were not followed yet. -/
def walk (d : Digraph) : Nat → List (Nat × List Nat) → Walk → Walk
  | 0, _, w => w
  | _, [], w => w
  | fuel + 1, (i, []) :: stack, w => walk d fuel stack (w.finish i)
  | fuel + 1, (i, j :: rest) :: stack, w =>
    match w.mark j with
    | .unvisited => walk d fuel ((j, d.next j) :: (i, rest) :: stack) (w.enter j)
    | .entered => walk d fuel ((i, rest) :: stack) (w.reportCycle j)
    | .finished => walk d fuel ((i, rest) :: stack) w

/-- Walk from a root, unless it was visited before. -/
def walkFrom (d : Digraph) (bound : Nat) (w : Walk) (root : Nat) : Walk :=
  if w.mark root = .unvisited then d.walk bound [(root, d.next root)] (w.enter root) else w

def walkAll (d : Digraph) (roots : List Nat) : Walk :=
  roots.foldl (d.walkFrom d.steps) (.start d.size)

end Digraph

end TensorGraph
