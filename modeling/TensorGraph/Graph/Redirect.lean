import TensorGraph.Graph.Basic
/-!
# Moving uses from one value to another

`redirect` points the readers of a value, and the results that name it, at another value.
Readers that are to keep the old value are left out.  The record it answers with is enough
to move everything back.
-/
namespace TensorGraph

/-- What a redirection moved: uses in their stored order, and positions among the results. -/
structure Redirect where
  source : ValueId
  target : ValueId
  uses : List Use
  results : List Nat

namespace Graph

def setInput (g : Graph) (value : ValueId) (u : Use) : Graph :=
  g.modifyNode u.node (fun n => { n with inputs := n.inputs.set u.input value })

/-- Move uses from one value to the end of the list of another. -/
def moveUses (g : Graph) (source target : ValueId) (uses : List Use) : Graph :=
  let g := uses.foldl (fun g u => g.setInput target u) g
  let g := g.modifyValue source (fun v => { v with uses := v.uses.filter (fun u => !uses.contains u) })
  g.modifyValue target (fun v => { v with uses := v.uses ++ uses })

/-- Let some positions among the results name `value`. -/
def moveResults (g : Graph) (value : ValueId) (positions : List Nat) : Graph :=
  { g with results := positions.foldl (fun rs i => rs.set i value) g.results }

/-- Point every use of `source` at `target`, except those by nodes in `keep`. -/
def redirect (g : Graph) (source target : ValueId) (keep : List NodeId) : Redirect × Graph :=
  let uses := (g.usesOf source).filter (fun u => !keep.contains u.node)
  let positions := g.results.zipIdx.filterMap (fun (id, i) => if id = source then some i else none)
  (⟨source, target, uses, positions⟩, (g.moveUses source target uses).moveResults target positions)

def undoRedirect (g : Graph) (r : Redirect) : Graph :=
  (g.moveUses r.target r.source r.uses).moveResults r.source r.results

end Graph
end TensorGraph
