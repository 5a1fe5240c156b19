import TensorGraph.Graph.Propagate
import TensorGraph.Graph.Redirect
import TensorGraph.Graph.Remove
import TensorGraph.Rewrite.Rule
/-!
# Applying a rule at a value

To apply a rule means to match its pattern once more, build the replacement, check it, point
the readers of the root at it and bring the types downstream up to date.  Either all of that
happens, or the nodes that the rule added are taken out again and the graph is as it was,
apart from the identifiers that were used up.

Nodes added by the rule may read the root, for instance if the replacement wraps it; these
uses stay where they are.

A replacement passes if its type says at least as much as that of the root, if it does not
depend on a reader of the root, and if no node downstream refuses it.
-/
namespace TensorGraph

inductive Outcome where
  | applied (replacement : ValueId)
  | declined
  | rejected (reason : Rejection)
  deriving DecidableEq

namespace Graph

/-- The nodes whose identifiers are not below `mark`. -/
def nodesFrom (g : Graph) (mark : Nat) : List NodeId :=
  ((List.range' mark (g.nodeSlots - mark)).map NodeId.mk).filter (fun id => (g.node? id).isSome)

/-- Take nodes out again, the latest first, since it may read earlier ones. -/
def discard (g : Graph) (created : List NodeId) : Graph :=
  created.reverse.foldl remove g

/-- The nodes that read a value, except those in `created`. -/
def readersOutside (g : Graph) (id : ValueId) (created : List NodeId) : List NodeId :=
  ((g.usesOf id).map Use.node).filter (fun n => !created.contains n)

/-- Why a value cannot replace the root, judged by the types and the edges alone. -/
def replacementFault? (g : Graph) (root : Value) (rootId new : ValueId) (created : List NodeId) :
    Option Rejection :=
  match g.type? new with
  | none => some (.invalidReplacement (.invalidValue new))
  | some type =>
    if !type.compatible root.type then some (.incompatibleReplacement root.type type)
    else if !root.type.relaxes type then some (.lessSpecificReplacement root.type type)
    else if g.dependsOnAny new (g.readersOutside rootId created) then some .wouldCreateCycle
    else none

/-- Point the readers of the root at the replacement, bring types up to date and remove what
is dead.  If a reader refuses the replacement everything is moved back. -/
def splice (g : Graph) (root : Value) (rootId new : ValueId) (created : List NodeId) : Outcome × Graph :=
  let (record, moved) := g.redirect rootId new created
  match moved.propagate (record.uses.map Use.node) with
  | .error cause => (.rejected (.consumerRejected cause), (moved.undoRedirect record).discard created)
  | .ok updated => (.applied new, (updated.removeDead (root.producer :: created)).1)

end Graph

namespace Rule

/-- Apply the rule at a value that its pattern matched earlier. -/
def applyAt (rule : Rule) (g : Graph) (rootId : ValueId) : Outcome × Graph :=
  match rule.pattern.matchValue? g rootId, g.value? rootId with
  | some m, some root =>
    let (answer, grown) := (rule.replacement m).run.run g
    let created := grown.nodesFrom g.nodeSlots
    match answer with
    | .error .declined => (.declined, grown.discard created)
    | .error (.invalid cause) => (.rejected (.invalidReplacement cause), grown.discard created)
    | .ok new =>
      if new = rootId then (.declined, grown.discard created)
      else match grown.replacementFault? root rootId new created with
        | some reason => (.rejected reason, grown.discard created)
        | none => grown.splice root rootId new created
  | _, _ => (.rejected .staleMatch, g)

end Rule
end TensorGraph
