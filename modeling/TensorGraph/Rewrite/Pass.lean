import TensorGraph.Graph.Verify
import TensorGraph.Rewrite.Apply
import TensorGraph.Rewrite.Options
/-!
# Pass — rules applied until none applies

A pass sweeps over the values of a graph, in order of creation, and applies the first of its
rules that matches.  Values that a sweep creates wait for the next one.  The pass converges
when a sweep applies nothing; it gives up after a number of sweeps.

A rejected match does not stop a pass.  The report lists it once per rule and root, however
many sweeps it is rejected in.
-/
namespace TensorGraph

structure Pass where
  name : String
  rules : List Rule
  options : PassOptions

/-- One line with the name of the pass, the names of its rules in order, and its options. -/
def Pass.describe (p : Pass) : String :=
  "RewritePass \x7b name: " ++ Text.quote p.name
    ++ ", rules: " ++ Text.bracketed (fun rule => Text.quote rule.name) p.rules
    ++ ", options: " ++ p.options.describe ++ " \x7d"

inductive PassStatus where
  /-- The last sweep applied nothing. -/
  | converged
  /-- Every sweep that was allowed applied something. -/
  | iterationCapExceeded
  /-- The graph was not in order after a rewrite, and the pass stopped there. -/
  | verificationFailed (rule : String) (error : GraphError)
  deriving DecidableEq

/-- A match that the driver left alone. -/
structure RejectionEntry where
  rule : String
  root : ValueId
  reason : Rejection
  deriving DecidableEq

structure Report where
  applied : Nat
  iterations : Nat
  rejected : List RejectionEntry
  status : PassStatus
  deriving DecidableEq

inductive PassError where
  | iterationCapExceeded (iterations : Nat)
  | verificationFailed (rule : String) (error : GraphError)
  deriving DecidableEq

def PassError.message : PassError → String
  | iterationCapExceeded n => "rewrites did not converge within " ++ toString n ++ " iterations"
  | verificationFailed rule error =>
    "graph is invalid after rewrite by " ++ rule ++ ": " ++ error.message

def Report.converged (r : Report) : Bool := r.status = .converged

/-- What kept the pass from converging. -/
def Report.error? (r : Report) : Option PassError :=
  match r.status with
  | .converged => none
  | .iterationCapExceeded => some (.iterationCapExceeded r.iterations)
  | .verificationFailed rule error => some (.verificationFailed rule error)

structure PassRun where
  graph : Graph
  applied : Nat
  rejected : List RejectionEntry
  /-- A check that failed; nothing is done after it. -/
  failure : Option (String × GraphError)

namespace PassRun

def start (g : Graph) : PassRun := ⟨g, 0, [], none⟩

/-- Record a rejection, unless this rule was rejected at this root before. -/
def reject (s : PassRun) (entry : RejectionEntry) : PassRun :=
  if s.rejected.any (fun e => e.rule = entry.rule && e.root = entry.root) then s
  else { s with rejected := s.rejected ++ [entry] }

def applyRule (verify : Bool) (s : PassRun) (rule : Rule) (root : ValueId) : PassRun :=
  match rule.applyAt s.graph root with
  | (.applied _, g) =>
    { s with
      graph := g
      applied := s.applied + 1
      failure := if verify then
          match g.verify with
          | .ok _ => none
          | .error e => some (rule.name, e)
        else none }
  | (.declined, g) => { s with graph := g }
  | (.rejected reason, g) => { s with graph := g }.reject ⟨rule.name, root, reason⟩

/-- Go through a list unless a check has failed. -/
def forEach {α : Type} (step : PassRun → α → PassRun) : List α → PassRun → PassRun
  | [], s => s
  | a :: rest, s => if s.failure.isSome then s else forEach step rest (step s a)

end PassRun

namespace Pass

def ruleAt? (pass : Pass) (g : Graph) (v : ValueId) : Option Rule :=
  pass.rules.find? (fun rule => (rule.pattern.matchValue? g v).isSome)

/-- Rewrite at one value, if it is there and a rule matches. -/
def visit (pass : Pass) (s : PassRun) (v : ValueId) : PassRun :=
  if (s.graph.value? v).isNone then s
  else match pass.ruleAt? s.graph v with
    | none => s
    | some rule => s.applyRule pass.options.verifyAfterRewrite rule v

/-- Every value that a rule matches, with the first such rule. -/
def matchesOf (pass : Pass) (g : Graph) : List (Rule × ValueId) :=
  g.valueIds.filterMap (fun v => (pass.ruleAt? g v).map (fun rule => (rule, v)))

def sweep (pass : Pass) (s : PassRun) : PassRun :=
  match pass.options.sweepMode with
  | .firstMatch => PassRun.forEach pass.visit ((List.range s.graph.valueSlots).map ValueId.mk) s
  | .allMatches =>
    PassRun.forEach (fun s (rule, v) => s.applyRule pass.options.verifyAfterRewrite rule v)
      (pass.matchesOf s.graph) s

/-- Sweep at most `left` times more. -/
def sweepUntilStable (pass : Pass) : Nat → Nat → PassRun → PassRun × Nat × PassStatus
  | 0, made, s => (s, made, .iterationCapExceeded)
  | left + 1, made, s =>
    let after := pass.sweep s
    match after.failure with
    | some (rule, error) => (after, made + 1, .verificationFailed rule error)
    | none =>
      if after.applied = s.applied then (after, made + 1, .converged)
      else sweepUntilStable pass left (made + 1) after

def run (pass : Pass) (g : Graph) : Report × Graph :=
  let (s, iterations, status) := pass.sweepUntilStable pass.options.maxIterations 0 (PassRun.start g)
  (⟨s.applied, iterations, s.rejected, status⟩, s.graph)

/-- Run the pass on graphs that have nothing to do with each other. -/
def runAll (pass : Pass) (graphs : List Graph) : List (Report × Graph) := graphs.map pass.run

end Pass
end TensorGraph
