import TensorGraph.Graph.Construction
import TensorGraph.Pattern.Match
/-!
# Rule — what to look for and what to put in its place

A rule pairs a pattern with a construction that is told about the match and answers with
the value that is to replace the root.  It may decline, which is no failure, or be unable
to build the replacement.

The driver has reasons of its own to leave a match alone; they are listed in `Rejection`.
-/
namespace TensorGraph

/-- Why a rule has no replacement for a match. -/
inductive RewriteError where
  /-- The rule does not apply here. -/
  | declined
  /-- Building the replacement failed. -/
  | invalid (cause : ValidationError)
  deriving DecidableEq

structure Rule where
  name : String
  pattern : Pattern
  replacement : Match → Attempted RewriteError ValueId

/-- Why a match was not replaced although the rule did not decline it. -/
inductive Rejection where
  /-- The pattern does not match any more. -/
  | staleMatch
  | invalidReplacement (cause : ValidationError)
  /-- The two types cannot describe one tensor. -/
  | incompatibleReplacement (expected actual : TensorType)
  /-- The types fit, but the replacement says less than the root did. -/
  | lessSpecificReplacement (expected actual : TensorType)
  /-- A reader of the root refuses the replacement. -/
  | consumerRejected (cause : ValidationError)
  /-- The replacement depends on a reader of the root. -/
  | wouldCreateCycle
  deriving DecidableEq

def Rejection.message : Rejection → String
  | staleMatch => "match is stale"
  | invalidReplacement cause => "failed to build replacement: " ++ cause.message
  | incompatibleReplacement expected actual =>
    "replacement type " ++ actual.text ++ " is incompatible with " ++ expected.text
  | lessSpecificReplacement expected actual =>
    "replacement type " ++ actual.text ++ " is less specific than " ++ expected.text
  | consumerRejected cause => "consumer rejected replacement: " ++ cause.message
  | wouldCreateCycle => "replacement depends on a consumer of the matched value"

namespace Construction

/-- Let a step of a rule fail as a failure to build the replacement. -/
def orInvalid {α : Type} (step : Attempted ValidationError α) : Attempted RewriteError α :=
  ExceptT.mk (do
    let r ← step.run
    return r.mapError RewriteError.invalid)

end Construction
end TensorGraph
