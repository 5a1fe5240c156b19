import TensorGraph.Dimension
import TensorGraph.Text
/-!
# Options of a pass

The defaults can be changed by two settings, which are looked up by name:
- `OPGRAPH_MAX_REWRITE_ITERATIONS` is a number in decimal digits, perhaps after a plus sign,
  with white space around it; anything else, and a number that does not fit a size, counts
  as not set;
- `OPGRAPH_VERIFY_REWRITES` is on if it is one of a few words, spelled exactly.
-/
namespace TensorGraph

/-- When a sweep looks for matches. -/
inductive SweepMode where
  /-- Match each value when the sweep reaches it, and rewrite at once. -/
  | firstMatch
  /-- Match every value first, then rewrite one match after the other. -/
  | allMatches
  deriving DecidableEq

structure PassOptions where
  /-- Sweeps after which a pass gives up. -/
  maxIterations : Nat
  sweepMode : SweepMode
  verifyAfterRewrite : Bool
  deriving DecidableEq

/-- The number of sweeps that is allowed if nothing else is said. -/
def defaultMaxIterations : Nat := 100

namespace Setting

/-- A number in decimal digits, perhaps after a plus sign. -/
def number? (text : List Char) : Option Nat :=
  let digits := if text.head? = some '+' then text.drop 1 else text
  if digits.isEmpty || !digits.all Char.isDigit then none
  else
    let n := Nat.ofDigitChars 10 digits 0
    if n < sizeLimit then some n else none

/-- The words that turn a setting on. -/
def isOn (text : String) : Bool := ["1", "true", "t", "yes", "y"].contains text

end Setting

/-- The options that a table of settings asks for. -/
def PassOptions.ofSettings (setting? : String → Option String) : PassOptions where
  maxIterations :=
    ((setting? "OPGRAPH_MAX_REWRITE_ITERATIONS").bind
      (fun s => Setting.number? (Text.trim s.toList))).getD defaultMaxIterations
  sweepMode := .firstMatch
  verifyAfterRewrite := ((setting? "OPGRAPH_VERIFY_REWRITES").map Setting.isOn).getD false

def PassOptions.default : PassOptions := .ofSettings (fun _ => none)

def SweepMode.describe : SweepMode → String
  | firstMatch => "FirstMatch"
  | allMatches => "AllMatches"

def PassOptions.describe (o : PassOptions) : String :=
  "PassOptions \x7b max_iterations: " ++ toString o.maxIterations
    ++ ", sweep_mode: " ++ o.sweepMode.describe
    ++ ", verify_after_rewrite: " ++ (if o.verifyAfterRewrite then "true" else "false") ++ " \x7d"

end TensorGraph
