import TensorGraph.Op.Expansion
import TensorGraph.Rewrite.Rule
/-!
# The built-in rules

- `multiplyAddFusion` makes one `fusedMultiplyAdd` of an addition and a multiplication.  The
  product must have no other reader, or it would be computed twice.
- `decomposeComposites` puts the expansion of a composite operation in its place.
- `identityElimination` drops operations that give back their input: a conversion to the
  element type that the input has, a transposition by the identity order, and a reshape of
  a static shape to itself.

Each rule is its pattern and its replacement; the pattern is built from a sketch, so it may
fail to build, and a rule with it.
-/
namespace TensorGraph
namespace Rule

def ofSketch (name : String) (sketch : Sketch PatternId)
    (replacement : Match → Attempted RewriteError ValueId) : Except PatternError Rule := do
  let pattern ← sketch.build
  return ⟨name, pattern, replacement⟩

/-- The value bound to a label; declines if there is none. -/
def labelled (m : Match) (name : String) : Attempted RewriteError ValueId :=
  match m.get? name with
  | some v => pure v
  | none => throw .declined

def currentGraph : Attempted RewriteError Graph := ExceptT.lift Construction.graph

/-! ## Multiply and add -/

/-- The pattern `add (multiply a b) c`, where the product has one reader. -/
def multiplyAddSketch : Sketch PatternId := do
  let a ← Sketch.label "a" (← Sketch.any)
  let b ← Sketch.label "b" (← Sketch.any)
  let product ← Sketch.op (.binary .multiply) [a, b]
  let product ← Sketch.guard product Predicate.singleUse
  let c ← Sketch.label "c" (← Sketch.any)
  Sketch.op (.binary .add) [product, c]

/-- The fused node takes the name of the addition. -/
def fuseMultiplyAdd (m : Match) : Attempted RewriteError ValueId := do
  let a ← labelled m "a"
  let b ← labelled m "b"
  let c ← labelled m "c"
  let g ← currentGraph
  let name := (g.producer? m.root).bind Node.name
  Construction.orInvalid (Construction.addValue name .fusedMultiplyAdd [a, b, c])

def multiplyAddFusion : Except PatternError Rule :=
  ofSketch "MultiplyAddFusion" multiplyAddSketch fuseMultiplyAdd

/-! ## Composite operations -/

def compositeSketch : Sketch PatternId := do
  let x ← Sketch.any
  let y ← Sketch.any
  let z ← Sketch.any
  Sketch.opOf [.hardSigmoid, .fusedMultiplyAdd] [x, y, z]

def decompose (m : Match) : Attempted RewriteError ValueId := do
  let g ← currentGraph
  match g.producer? m.root with
  | none => throw .declined
  | some node =>
    match node.op.expansion? with
    | none => throw .declined
    | some expand => Construction.orInvalid (expand node.inputs)

def decomposeComposites : Except PatternError Rule :=
  ofSketch "DecomposeComposites" compositeSketch decompose

/-! ## Identities -/

def identitySketch : Sketch PatternId := do
  let input ← Sketch.label "input" (← Sketch.any)
  Sketch.opOf [.convert, .transpose, .reshape] [input]

/-- The operation gives back an input of type `input` as its output of type `output`. -/
def isIdentity (op : Op) (input output : TensorType) : Bool :=
  match op with
  | .convert target => target = input.element
  | .transpose order => (input.rank?.map (Infer.isIdentityOrder order)).getD false
  | .reshape _ _ => input.shape.isStatic && output.shape = input.shape
  | _ => false

def skipIdentity (m : Match) : Attempted RewriteError ValueId := do
  let input ← labelled m "input"
  let g ← currentGraph
  match g.producer? m.root, g.type? input, g.type? m.root with
  | some node, some inputType, some outputType =>
    if isIdentity node.op inputType outputType then return input else throw .declined
  | _, _, _ => throw .declined

def identityElimination : Except PatternError Rule :=
  ofSketch "IdentityElimination" identitySketch skipIdentity

end Rule
end TensorGraph
