import TensorGraph.Proofs.Pattern.Built
import TensorGraph.Proofs.Pattern.Found
import TensorGraph.Proofs.Rewrite.Laws
import TensorGraph.Proofs.Rewrite.Meaning
/-!
# The built-in rules keep the meaning

A match of a built-in rule is read as a fact about the graph: which node produced the root, and
which values are bound to the labels.  Then the laws say that what the rule answers with denotes
the tensor that the root denotes.
-/
namespace TensorGraph

open TensorGraph.Graph

/-! ## Matches -/

namespace Rule

variable {rule : Rule} {g : Graph} {root : ValueId} {m : Match}

theorem ofSketch_eq_ok {name : String} {sketch : Sketch PatternId} {replacement : Match → Attempted RewriteError ValueId}
    (h : ofSketch name sketch replacement = .ok rule) :
    rule = ⟨name, ⟨(sketch.run .empty).2.nodes, (sketch.run .empty).1⟩, replacement⟩ := by
  obtain ⟨p, hp, h⟩ := bind_eq_ok.1 h
  rw [(PatternBuilder.build_eq_ok.1 hp).1] at h
  exact (Except.ok.inj h).symm

theorem ofSketch_of_build {name : String} {sketch : Sketch PatternId}
    {replacement : Match → Attempted RewriteError ValueId} {p : Pattern} (h : sketch.build = .ok p) :
    ofSketch name sketch replacement = .ok ⟨name, p, replacement⟩ := by
  unfold ofSketch
  rw [h]
  rfl

theorem op_of_type_binary {op : Op} {operator : BinaryOp} (h : op.type = .binary operator) :
    ∃ b, op = .binary operator b := by
  cases op with
  | binary operator' b =>
    obtain rfl : operator' = operator := OpType.binary.inj h
    exact ⟨b, rfl⟩
  | _ => cases h

def multiplyAddPattern : Pattern := ⟨(multiplyAddSketch.run .empty).2.nodes, (multiplyAddSketch.run .empty).1⟩

theorem product_of_found (hg : g.WellFormed) {fuel : Nat} {v : ValueId} {b b' : Bindings} (ha : b.find? "a" = none)
    (hb : b.find? "b" = none) (h : multiplyAddPattern.attempt g fuel ⟨5⟩ v b = .found b') :
    ∃ product broadcast x y, g.producer? v = some product ∧ product.op = .binary .multiply broadcast ∧
      product.inputs = [x, y] ∧ b'.labels = b.labels ++ [("a", x), ("b", y)] ∧ Predicate.singleUse.holds g v = true := by
  have hguard : multiplyAddPattern.node? ⟨5⟩ = some (.guard ⟨4⟩ Predicate.singleUse) := rfl
  obtain ⟨hsingle, fuel', -, h⟩ := Pattern.attempt_guard hguard h
  obtain ⟨product, x, y, hproducer, htype, hin, hlabels⟩ := Pattern.attempt_op_two hg (q := ⟨1⟩) (r := ⟨3⟩) rfl
    ⟨⟨0⟩, rfl, rfl⟩ ⟨⟨2⟩, rfl, rfl⟩ (by decide) ha hb h
  obtain ⟨broadcast, hop⟩ := op_of_type_binary (List.mem_singleton.1 htype)
  exact ⟨product, broadcast, x, y, hproducer, hop, hin, hlabels, hsingle⟩

/-- **A match of the fusion**: a sum, one of whose operands is a product that has no other reader. -/
theorem sum_of_match (hg : g.WellFormed) (hm : multiplyAddPattern.matchValue? g root = some m) :
    ∃ sum product broadcast broadcast' v x y z, g.producer? root = some sum ∧ sum.op = .binary .add broadcast ∧
      (sum.inputs = [v, z] ∨ sum.inputs = [z, v]) ∧ g.producer? v = some product ∧
      product.op = .binary .multiply broadcast' ∧ product.inputs = [x, y] ∧
      m.get? "a" = some x ∧ m.get? "b" = some y ∧ m.get? "c" = some z ∧ Predicate.singleUse.holds g v = true := by
  obtain ⟨b, h, rfl⟩ := Pattern.matchValue?_eq_some hm
  obtain ⟨fuel, -, producer, sum, b₁, hproducer, hsum, htype, hcount, hinputs, rfl⟩ := Pattern.attempt_op rfl h
  have hroot : g.producer? root = some sum := by rw [producer?, hproducer, Option.bind_some, hsum]
  obtain ⟨broadcast, hop⟩ := op_of_type_binary (List.mem_singleton.1 htype)
  obtain ⟨v, w, hin⟩ := List.length_eq_two.1 (Pattern.length_of_countFits hcount)
  have hnames : multiplyAddPattern.Names ⟨7⟩ "c" := ⟨⟨6⟩, rfl, rfl⟩
  rw [hin] at hinputs
  rcases Pattern.matchInputs_pair hinputs with ⟨b₂, hfirst, hsecond⟩ | ⟨b₂, hfirst, hsecond⟩
  · obtain ⟨product, broadcast', x, y, hv, hop', hin', hlabels, hsingle⟩ := product_of_found hg rfl rfl hfirst
    obtain ⟨-, hbind⟩ := hnames.of_found hsecond
    rw [Bindings.bind?_of_find?_eq_none (by rw [Bindings.find?, hlabels]; rfl)] at hbind
    obtain rfl := Option.some.inj hbind
    refine ⟨sum, product, broadcast, broadcast', v, x, y, w, hroot, hop, Or.inl hin, hv, hop', hin', ?_⟩
    simp only [Match.get?, Bindings.addNode, hlabels]
    exact ⟨rfl, rfl, rfl, hsingle⟩
  · obtain ⟨-, hbind⟩ := hnames.of_found hfirst
    rw [Bindings.bind?_of_find?_eq_none rfl] at hbind
    obtain rfl := Option.some.inj hbind
    obtain ⟨product, broadcast', x, y, hw, hop', hin', hlabels, hsingle⟩ := product_of_found hg rfl rfl hsecond
    refine ⟨sum, product, broadcast, broadcast', w, x, y, v, hroot, hop, Or.inr hin, hw, hop', hin', ?_⟩
    simp only [Match.get?, Bindings.addNode, hlabels]
    exact ⟨rfl, rfl, rfl, hsingle⟩

def identityPattern : Pattern := ⟨(identitySketch.run .empty).2.nodes, (identitySketch.run .empty).1⟩

/-- **A match of the elimination**: an operation on one input, which is bound. -/
theorem input_of_match (hm : identityPattern.matchValue? g root = some m) :
    ∃ n x, g.producer? root = some n ∧ n.inputs = [x] ∧ m.get? "input" = some x := by
  obtain ⟨b, h, rfl⟩ := Pattern.matchValue?_eq_some hm
  obtain ⟨n, x, hn, -, hin, hlabels⟩ := Pattern.attempt_op_one (q := ⟨1⟩) rfl ⟨⟨0⟩, rfl, rfl⟩ rfl h
  refine ⟨n, x, hn, hin, ?_⟩
  simp only [Match.get?, hlabels]
  rfl

end Rule

/-! ## Denotations -/

namespace Interpretation

variable {D : Type} {I : Interpretation D} {typeOf : D → TensorType} {g grown : Graph} {root new : ValueId} {m : Match}

section

variable (hI : I.Typed typeOf) (hlaws : I.Laws typeOf)

include hI hlaws

theorem denote_fuse (hg : g.WellFormed) (hm : Rule.multiplyAddPattern.matchValue? g root = some m)
    (hrun : (Rule.fuseMultiplyAdd m).run.run g = (.ok new, grown)) {d : D} (hd : I.denote g root = some d) :
    I.denote grown new = some d := by
  obtain ⟨sum, product, b, b', v, x, y, z, hroot, hsum, hin, hv, hproduct, hin', hx, hy, hz, -⟩ :=
    Rule.sum_of_match hg hm
  obtain ⟨p, c, hp, hc, hadd⟩ : ∃ p c, I.denote g v = some p ∧ I.denote g z = some c ∧
      I.apply (.binary .add b) [p, c] = [d] := by
    obtain ⟨ds, hds, happly⟩ := hI.apply_of_denote hg hroot (by simp [hsum, Op.type]) (by simp [hsum, Op.type]) hd
    rw [hsum] at happly
    rcases hin with hin | hin
    · obtain ⟨p, c, rfl, hp, hc⟩ := denoted_pair (hin ▸ hds)
      exact ⟨p, c, hp, hc, happly⟩
    · obtain ⟨c, p, rfl, hc, hp⟩ := denoted_pair (hin ▸ hds)
      exact ⟨p, c, hp, hc, (hlaws.add_comm b p c).trans happly⟩
  obtain ⟨ds, hds, happly⟩ := hI.apply_of_denote hg hv (by simp [hproduct, Op.type]) (by simp [hproduct, Op.type]) hp
  rw [hproduct] at happly
  obtain ⟨e, f, rfl, he, hf⟩ := denoted_pair (hin' ▸ hds)
  have hfused := fused_of_sum hI hlaws happly hadd
  obtain ⟨name, hadded⟩ := Rule.run_fuseMultiplyAdd hx hy hz hrun
  refine (denote_addValue hg hadded (by simp [Op.type]) ?_ hfused).2.2
  rw [List.map_cons, List.map_cons, List.map_cons, he, hf, hc]
  rfl

omit hI hlaws in
theorem denote_elementwise (hg : g.WellFormed) {op : BinaryOp} {x y v : ValueId} {h : Graph}
    (hrun : (Expansion.elementwise op x y).run.run g = (.ok v, h)) {a b d : D} (ha : I.denote g x = some a)
    (hb : I.denote g y = some b) (hd : I.apply (.binary op .numpy) [a, b] = [d]) :
    h.WellFormed ∧ (∀ w e, I.denote g w = some e → I.denote h w = some e) ∧ I.denote h v = some d := by
  refine denote_addValue hg hrun (by simp [Op.type]) ?_ hd
  rw [List.map_cons, List.map_cons, ha, hb]
  rfl

theorem denote_fusedMultiplyAddOf (hg : g.WellFormed) {x y z : ValueId}
    (hrun : (Expansion.fusedMultiplyAddOf x y z).run.run g = (.ok new, grown)) {a b c d : D}
    (ha : I.denote g x = some a) (hb : I.denote g y = some b) (hc : I.denote g z = some c)
    (hd : I.apply .fusedMultiplyAdd [a, b, c] = [d]) : I.denote grown new = some d := by
  obtain ⟨p, hproduct, hsum⟩ := sum_of_fused hI hlaws hd
  obtain ⟨product, h, hrun₁, hrun⟩ := Construction.run_bind_eq_ok.1 hrun
  obtain ⟨hh, hkept, hp⟩ := denote_elementwise hg hrun₁ ha hb hproduct
  exact (denote_elementwise hh hrun hp (hkept z c hc) hsum).2.2

theorem denote_hardSigmoidOf (hg : g.WellFormed) (hconf : I.Conforms typeOf g) {x alpha beta : ValueId}
    (hrun : (Expansion.hardSigmoidOf x alpha beta).run.run g = (.ok new, grown)) {a b c d : D}
    (ha : I.denote g x = some a) (hb : I.denote g alpha = some b) (hc : I.denote g beta = some c)
    (hd : I.apply .hardSigmoid [a, b, c] = [d]) : I.denote grown new = some d := by
  obtain ⟨t, zeros, ones, zero, one, scaled, shifted, lower, g₁, g₂, g₃, g₄, g₅, ht, hzeros, hones, hrun₁, hrun₂, hrun₃,
    hrun₄, hrun₅, hrun₆⟩ := Expansion.run_hardSigmoidOf hrun
  have helement : (typeOf a).element = t.element := by
    obtain ⟨a', ha', hrel⟩ := hconf x t ht
    obtain rfl := Option.some.inj (ha.symm.trans ha')
    have hsame := ElementType.relaxes_iff.1 (TensorType.element_relaxes hrel)
    exact (hsame.resolve_left (ConstantData.ne_dynamic_of_splat? hzeros)).symm
  rw [← helement] at hzeros hones
  obtain ⟨p, q, r, z, o, hp, hq, hz, hr, ho, hs⟩ := clamped_of_hardSigmoid hI hlaws hd hzeros hones
  obtain ⟨hg₁, hkept₁, hzero⟩ := denote_addConstant hg hrun₁ hz
  obtain ⟨hg₂, hkept₂, hone⟩ := denote_addConstant hg₁ hrun₂ ho
  have hkept : ∀ w e, I.denote g w = some e → I.denote g₂ w = some e := fun w e he => hkept₂ w e (hkept₁ w e he)
  obtain ⟨hg₃, hkept₃, hscaled⟩ := denote_elementwise hg₂ hrun₃ (hkept _ _ hb) (hkept _ _ ha) hp
  obtain ⟨hg₄, hkept₄, hshifted⟩ := denote_elementwise hg₃ hrun₄ hscaled (hkept₃ _ _ (hkept _ _ hc)) hq
  have hzero₄ := hkept₄ _ _ (hkept₃ _ _ (hkept₂ _ _ hzero))
  obtain ⟨hg₅, hkept₅, hlower⟩ := denote_elementwise hg₄ hrun₅ hshifted hzero₄ hr
  have hone₅ := hkept₅ _ _ (hkept₄ _ _ (hkept₃ _ _ hone))
  exact (denote_elementwise hg₅ hrun₆ hlower hone₅ hs).2.2

theorem denote_decompose (hg : g.WellFormed) (hconf : I.Conforms typeOf g) (hroot : m.root = root)
    (hrun : (Rule.decompose m).run.run g = (.ok new, grown)) {d : D} (hd : I.denote g root = some d) :
    I.denote grown new = some d := by
  obtain ⟨n, expand, hn, hexpand, hrun⟩ := Rule.run_decompose hrun
  rw [hroot] at hn
  rcases Op.expansion?_eq_some hexpand with ⟨hop, rfl⟩ | ⟨hop, rfl⟩
  · obtain ⟨x, y, z, hin, hrun⟩ := Expansion.run_onThree hrun
    obtain ⟨ds, hds, happly⟩ := hI.apply_of_denote hg hn (by simp [hop, Op.type]) (by simp [hop, Op.type]) hd
    obtain ⟨a, b, c, rfl, ha, hb, hc⟩ := denoted_triple (hin ▸ hds)
    exact denote_hardSigmoidOf hI hlaws hg hconf hrun ha hb hc (hop ▸ happly)
  · obtain ⟨x, y, z, hin, hrun⟩ := Expansion.run_onThree hrun
    obtain ⟨ds, hds, happly⟩ := hI.apply_of_denote hg hn (by simp [hop, Op.type]) (by simp [hop, Op.type]) hd
    obtain ⟨a, b, c, rfl, ha, hb, hc⟩ := denoted_triple (hin ▸ hds)
    exact denote_fusedMultiplyAddOf hI hlaws hg hrun ha hb hc (hop ▸ happly)

/-- **An operation that passes for an identity gives its input back.** -/
theorem apply_of_isIdentity {op : Op} {t t' : TensorType} (hidentity : Rule.isIdentity op t t' = true) {a d : D}
    (ha : t.relaxes (typeOf a) = true) (hd : t'.relaxes (typeOf d) = true) (happly : I.apply op [a] = [d]) : a = d := by
  unfold Rule.isIdentity at hidentity
  split at hidentity
  · rename_i target
    obtain rfl : target = t.element := by simpa using hidentity
    obtain ⟨types, hvalid, -⟩ := hI.sound _ _ (happly ▸ List.cons_ne_nil d [])
    have hstatic : t.element ≠ .dynamic := Op.ne_dynamic_of_validate_convert hvalid
    have hsame := (ElementType.relaxes_iff.1 (TensorType.element_relaxes ha)).resolve_left hstatic
    rw [hsame, hlaws.convert_self a] at happly
    exact (List.cons.inj happly).1
  · rename_i order
    cases hrank : t.rank? with
    | none =>
      rw [hrank] at hidentity
      cases hidentity
    | some rank =>
      rw [hrank] at hidentity
      have hrank' := TensorType.rank?_of_relaxes ha hrank
      have hself : I.apply (.transpose order) [a] = [a] := by
        cases order with
        | none => exact hlaws.transpose_reverse a rank hrank' (by simpa [Infer.isIdentityOrder] using hidentity)
        | some order =>
          obtain ⟨hlen, hrange⟩ : order.length = rank ∧ order = List.range order.length := by
            simpa [Infer.isIdentityOrder] using hidentity
          rw [hrange, hlen]
          exact hlaws.transpose_range a rank hrank'
      exact (List.cons.inj (hself.symm.trans happly)).1
  · obtain ⟨hstatic, hshape⟩ : t.shape.isStatic = true ∧ t'.shape = t.shape := by simpa using hidentity
    have ha' := Shape.eq_of_static_relaxes (TensorType.shape_relaxes ha) hstatic
    have hd' := Shape.eq_of_static_relaxes (TensorType.shape_relaxes hd) (hshape ▸ hstatic)
    exact (hlaws.reshape_self _ _ a d happly (ha' ▸ hstatic) (hd'.trans (hshape.trans ha'.symm))).symm
  · cases hidentity

theorem denote_skipIdentity (hg : g.WellFormed) (hconf : I.Conforms typeOf g)
    (hm : Rule.identityPattern.matchValue? g root = some m) (hrun : (Rule.skipIdentity m).run.run g = (.ok new, grown))
    {d : D} (hd : I.denote g root = some d) : I.denote grown new = some d := by
  obtain ⟨n, t, t', hnew, hn, ht, ht', hidentity, rfl⟩ := Rule.run_skipIdentity hrun
  obtain ⟨n', x, hn', hin, hx⟩ := Rule.input_of_match hm
  obtain rfl := Option.some.inj (hx.symm.trans hnew)
  rw [matchValue?_root hm] at hn ht'
  obtain rfl := Option.some.inj (hn'.symm.trans hn)
  obtain ⟨a, ha, hrel⟩ := hconf x t ht
  obtain ⟨d', hd', hrel'⟩ := hconf root t' ht'
  obtain rfl := Option.some.inj (hd.symm.trans hd')
  have hop : n'.op.type ≠ .parameter ∧ n'.op.type ≠ .split := by
    unfold Rule.isIdentity at hidentity
    split at hidentity
    case h_4 => cases hidentity
    all_goals rename_i hop; simp [hop, Op.type]
  obtain ⟨ds, hds, happly⟩ := hI.apply_of_denote hg hn hop.1 hop.2 hd
  obtain ⟨a', as, rfl, ha', has⟩ := denoted_cons (hin ▸ hds)
  obtain rfl := List.map_eq_nil_iff.1 has.symm
  obtain rfl := Option.some.inj (ha.symm.trans ha')
  rw [ha, apply_of_isIdentity hI hlaws hidentity hrel hrel' happly]

end

/-- **What a built-in rule answers with denotes what the root denotes.**  The interpretation is typed, obeys the laws
and conforms to the graph; the rule has matched at the root, and its construction has come to a value. -/
theorem denote_of_builtIn (hg : g.WellFormed) (hI : I.Typed typeOf) (hlaws : I.Laws typeOf) (hconf : I.Conforms typeOf g)
    {rule : Rule} (hrule : Except.ok rule ∈ [Rule.multiplyAddFusion, Rule.decomposeComposites, Rule.identityElimination])
    (hm : rule.pattern.matchValue? g root = some m) (hrun : (rule.replacement m).run.run g = (.ok new, grown)) :
    ∃ d, I.denote g root = some d ∧ I.denote grown root = some d ∧ I.denote grown new = some d := by
  have hgrown : Grown g grown := by
    have := grown_run (rule.replacement m).run g
    rwa [hrun] at this
  simp only [List.mem_cons, List.not_mem_nil, or_false] at hrule
  rcases hrule with hrule | hrule | hrule
  · obtain rfl := Rule.ofSketch_eq_ok hrule.symm
    obtain ⟨_, _, _, _, _, _, _, _, hn, -⟩ := Rule.sum_of_match hg hm
    obtain ⟨d, hd⟩ := hconf.denotes hn
    exact ⟨d, hd, denote_grown hg hgrown hd, denote_fuse hI hlaws hg hm hrun hd⟩
  · obtain rfl := Rule.ofSketch_eq_ok hrule.symm
    have hroot := matchValue?_root hm
    obtain ⟨_, _, hn, -⟩ := Rule.run_decompose hrun
    obtain ⟨d, hd⟩ := hconf.denotes (hroot ▸ hn)
    exact ⟨d, hd, denote_grown hg hgrown hd, denote_decompose hI hlaws hg hconf hroot hrun hd⟩
  · obtain rfl := Rule.ofSketch_eq_ok hrule.symm
    obtain ⟨_, _, hn, -⟩ := Rule.input_of_match hm
    obtain ⟨d, hd⟩ := hconf.denotes hn
    exact ⟨d, hd, denote_grown hg hgrown hd, denote_skipIdentity hI hlaws hg hconf hm hrun hd⟩

/-! ### On integers -/

/-- The type of every tensor of the interpretation below. -/
def scalarType : TensorType := ⟨.f32, .scalar⟩

/-- What an operation computes on numbers. -/
def compute : Op → List Int → Option Int
  | .constant c, [] =>
    if some c.data = ConstantData.splat? .f32 .zero then some 0
    else if some c.data = ConstantData.splat? .f32 .one then some 1
    else none
  | .binary .add _, [x, y] => some (x + y)
  | .binary .multiply _, [x, y] => some (x * y)
  | .binary .maximum _, [x, y] => some (max x y)
  | .binary .minimum _, [x, y] => some (min x y)
  | .fusedMultiplyAdd, [x, y, z] => some (x * y + z)
  | .hardSigmoid, [x, alpha, beta] => some (min (max (alpha * x + beta) 0) 1)
  | .convert _, [x] | .transpose _, [x] | .reshape _ _, [x] => some x
  | _, _ => none

/-- Integers as scalars, wherever an operation makes a scalar of scalars. -/
def scalars : Interpretation Int where
  parameter id := [id.index + 1]
  apply op ds :=
    if op.validate (List.replicate ds.length scalarType) [] = .ok [scalarType] then (compute op ds).toList else []

theorem typed_scalars : scalars.Typed (fun _ => scalarType) where
  sound op ds hout := by
    unfold scalars at hout ⊢
    simp only at hout ⊢
    split at hout
    · rename_i hvalid
      rw [if_pos hvalid]
      refine ⟨_, by rwa [List.map_const'], ?_⟩
      cases hd : compute op ds with
      | none => simp [hd] at hout
      | some d => exact .cons rfl .nil
    · exact absurd rfl hout

theorem apply_scalars {op : Op} {n : Nat} (hvalid : op.validate (List.replicate n scalarType) [] = .ok [scalarType])
    {l : List Int} (hn : l.length = n) {d : Int} (hd : compute op l = some d) : scalars.apply op l = [d] := by
  subst hn
  show (if _ then _ else _) = _
  rw [if_pos hvalid, hd]
  rfl

theorem apply_binary_scalars {op : BinaryOp} (hop : op.isComparison = false) (b : Broadcast) {x y d : Int}
    (hd : compute (.binary op b) [x, y] = some d) : scalars.apply (.binary op b) [x, y] = [d] := by
  refine apply_scalars (n := 2) (Op.validate_binary.2 ⟨_, _, _, rfl, ?_, rfl⟩) rfl hd
  refine (Op.binary_of_not_isComparison hop _ _ _).trans ?_
  cases b <;> decide

theorem laws_scalars : scalars.Laws (fun _ => scalarType) where
  add_comm b x y := by
    rw [apply_binary_scalars rfl b (x := x) rfl, apply_binary_scalars rfl b (x := y) rfl, Int.add_comm]
  multiply_add b b' x y z p s _ _ := by
    rw [apply_binary_scalars rfl b (x := x) rfl]
    exact (apply_binary_scalars rfl b' rfl).trans (apply_scalars (n := 3) (by decide) rfl rfl).symm
  hard_sigmoid x alpha beta t zero one _ hzero hone := by
    obtain rfl := Option.some.inj hzero
    obtain rfl := Option.some.inj hone
    rw [apply_binary_scalars rfl .numpy (x := alpha) rfl, List.singleton_append,
      apply_binary_scalars rfl .numpy (x := alpha * x) rfl,
      apply_scalars (n := 0) (l := []) (d := 0) (by decide) rfl (by decide), List.singleton_append,
      apply_binary_scalars rfl .numpy (x := alpha * x + beta) rfl,
      apply_scalars (n := 0) (l := []) (d := 1) (by decide) rfl (by decide)]
    refine (apply_scalars (n := 3) (by decide) rfl rfl).trans ?_
    exact (apply_binary_scalars rfl .numpy rfl).symm
  convert_self x := apply_scalars (n := 1) (by decide) rfl rfl
  transpose_range x rank hrank := by
    obtain rfl : 0 = rank := Option.some.inj hrank
    exact apply_scalars (n := 1) (by decide) rfl rfl
  transpose_reverse x rank _ _ := apply_scalars (n := 1) (by decide) rfl rfl
  reshape_self target copyZeros x y hy _ _ := by
    have hout : (if _ then ([x] : List Int) else []) = [y] := hy
    split at hout
    · exact (List.cons.inj hout).1.symm
    · cases hout

theorem conforms_of_all (h : ∀ v ∈ g.valueIds, ((g.type? v).bind (fun t =>
    (I.denote g v).map (fun d => t.relaxes (typeOf d)))) = some true) : I.Conforms typeOf g := by
  intro v t ht
  obtain ⟨val, hval, -⟩ := Option.map_eq_some_iff.1 ht
  have hv := h v (mem_valueIds.2 (by rw [hval]; rfl))
  rw [ht, Option.bind_some] at hv
  exact Option.map_eq_some_iff.1 hv

/-- A product is added to a number, the sum is clamped and converted to the type that it has. -/
def clamped : Graph :=
  [Edit.addParameter none scalarType, .addParameter none scalarType, .addParameter none scalarType,
    .addValue none (.binary .multiply .numpy) [⟨0⟩, ⟨1⟩], .addValue none (.binary .add .exact) [⟨2⟩, ⟨3⟩],
    .addValue none .hardSigmoid [⟨4⟩, ⟨0⟩, ⟨1⟩], .addValue none (.convert .f32) [⟨5⟩],
    .setResults [⟨6⟩]].foldl Edit.apply (.empty .full)

/-- What a rule answers with at a value, if it can be built and matches there. -/
def answer? (built : Except PatternError Rule) (g : Graph) (v : ValueId) : Option ValueId :=
  match built with
  | .ok rule => (rule.pattern.matchValue? g v).bind (fun m => ((rule.replacement m).run.run g).1.toOption)
  | .error _ => none

theorem of_answer? {built : Except PatternError Rule} {v : ValueId} (h : answer? built g v = some new) :
    ∃ rule m grown, built = .ok rule ∧ rule.pattern.matchValue? g v = some m ∧
      (rule.replacement m).run.run g = (.ok new, grown) := by
  unfold answer? at h
  split at h
  · rename_i rule
    obtain ⟨m, hm, h⟩ := Option.bind_eq_some_iff.1 h
    refine ⟨rule, m, _, rfl, hm, Prod.ext ?_ rfl⟩
    cases hrun : ((rule.replacement m).run.run g).1 with
    | error e =>
      rw [hrun] at h
      cases h
    | ok w =>
      rw [hrun] at h
      exact congrArg Except.ok (Option.some.inj h)
  · cases h

/-- Each of the rules answers somewhere; the sum of 3 and of 1 times 2 is fused although it stands the other way round. -/
theorem denote_of_builtIn_clamped : clamped.WellFormed ∧ scalars.Typed (fun _ => scalarType) ∧
    scalars.Laws (fun _ => scalarType) ∧ scalars.Conforms (fun _ => scalarType) clamped ∧
    (∃ rule m grown, Rule.multiplyAddFusion = .ok rule ∧ rule.pattern.matchValue? clamped ⟨4⟩ = some m ∧
      (rule.replacement m).run.run clamped = (.ok ⟨7⟩, grown) ∧ scalars.denote grown ⟨7⟩ = some 5) ∧
    (∃ rule m grown, Rule.decomposeComposites = .ok rule ∧ rule.pattern.matchValue? clamped ⟨5⟩ = some m ∧
      (rule.replacement m).run.run clamped = (.ok ⟨12⟩, grown) ∧ scalars.denote grown ⟨12⟩ = some 1) ∧
    ∃ rule m grown, Rule.identityElimination = .ok rule ∧ rule.pattern.matchValue? clamped ⟨6⟩ = some m ∧
      (rule.replacement m).run.run clamped = (.ok ⟨5⟩, grown) ∧ scalars.denote grown ⟨5⟩ = some 1 := by
  have hg : clamped.WellFormed := wellFormed_edits _ (wellFormed_empty _)
  have hconf : scalars.Conforms (fun _ => scalarType) clamped := conforms_of_all (by decide +kernel)
  refine ⟨hg, typed_scalars, laws_scalars, hconf, ?_, ?_, ?_⟩
  · obtain ⟨rule, m, grown, hrule, hm, hrun⟩ := of_answer?
      (show answer? Rule.multiplyAddFusion clamped ⟨4⟩ = some ⟨7⟩ by decide +kernel)
    obtain ⟨d, hd, -, hnew⟩ := denote_of_builtIn hg typed_scalars laws_scalars hconf (by simp [hrule]) hm hrun
    have hvalue : scalars.denote clamped ⟨4⟩ = some 5 := by decide +kernel
    exact ⟨rule, m, grown, hrule, hm, hrun, hnew.trans (hd.symm.trans hvalue)⟩
  · obtain ⟨rule, m, grown, hrule, hm, hrun⟩ := of_answer?
      (show answer? Rule.decomposeComposites clamped ⟨5⟩ = some ⟨12⟩ by decide +kernel)
    obtain ⟨d, hd, -, hnew⟩ := denote_of_builtIn hg typed_scalars laws_scalars hconf (by simp [hrule]) hm hrun
    have hvalue : scalars.denote clamped ⟨5⟩ = some 1 := by decide +kernel
    exact ⟨rule, m, grown, hrule, hm, hrun, hnew.trans (hd.symm.trans hvalue)⟩
  · obtain ⟨rule, m, grown, hrule, hm, hrun⟩ := of_answer?
      (show answer? Rule.identityElimination clamped ⟨6⟩ = some ⟨5⟩ by decide +kernel)
    obtain ⟨d, hd, -, hnew⟩ := denote_of_builtIn hg typed_scalars laws_scalars hconf (by simp [hrule]) hm hrun
    have hvalue : scalars.denote clamped ⟨6⟩ = some 1 := by decide +kernel
    exact ⟨rule, m, grown, hrule, hm, hrun, hnew.trans (hd.symm.trans hvalue)⟩

end Interpretation
end TensorGraph
