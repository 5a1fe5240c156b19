import Mathlib.Algebra.Group.Nat.Defs
import TensorGraph.Op.Infer
import TensorGraph.Proofs.Op.Axes
import TensorGraph.Proofs.Op.Layout
import TensorGraph.Proofs.Op.MatMul
/-!
# Inference is monotone

Asked about less, an operation still accepts, and claims no more than it did.  This holds rule by
rule, and so of `Op.validate`, with two provisos.  A negative axis of `reverseSequence` cannot be
resolved without a rank, which is an error of its own.  And `transpose` by a vector of axes of
unknown value takes the rank from its input or else from the length of the vector, without asking
that the two agree: where they differ, less information gives a different rank.
-/
namespace TensorGraph

open TensorType (RelaxesAll)

/-- The elements fill a tensor of this type. -/
def ConstantData.Conforms (d : ConstantData) (t : TensorType) : Prop :=
  t.element = d.elementType ∧ ∃ sizes, t.shape = Shape.ofSizes sizes ∧ sizes.prod = d.size

/-- Less is known of the inputs: their types claim no more, and of the values some are forgotten.
A value that is known belongs to the type of its input. -/
structure LessKnown (general : List TensorType) (gvalues : List (Option ConstantData)) (specific : List TensorType)
    (svalues : List (Option ConstantData)) : Prop where
  types : RelaxesAll general specific
  values : ∀ i : Nat, gvalues[i]?.join = none ∨ gvalues[i]?.join = svalues[i]?.join
  conforms : ∀ (i : Nat) d t, svalues[i]?.join = some d → specific[i]? = some t → d.Conforms t

namespace Infer

theorem length_of_ints? {d : ConstantData} {as : List Int} (h : d.ints? = some as) : d.size = as.length := by
  cases d with
  | i32 xs =>
    obtain rfl := Option.some.inj h
    exact (List.length_map _).symm
  | i64 xs =>
    obtain rfl := Option.some.inj h
    exact (List.length_map _).symm
  | _ => cases h

/-- A vector that holds integers is as long as they are many. -/
theorem vectorLength?_of_conforms {d : ConstantData} {y : TensorType} {as : List Int} (h : d.Conforms y)
    (hints : d.ints? = some as) (hcheck : checkIntVector y 1 = .ok ()) : vectorLength? y = some as.length := by
  obtain ⟨e, s⟩ := y
  obtain ⟨-, sizes, rfl, hsize⟩ := h
  unfold checkIntVector at hcheck
  split at hcheck
  · cases hcheck
  · simp only [TensorType.rank?, Shape.rank?, Shape.ofSizes, Shape.dims?, Option.map_some, List.length_map] at hcheck
    split at hcheck
    · rename_i hone
      obtain ⟨n, rfl⟩ := List.length_eq_one_iff.1 hone
      rw [← length_of_ints? hints, ← hsize, List.prod_singleton]
      rfl
    · cases hcheck

end Infer

namespace LessKnown

variable {general specific : List TensorType} {gvalues svalues : List (Option ConstantData)}

theorem knownInts? (h : LessKnown general gvalues specific svalues) (i : Nat) :
    Infer.knownInts? gvalues i = none ∨ Infer.knownInts? gvalues i = Infer.knownInts? svalues i := by
  unfold Infer.knownInts?
  rcases h.values i with hi | hi
  · exact Or.inl (by rw [hi]; rfl)
  · exact Or.inr (by rw [hi])

theorem vectorLength? (h : LessKnown general gvalues specific svalues) {i : Nat} {y : TensorType}
    (hy : specific[i]? = some y) {as : List Int} (has : Infer.knownInts? svalues i = some as)
    (hcheck : Infer.checkIntVector y 1 = .ok ()) : Infer.vectorLength? y = some as.length := by
  obtain ⟨d, hd, hints⟩ := Option.bind_eq_some_iff.1 has
  exact Infer.vectorLength?_of_conforms (h.conforms i d y hd hy) hints hcheck

end LessKnown

namespace Op

/-- The order of a transposition fits the ranks on which it is asked. -/
def OrderFits (op : Op) (general specific : List TensorType) (svalues : List (Option ConstantData)) : Prop :=
  match op, general, specific with
  | transpose _, [x, y], [x', _] => Infer.knownInts? svalues 1 = none → Infer.OrderFits x x' y
  | _, _, _ => True

/-- The operation accepts the types `general`, and claims no more than `outs`; or else it is a
`reverseSequence` that cannot resolve a negative axis without a rank. -/
def ClaimsNoMore (op : Op) (general : List TensorType) (gvalues : List (Option ConstantData)) (outs : List TensorType) :
    Prop :=
  (∃ batchAxis seqAxis axis, op = reverseSequence batchAxis seqAxis ∧ (axis = batchAxis ∨ axis = seqAxis) ∧ axis < 0 ∧
    op.validate general gvalues = .error (.dynamicRank axis)) ∨
  ∃ outs', op.validate general gvalues = .ok outs' ∧ RelaxesAll outs' outs

section

variable {op : Op} {general specific : List TensorType} {gvalues svalues : List (Option ConstantData)}

/-- A rule with one output. -/
theorem single_noStricter {x y : Except InferError TensorType} (h : Infer.Laxer x y) :
    NoStricter RelaxesAll (do return [← x]) (do return [← y]) := h.bind (fun _ _ hst => .ok (.cons hst .nil))

theorem transpose_noStricter (order : Option (List Nat)) (h : LessKnown general gvalues specific svalues)
    (hfits : (transpose order).OrderFits general specific svalues) :
    NoStricter RelaxesAll ((transpose order).inferTypes general gvalues) ((transpose order).inferTypes specific svalues) := by
  match general, specific, h, h.types with
  | _, _, _, .nil => exact .of_error _
  | _, _, _, .cons hx .nil => exact single_noStricter (Infer.transpose_one_laxer order hx)
  | _, _, h, .cons hx (.cons hy .nil) =>
    exact single_noStricter (Infer.transpose_two_laxer order hx hy (h.knownInts? 1)
      (fun _ has hcheck => h.vectorLength? rfl has hcheck) hfits)
  | _, _, _, .cons _ (.cons _ (.cons _ _)) => exact .of_error _

theorem reshape_noStricter (target : List Int) (copyZeros : Bool) (h : LessKnown general gvalues specific svalues) :
    NoStricter RelaxesAll ((reshape target copyZeros).inferTypes general gvalues)
      ((reshape target copyZeros).inferTypes specific svalues) := by
  match general, specific, h, h.types with
  | _, _, _, .nil => exact .of_error _
  | _, _, h, .cons hx .nil =>
    exact single_noStricter (Infer.reshape_laxer target copyZeros hx .none (h.knownInts? 1) nofun)
  | _, _, h, .cons hx (.cons hy .nil) =>
    refine single_noStricter (Infer.reshape_laxer target copyZeros hx (.some hy) (h.knownInts? 1) ?_)
    intro y' hy' as has hcheck
    obtain rfl := Option.some.inj hy'
    exact h.vectorLength? rfl has hcheck
  | _, _, _, .cons _ (.cons _ (.cons _ _)) => exact .of_error _

theorem reverseSequence_noStricter (batchAxis seqAxis : Int) (h : RelaxesAll general specific)
    (haxes : ∀ x y, general = [x, y] → x.rank? = none → 0 ≤ batchAxis ∧ 0 ≤ seqAxis) :
    NoStricter RelaxesAll ((reverseSequence batchAxis seqAxis).inferTypes general gvalues)
      ((reverseSequence batchAxis seqAxis).inferTypes specific svalues) := by
  match general, specific, h with
  | _, _, .nil => exact .of_error _
  | _, _, .cons _ .nil => exact .of_error _
  | _, _, .cons hx (.cons hy .nil) =>
    exact single_noStricter (Infer.reverseSequence_laxer batchAxis seqAxis hx hy (fun hr => (haxes _ _ rfl hr).1)
      (fun hr => (haxes _ _ rfl hr).2))
  | _, _, .cons _ (.cons _ (.cons _ _)) => exact .of_error _

theorem inferTypes_noStricter (h : LessKnown general gvalues specific svalues)
    (hfits : op.OrderFits general specific svalues)
    (haxes : ∀ batchAxis seqAxis x y, op = reverseSequence batchAxis seqAxis → general = [x, y] →
      x.rank? = none → 0 ≤ batchAxis ∧ 0 ≤ seqAxis) :
    NoStricter RelaxesAll (op.inferTypes general gvalues) (op.inferTypes specific svalues) := by
  cases op with
  | parameter type => exact .ok (.cons type.relaxes_self .nil)
  | constant value =>
    exact single_noStricter ((NoStricter.self _).mono (fun s t hst => hst ▸ s.relaxes_self))
  | unary op => exact (Infer.one_noStricter h.types).bind (fun _ _ hx => single_noStricter (Infer.unary_laxer op hx))
  | convert target =>
    exact (Infer.one_noStricter h.types).bind (fun _ _ hx => single_noStricter (Infer.convert_laxer target hx))
  | softmax axis =>
    exact (Infer.one_noStricter h.types).bind (fun _ _ hx => single_noStricter (Infer.softmax_laxer axis hx))
  | binary op b =>
    exact (Infer.two_noStricter h.types).bind (fun _ _ hxy => single_noStricter (Infer.binary_laxer op b hxy.1 hxy.2))
  | matMul ta tb =>
    exact (Infer.two_noStricter h.types).bind (fun _ _ hxy => single_noStricter (Infer.matMul_laxer ta tb hxy.1 hxy.2))
  | reduce op axes keepDims =>
    exact (Infer.one_noStricter h.types).bind (fun _ _ hx => single_noStricter (Infer.reduce_laxer axes keepDims hx))
  | shapeOf output =>
    exact (Infer.one_noStricter h.types).bind (fun _ _ hx => single_noStricter (Infer.shapeOf_laxer output hx))
  | transpose order => exact transpose_noStricter order h hfits
  | reshape target copyZeros => exact reshape_noStricter target copyZeros h
  | flatten axis =>
    exact (Infer.one_noStricter h.types).bind (fun _ _ hx => single_noStricter (Infer.flatten_laxer axis hx))
  | concat axis => exact single_noStricter (Infer.concat_laxer axis h.types)
  | split axis parts =>
    exact (Infer.one_noStricter h.types).bind (fun _ _ hx => Infer.split_noStricter axis parts hx)
  | stridedSlice b =>
    exact (Infer.one_noStricter h.types).bind (fun _ _ hx => single_noStricter (Infer.stridedSlice_laxer b hx))
  | reverseSequence batchAxis seqAxis =>
    exact reverseSequence_noStricter batchAxis seqAxis h.types (fun x y => haxes batchAxis seqAxis x y rfl)
  | pool op w =>
    exact (Infer.one_noStricter h.types).bind (fun _ _ hx => single_noStricter (Infer.pool_laxer w hx))
  | hardSigmoid =>
    exact (Infer.three_noStricter h.types).bind (fun _ _ hxyz =>
      single_noStricter (Infer.hardSigmoid_laxer hxyz.1 hxyz.2.1 hxyz.2.2))
  | fusedMultiplyAdd =>
    exact (Infer.three_noStricter h.types).bind (fun _ _ hxyz =>
      single_noStricter (Infer.fusedMultiplyAdd_laxer hxyz.1 hxyz.2.1 hxyz.2.2))

/-- Without a rank a negative axis is refused, and nothing else is. -/
theorem validate_of_negative_axis (values : List (Option ConstantData)) {batchAxis seqAxis : Int} {x y : TensorType}
    (hx : x.rank? = none) (hneg : batchAxis < 0 ∨ seqAxis < 0) :
    ∃ axis, (axis = batchAxis ∨ axis = seqAxis) ∧ axis < 0 ∧
      (reverseSequence batchAxis seqAxis).validate [x, y] values = .error (.dynamicRank axis) := by
  obtain ⟨axis, hlt, haxis, herror⟩ := Infer.reverseSequence_of_negative (y := y) hx hneg
  refine ⟨axis, haxis, hlt, ?_⟩
  show (do return [← Infer.reverseSequence batchAxis seqAxis x y]) = _
  rw [herror]
  rfl

theorem claimsNoMore_of_orderFits (h : LessKnown general gvalues specific svalues) {outs : List TensorType}
    (hok : op.validate specific svalues = .ok outs) (hfits : op.OrderFits general specific svalues) :
    op.ClaimsNoMore general gvalues outs := by
  by_cases hneg : ∃ batchAxis seqAxis x y, op = reverseSequence batchAxis seqAxis ∧ general = [x, y] ∧ x.rank? = none ∧
      (batchAxis < 0 ∨ seqAxis < 0)
  · obtain ⟨batchAxis, seqAxis, x, y, rfl, rfl, hx, hneg⟩ := hneg
    obtain ⟨axis, haxis, hlt, herror⟩ := validate_of_negative_axis gvalues hx hneg
    exact Or.inl ⟨batchAxis, seqAxis, axis, rfl, haxis, hlt, herror⟩
  · refine Or.inr ?_
    unfold validate at hok ⊢
    rw [h.types.length_eq]
    split at hok
    · rename_i haccepts
      rw [if_pos haccepts]
      refine inferTypes_noStricter h hfits (fun batchAxis seqAxis x y hop hgeneral hx => ?_) outs hok
      by_contra hlt
      exact hneg ⟨batchAxis, seqAxis, x, y, hop, hgeneral, hx, by omega⟩
    · cases hok

theorem outs_of_transpose_unknown {order : Option (List Nat)} {x y : TensorType} {outs : List TensorType}
    (hvalue : Infer.knownInts? svalues 1 = none) (h : (transpose order).validate [x, y] svalues = .ok outs) :
    outs = [⟨x.element, Infer.shapeOfRank? (x.rank?.or ((Infer.vectorLength? y).filter (0 < ·)))⟩] := by
  obtain ⟨t, ht, hok⟩ := bind_eq_ok (x := Infer.transpose order x (some y) (Infer.knownInts? svalues 1)).1 h
  rw [hvalue] at ht
  rw [← Infer.eq_of_transpose_unknown ht]
  exact (Except.ok.inj hok).symm

theorem orderFits_of_claimsNoMore (h : LessKnown general gvalues specific svalues) {outs : List TensorType}
    (hok : op.validate specific svalues = .ok outs) (hmono : op.ClaimsNoMore general gvalues outs) :
    op.OrderFits general specific svalues := by
  unfold OrderFits
  split
  · rename_i order x y x' y'
    intro hvalue hx length rank hlength hrank
    have hgvalue : Infer.knownInts? gvalues 1 = none := by
      rcases h.knownInts? 1 with hnone | hsame
      · exact hnone
      · exact hsame.trans hvalue
    rcases hmono with ⟨_, _, _, hop, -⟩ | ⟨outs', hok', hrel⟩
    · cases hop
    rw [outs_of_transpose_unknown hvalue hok, outs_of_transpose_unknown hgvalue hok', hx, hrank, hlength] at hrel
    by_contra hne
    rw [not_or] at hne
    rw [Option.none_or, Option.some_or, Option.filter_some_pos (by simpa using Nat.pos_of_ne_zero hne.1)] at hrel
    have hranks := Shape.rank?_of_relaxes (TensorType.shape_relaxes (List.forall₂_cons.1 hrel).1)
      (Infer.rank?_shapeOfRank? (some length))
    exact hne.2 (Option.some.inj (hranks.symm.trans (Infer.rank?_shapeOfRank? (some rank))))
  · trivial

/-- **Inference is monotone, unless an order of unknown value belies the rank.**  If an operation
accepts some inputs it accepts them when less is known of their types and values, and claims no
more; only a negative axis of a reversal is refused for want of a rank.  The exception is exactly a
transposition by a vector of axes whose value is not known and whose length is not the rank. -/
theorem claimsNoMore_iff_orderFits (h : LessKnown general gvalues specific svalues) {outs : List TensorType}
    (hok : op.validate specific svalues = .ok outs) :
    op.ClaimsNoMore general gvalues outs ↔ op.OrderFits general specific svalues :=
  ⟨orderFits_of_claimsNoMore h hok, claimsNoMore_of_orderFits h hok⟩

end

/-- The value of the axes is forgotten, and so is the rank of the input: the length of the vector
gives the rank back. -/
theorem claimsNoMore_transpose_pair :
    let general := [⟨.f32, .unknown⟩, ⟨.i64, .ofSizes [2]⟩]
    let specific := [⟨.f32, .ofSizes [2, 3]⟩, ⟨.i64, .ofSizes [2]⟩]
    let svalues := [none, some (.i64 [1, 0])]
    LessKnown general [] specific svalues ∧ (transpose none).validate specific svalues = .ok [⟨.f32, .ofSizes [3, 2]⟩] ∧
      (transpose none).ClaimsNoMore general [] [⟨.f32, .ofSizes [3, 2]⟩] := by
  have hless : LessKnown [⟨.f32, .unknown⟩, ⟨.i64, .ofSizes [2]⟩] [] [⟨.f32, .ofSizes [2, 3]⟩, ⟨.i64, .ofSizes [2]⟩]
      [none, some (.i64 [1, 0])] := by
    refine ⟨.cons rfl (.cons rfl .nil), fun _ => Or.inl rfl, fun i d t hd ht => ?_⟩
    match i with
    | 0 => cases hd
    | 1 =>
      obtain rfl := Option.some.inj hd
      obtain rfl := Option.some.inj ht
      exact ⟨rfl, [2], rfl, rfl⟩
    | _ + 2 => cases hd
  have hok : (transpose none).validate [⟨.f32, .ofSizes [2, 3]⟩, ⟨.i64, .ofSizes [2]⟩] [none, some (.i64 [1, 0])] =
      .ok [⟨.f32, .ofSizes [3, 2]⟩] := by decide
  exact ⟨hless, hok, (claimsNoMore_iff_orderFits hless hok).2 (fun hvalue => absurd hvalue (by decide))⟩

/-- A vector of three axes beside a matrix: the rank is 2 with the matrix in sight, and 3 without. -/
theorem transpose_not_claimsNoMore :
    let general := [⟨.f32, .unknown⟩, ⟨.i64, .ofSizes [3]⟩]
    let specific := [⟨.f32, .ofSizes [2, 3]⟩, ⟨.i64, .ofSizes [3]⟩]
    LessKnown general [] specific [] ∧ (transpose none).validate specific [] = .ok [⟨.f32, .ofRank 2⟩] ∧
      (transpose none).validate general [] = .ok [⟨.f32, .ofRank 3⟩] ∧
      ¬ (transpose none).ClaimsNoMore general [] [⟨.f32, .ofRank 2⟩] := by
  have hgeneral : (transpose none).validate [⟨.f32, .unknown⟩, ⟨.i64, .ofSizes [3]⟩] [] = .ok [⟨.f32, .ofRank 3⟩] := by
    decide
  refine ⟨⟨.cons rfl (.cons rfl .nil), fun _ => Or.inl rfl, nofun⟩, by decide, hgeneral, ?_⟩
  rintro (⟨_, _, _, hop, -⟩ | ⟨outs, hok, hrel⟩)
  · cases hop
  · obtain rfl := Except.ok.inj (hgeneral.symm.trans hok)
    exact absurd (List.forall₂_cons.1 hrel).1 (by decide)

end Op
end TensorGraph
