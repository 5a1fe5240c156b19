import TensorGraph.Op.Reshape
import TensorGraph.Op.ShapeOf
import TensorGraph.Op.Transpose
import TensorGraph.Proofs.Op.Elementwise
/-!
# Monotone rules: the layout of a tensor

Shapes, flattening, reshaping and transposing.  The last two may read their attribute from the value
of a second input.  While that value is not known they answer from the length of the vector alone,
which has to be right once the value is known.
-/
namespace TensorGraph
namespace Infer

open Dimension (RelaxesAll)
open TensorType (mk_relaxes_mk element_relaxes shape_relaxes rank?_of_relaxes)

variable {x x' y y' : TensorType}

theorem shapeOf_laxer (output : ElementType) (h : x.relaxes x' = true) :
    Laxer (shapeOf output x) (shapeOf output x') := by
  unfold shapeOf
  split
  · refine .ok (mk_relaxes_mk output.relaxes_self (Shape.ranked_relaxes_ranked.2 (.cons ?_ .nil)))
    cases hr : x.rank? with
    | none => rfl
    | some rank =>
      rw [rank?_of_relaxes h hr]
      exact Dimension.relaxes_self _
  · exact .of_error _

theorem flatten_laxer (axis : Int) (h : x.relaxes x' = true) : Laxer (flatten axis x) (flatten axis x') := by
  obtain ⟨e, s⟩ := x
  obtain ⟨e', s'⟩ := x'
  have he : e.relaxes e' = true := element_relaxes h
  unfold flatten
  rcases Shape.relaxes_cases (shape_relaxes h) with rfl | ⟨xs, ys, rfl, rfl, hall⟩
  · cases s' with
    | unknown => exact .ok (mk_relaxes_mk he (Shape.relaxes_self _))
    | ranked ys =>
      exact .of_bind (fun _ => .of_bind (fun _ => .of_bind (fun _ =>
        .ok (mk_relaxes_mk he (Shape.ofRank_relaxes rfl)))))
  · simp only [hall.length_eq]
    refine (NoStricter.self _).bind (fun _ index hindex => ?_)
    rw [hindex]
    exact (product_noStricter (hall.take index)).bind (fun _ _ houter =>
      (product_noStricter (hall.drop index)).bind (fun _ _ hinner =>
        .ok (mk_relaxes_mk he (Shape.ranked_relaxes_ranked.2 (.cons houter (.cons hinner .nil))))))

/-! ## The length of a vector -/

theorem vectorLength?_of_relaxes (h : y.relaxes y' = true) {length : Nat} (hy : vectorLength? y = some length) :
    vectorLength? y' = some length := by
  obtain ⟨e, s⟩ := y
  obtain ⟨e', s'⟩ := y'
  rcases Shape.relaxes_cases (shape_relaxes h) with rfl | ⟨xs, ys, rfl, rfl, hall⟩
  · cases hy
  · match xs, ys, hall with
    | [_], [_], .cons hd .nil =>
      rcases Dimension.relaxes_iff.1 hd with rfl | rfl
      · cases hy
      · exact hy

theorem shapeOfRank?_relaxes {rank : Option Nat} {s : Shape} (h : ∀ r, rank = some r → s.rank? = some r) :
    (shapeOfRank? rank).relaxes s = true := by
  cases rank with
  | none => rfl
  | some r =>
    cases s with
    | unknown => cases h r rfl
    | ranked dims => exact Shape.ofRank_relaxes (Option.some.inj (h r rfl))

@[simp] theorem rank?_shapeOfRank? (rank : Option Nat) : (shapeOfRank? rank).rank? = rank := by
  cases rank with
  | none => rfl
  | some r => exact congrArg some List.length_replicate

/-! ## Transposing -/

theorem reorder_relaxes (order : List Nat) {xs ys : List Dimension} (h : RelaxesAll xs ys) :
    RelaxesAll (reorder order xs) (reorder order ys) := by
  unfold reorder
  induction order with
  | nil => exact .nil
  | cons i order ih => exact .cons (h.getD i) ih

theorem reverseAxes_relaxes (h : x.relaxes x' = true) : (reverseAxes x).relaxes (reverseAxes x') = true := by
  obtain ⟨e, s⟩ := x
  obtain ⟨e', s'⟩ := x'
  rcases Shape.relaxes_cases (shape_relaxes h) with rfl | ⟨xs, ys, rfl, rfl, hall⟩
  · exact mk_relaxes_mk (element_relaxes h) rfl
  · exact mk_relaxes_mk (element_relaxes h) (Shape.ranked_relaxes_ranked.2 hall.reverse)

theorem permute_laxer (order : List Nat) (h : x.relaxes x' = true) : Laxer (permute x order) (permute x' order) := by
  obtain ⟨e, s⟩ := x
  obtain ⟨e', s'⟩ := x'
  have he : e.relaxes e' = true := element_relaxes h
  refine .check id (fun _ => ?_)
  rcases Shape.relaxes_cases (shape_relaxes h) with rfl | ⟨xs, ys, rfl, rfl, hall⟩
  · cases s' with
    | unknown => exact .ok (mk_relaxes_mk he (Shape.relaxes_self _))
    | ranked ys =>
      simp only
      split
      · exact .of_error _
      · exact .ok (mk_relaxes_mk he (Shape.ofRank_relaxes (List.length_map _)))
  · simp only [hall.length_eq]
    exact .check id (fun _ => .ok (mk_relaxes_mk he (Shape.ranked_relaxes_ranked.2 (reorder_relaxes order hall))))

/-- A permutation tells the rank, before and after. -/
theorem rank?_of_permute {order : List Nat} {t : TensorType} (h : permute x order = .ok t) :
    t.element = x.element ∧ t.rank? = some order.length ∧ ∀ r, x.rank? = some r → r = order.length := by
  obtain ⟨e, s⟩ := x
  unfold permute at h
  split at h
  · cases h
  · cases s with
    | unknown =>
      obtain rfl := Except.ok.inj h
      exact ⟨rfl, congrArg some List.length_replicate, nofun⟩
    | ranked dims =>
      simp only at h
      split at h
      · cases h
      · rename_i hlen
        obtain rfl := Except.ok.inj h
        exact ⟨rfl, congrArg some (List.length_map _), fun r hr => Option.some.inj hr ▸ not_not.1 hlen⟩

@[simp] theorem rank?_reverseAxes (x : TensorType) : (reverseAxes x).rank? = x.rank? := by
  obtain ⟨e, s⟩ := x
  cases s with
  | unknown => rfl
  | ranked dims => exact congrArg some List.length_reverse

theorem length_axesOfInts {axes : List Int} {order : List Nat} (h : axesOfInts axes = .ok order) :
    order.length = axes.length := by
  unfold axesOfInts at h
  split at h
  · rw [← Except.ok.inj h, List.length_map]
  · cases h

theorem transpose_one_laxer (order : Option (List Nat)) {axes axes' : Option (List Int)} (hx : x.relaxes x' = true) :
    Laxer (transpose order x none axes) (transpose order x' none axes') := by
  cases order with
  | none => exact .ok (reverseAxes_relaxes hx)
  | some order => exact permute_laxer order hx

/-- What the vector of axes comes to when its value is known: the axes in reverse if it is empty, and
else its length is the rank. -/
theorem rank?_of_transpose {order : Option (List Nat)} {axes : List Int} {t : TensorType}
    (h : transpose order x (some y) (some axes) = .ok t) :
    t.element = x.element ∧ (∀ r, x.rank? = some r → t.rank? = some r) ∧ (axes ≠ [] → t.rank? = some axes.length) := by
  unfold transpose at h
  cases order with
  | some order => cases h
  | none =>
    obtain ⟨_, -, h⟩ := bind_eq_ok.1 h
    cases axes with
    | nil =>
      obtain rfl := Except.ok.inj h
      exact ⟨rfl, fun r hr => (rank?_reverseAxes x).trans hr, fun hne => absurd rfl hne⟩
    | cons a as =>
      obtain ⟨order, horder, h⟩ := bind_eq_ok.1 h
      obtain ⟨he, hr, hsame⟩ := rank?_of_permute h
      exact ⟨he, fun r hx => hr.trans (congrArg some (hsame r hx).symm), fun _ => hr.trans (congrArg some (length_axesOfInts horder))⟩

/-- While the value of the vector is not known, no more than a rank comes out. -/
theorem eq_of_transpose_unknown {order : Option (List Nat)} {t : TensorType}
    (h : transpose order x (some y) none = .ok t) :
    t = ⟨x.element, shapeOfRank? (x.rank?.or ((vectorLength? y).filter (0 < ·)))⟩ := by
  unfold transpose at h
  cases order with
  | some order => cases h
  | none =>
    obtain ⟨_, -, h⟩ := bind_eq_ok.1 h
    exact (Except.ok.inj h).symm

/-- The vector of axes of unknown value, whose length stands in for a rank that is not known, is as
long as that rank unless it is empty. -/
def OrderFits (x x' y : TensorType) : Prop :=
  x.rank? = none → ∀ length rank, vectorLength? y = some length → x'.rank? = some rank → length = 0 ∨ length = rank

/-- The rank that is told to an input of unknown rank by the length of a vector of axes. -/
theorem rank?_or_vectorLength? {r : Nat} (h : (x.rank?.or ((vectorLength? y).filter (0 < ·))) = some r) :
    x.rank? = some r ∨ x.rank? = none ∧ vectorLength? y = some r ∧ r ≠ 0 := by
  cases hx : x.rank? with
  | some r' =>
    rw [hx] at h
    exact Or.inl h
  | none =>
    rw [hx, Option.none_or, Option.filter_eq_some_iff] at h
    exact Or.inr ⟨rfl, h.1, Nat.ne_of_gt (of_decide_eq_true h.2)⟩

theorem transpose_two_laxer (order : Option (List Nat)) {axes axes' : Option (List Int)} (hx : x.relaxes x' = true)
    (hy : y.relaxes y' = true) (haxes : axes = none ∨ axes = axes')
    (hlength : ∀ as, axes' = some as → checkIntVector y' 1 = .ok () → vectorLength? y' = some as.length)
    (hfits : axes' = none → OrderFits x x' y) :
    Laxer (transpose order x (some y) axes) (transpose order x' (some y') axes') := by
  cases order with
  | some order => exact .of_error _
  | none =>
  cases axes with
  | some as =>
    obtain rfl := haxes.resolve_left nofun
    refine (checkIntVector_noStricter 1 hy).bind (fun _ _ _ => ?_)
    cases as with
    | nil => exact .ok (reverseAxes_relaxes hx)
    | cons a as =>
      refine (NoStricter.self _).bind (fun _ order horder => ?_)
      rw [horder]
      exact permute_laxer order hx
  | none =>
    -- the general answer tells a rank at most: it has to be that of `t`
    intro t ht
    obtain ⟨⟨⟩, hcheck', hrest⟩ := bind_eq_ok.1 ht
    obtain ⟨⟨⟩, hcheck, -⟩ := checkIntVector_noStricter 1 hy () hcheck'
    have he : x.element.relaxes x'.element = true := element_relaxes hx
    suffices ht : t.element = x'.element ∧
        ∀ r, (x.rank?.or ((vectorLength? y).filter (0 < ·))) = some r → t.rank? = some r from
      ⟨_, bind_eq_ok.2 ⟨(), hcheck, rfl⟩,
        TensorType.relaxes_iff.2 ⟨ht.1 ▸ he, shapeOfRank?_relaxes ht.2⟩⟩
    cases axes' with
    | none =>
      obtain rfl := Except.ok.inj hrest
      refine ⟨rfl, fun r hr => (rank?_shapeOfRank? _).trans ?_⟩
      rcases rank?_or_vectorLength? hr with hr | ⟨hnone, hlen, hne⟩
      · rw [rank?_of_relaxes hx hr, Option.some_or]
      · cases hr' : x'.rank? with
        | none => rw [Option.none_or, vectorLength?_of_relaxes hy hlen, Option.filter_some_pos (by simpa using Nat.pos_of_ne_zero hne)]
        | some r' => rw [(hfits rfl hnone r r' hlen hr').resolve_left hne, Option.some_or]
    | some as =>
      obtain ⟨he, hsame, hne⟩ := rank?_of_transpose ht
      refine ⟨he, fun r hr => ?_⟩
      rcases rank?_or_vectorLength? hr with hr | ⟨-, hlen, hpos⟩
      · exact hsame r (rank?_of_relaxes hx hr)
      · have has : r = as.length :=
          Option.some.inj ((vectorLength?_of_relaxes hy hlen).symm.trans (hlength as rfl hcheck'))
        exact has ▸ hne (fun hnil => hpos (has.trans (hnil ▸ rfl)))

/-! ## Reshaping -/

/-- Position by position, the first list of entries claims no more; the open ones are the same. -/
abbrev EntriesRelax : List (Option Dimension) → List (Option Dimension) → Prop :=
  List.Forall₂ (Option.Rel (fun x y => x.relaxes y = true))

theorem targetDim_noStricter (copyZeros : Bool) {s s' : Shape} (h : s.relaxes s' = true) (index : Nat) (size : Int) :
    NoStricter (fun x y => x.relaxes y = true) (targetDim copyZeros s index size)
      (targetDim copyZeros s' index size) := by
  unfold targetDim
  split
  · rcases Shape.relaxes_cases h with rfl | ⟨xs, ys, rfl, rfl, hall⟩
    · exact .of_ok (fun _ => rfl)
    · simp only
      match xs[index]?, ys[index]?, hall.getElem? index with
      | _, _, .none => exact .of_error _
      | some d, some d', .some hd => exact .ok hd
  · exact (NoStricter.self _).mono (fun _ _ hab => hab ▸ Dimension.relaxes_self _)

theorem targetDims_noStricter (copyZeros : Bool) {s s' : Shape} (h : s.relaxes s' = true) :
    ∀ (seen : Bool) (index : Nat) (target : List Int),
      NoStricter EntriesRelax (targetDims copyZeros s seen index target) (targetDims copyZeros s' seen index target)
  | _, _, [] => .ok .nil
  | seen, index, size :: rest => by
    rw [targetDims, targetDims]
    split
    · split
      · exact .of_error _
      · exact (targetDims_noStricter copyZeros h true (index + 1) rest).bind (fun _ _ hrest => .ok (.cons .none hrest))
    · exact (targetDim_noStricter copyZeros h index size).bind (fun _ _ hd =>
        (targetDims_noStricter copyZeros h seen (index + 1) rest).bind (fun _ _ hrest =>
          .ok (.cons (.some hd) hrest)))

theorem length_targetDims (copyZeros : Bool) (s : Shape) : ∀ {seen : Bool} {index : Nat} {target : List Int}
    {entries : List (Option Dimension)}, targetDims copyZeros s seen index target = .ok entries →
      entries.length = target.length
  | _, _, [], _, h => Except.ok.inj h ▸ rfl
  | seen, index, size :: rest, entries, h => by
    rw [targetDims] at h
    split at h
    · split at h
      · cases h
      · obtain ⟨ds, hds, h⟩ := bind_eq_ok.1 h
        obtain rfl := Except.ok.inj h
        rw [List.length_cons, List.length_cons, length_targetDims copyZeros s hds]
    · obtain ⟨d, -, h⟩ := bind_eq_ok.1 h
      obtain ⟨ds, hds, h⟩ := bind_eq_ok.1 h
      obtain rfl := Except.ok.inj h
      rw [List.length_cons, List.length_cons, length_targetDims copyZeros s hds]

section

variable {entries entries' : List (Option Dimension)}

theorem contains_none_of_entriesRelax (h : EntriesRelax entries entries') :
    entries.contains none = entries'.contains none := by
  induction h with
  | nil => rfl
  | cons hd _ ih =>
    cases hd with
    | none => rfl
    | some _ => exact ih

theorem filterMap_of_entriesRelax (h : EntriesRelax entries entries') :
    RelaxesAll (entries.filterMap id) (entries'.filterMap id) := by
  induction h with
  | nil => exact .nil
  | cons hd _ ih =>
    cases hd with
    | none => exact ih
    | some hd => exact .cons hd ih

theorem fillOpen_relaxes {d d' : Dimension} (hd : d.relaxes d' = true) (h : EntriesRelax entries entries') :
    RelaxesAll (fillOpen d entries) (fillOpen d' entries') := by
  induction h with
  | nil => exact .nil
  | cons hentry _ ih =>
    cases hentry with
    | none => exact .cons hd ih
    | some hentry => exact .cons hentry ih

end

/-- The dimensions of a target, with the open one solved for. -/
def solvedDims (input : Shape) (entries : List (Option Dimension)) : Except InferError (List Dimension) :=
  if entries.contains none then do
    let others ← product (entries.filterMap id)
    match solveOpen? input.elementCount? others with
    | some d => .ok (fillOpen d entries)
    | none => .error (.incompatibleShapes input (.ranked (fillOpen .dynamic entries)))
  else .ok (fillOpen .dynamic entries)

/-- The reshaped type, unless the numbers of elements are known to differ. -/
def filledBy (input : TensorType) (dims : List Dimension) : Except InferError TensorType := do
  let total ← product dims
  match input.shape.elementCount?, total with
  | some n, .fixed k =>
    if n = k then .ok ⟨input.element, .ranked dims⟩ else .error (.incompatibleShapes input.shape (.ranked dims))
  | _, _ => .ok ⟨input.element, .ranked dims⟩

theorem reshapeTo_eq (copyZeros : Bool) (x : TensorType) (target : List Int) :
    reshapeTo copyZeros x target = (do
      let entries ← (targetDims copyZeros x.shape false 0 target).mapError .invalidAttribute
      let dims ← solvedDims x.shape entries
      filledBy x dims) := by
  unfold reshapeTo solvedDims
  congr 1
  funext entries
  cases entries.contains none with
  | false => rfl
  | true =>
    simp only [if_true, bind_assoc]
    congr 1
    funext others
    cases solveOpen? x.shape.elementCount? others with
    | none => rfl
    | some d => rfl

/-- An open entry that can be solved for can be solved for, or left open, when less is known. -/
theorem solveOpen?_relaxes {count count' : Option Nat} {others others' d' : Dimension}
    (hcount : ∀ n, count = some n → count' = some n) (hothers : others.relaxes others' = true)
    (h : solveOpen? count' others' = some d') : ∃ d, solveOpen? count others = some d ∧ d.relaxes d' = true := by
  cases count with
  | none => exact ⟨.dynamic, rfl, rfl⟩
  | some n =>
    rcases Dimension.relaxes_iff.1 hothers with rfl | rfl
    · exact ⟨.dynamic, rfl, rfl⟩
    · rw [hcount n rfl] at h
      exact ⟨d', h, d'.relaxes_self⟩

theorem solvedDims_noStricter {s s' : Shape} (h : s.relaxes s' = true) {entries entries' : List (Option Dimension)}
    (hentries : EntriesRelax entries entries') :
    NoStricter RelaxesAll (solvedDims s entries) (solvedDims s' entries') := by
  unfold solvedDims
  rw [contains_none_of_entriesRelax hentries]
  split
  · refine (product_noStricter (filterMap_of_entriesRelax hentries)).bind (fun others others' hothers => ?_)
    cases hd' : solveOpen? s'.elementCount? others' with
    | none => exact .of_error _
    | some d' =>
      obtain ⟨d, hd, hrel⟩ := solveOpen?_relaxes (fun n => Shape.elementCount?_of_relaxes h) hothers hd'
      rw [hd]
      exact .ok (fillOpen_relaxes hrel hentries)
  · exact .ok (fillOpen_relaxes (Dimension.relaxes_self _) hentries)

theorem length_solvedDims {s : Shape} {entries : List (Option Dimension)} {dims : List Dimension}
    (h : solvedDims s entries = .ok dims) : dims.length = entries.length := by
  unfold solvedDims at h
  split at h
  · obtain ⟨others, -, h⟩ := bind_eq_ok.1 h
    split at h
    · rw [← Except.ok.inj h, fillOpen, List.length_map]
    · cases h
  · rw [← Except.ok.inj h, fillOpen, List.length_map]

theorem filledBy_eq_ok {dims : List Dimension} {t : TensorType} (h : filledBy x dims = .ok t) :
    t = ⟨x.element, .ranked dims⟩ := by
  unfold filledBy at h
  obtain ⟨total, -, h⟩ := bind_eq_ok.1 h
  split at h
  · split at h
    · exact (Except.ok.inj h).symm
    · cases h
  · exact (Except.ok.inj h).symm

theorem filledBy_laxer (h : x.relaxes x' = true) {dims dims' : List Dimension} (hdims : RelaxesAll dims dims') :
    Laxer (filledBy x dims) (filledBy x' dims') := by
  intro t ht
  obtain rfl := filledBy_eq_ok ht
  obtain ⟨total', htotal', ht⟩ := bind_eq_ok.1 ht
  obtain ⟨total, htotal, hrel⟩ := product_noStricter hdims total' htotal'
  refine ⟨⟨x.element, .ranked dims⟩, bind_eq_ok.2 ⟨total, htotal, ?_⟩,
    mk_relaxes_mk (element_relaxes h) (Shape.ranked_relaxes_ranked.2 hdims)⟩
  cases hn : x.shape.elementCount? with
  | none => rfl
  | some n =>
    cases total with
    | dynamic => rfl
    | fixed k =>
      -- both numbers are known, so they stay what they are
      rw [Dimension.eq_of_fixed_relaxes hrel, Shape.elementCount?_of_relaxes (shape_relaxes h) hn] at ht
      by_cases hnk : n = k
      · exact if_pos hnk
      · simp only [if_neg hnk] at ht
        cases ht

theorem reshapeTo_laxer (copyZeros : Bool) (target : List Int) (h : x.relaxes x' = true) :
    Laxer (reshapeTo copyZeros x target) (reshapeTo copyZeros x' target) := by
  rw [reshapeTo_eq, reshapeTo_eq]
  exact (targetDims_noStricter copyZeros (shape_relaxes h) false 0 target).mapError.bind (fun _ _ hentries =>
    (solvedDims_noStricter (shape_relaxes h) hentries).bind (fun _ _ hdims => filledBy_laxer h hdims))

/-- The target tells the rank. -/
theorem rank?_of_reshapeTo {copyZeros : Bool} {target : List Int} {t : TensorType}
    (h : reshapeTo copyZeros x target = .ok t) : t.element = x.element ∧ t.rank? = some target.length := by
  rw [reshapeTo_eq] at h
  obtain ⟨entries, hentries, h⟩ := bind_eq_ok.1 h
  obtain ⟨dims, hdims, h⟩ := bind_eq_ok.1 h
  obtain rfl := filledBy_eq_ok h
  have hlen : dims.length = target.length :=
    (length_solvedDims hdims).trans (length_targetDims copyZeros x.shape (mapError_eq_ok.1 hentries))
  exact ⟨rfl, congrArg some hlen⟩

theorem reshape_laxer (target : List Int) (copyZeros : Bool) {second second' : Option TensorType}
    {sizes sizes' : Option (List Int)} (hx : x.relaxes x' = true)
    (hsecond : Option.Rel (fun y y' => y.relaxes y' = true) second second') (hsizes : sizes = none ∨ sizes = sizes')
    (hlength : ∀ y', second' = some y' → ∀ as, sizes' = some as → checkIntVector y' 1 = .ok () →
      vectorLength? y' = some as.length) :
    Laxer (reshape target copyZeros x second sizes) (reshape target copyZeros x' second' sizes') := by
  match second, second', hsecond with
  | _, _, .none => exact reshapeTo_laxer copyZeros target hx
  | some y, some y', .some hy =>
    intro t ht
    obtain ⟨⟨⟩, hcheck', ht⟩ := bind_eq_ok.1 ht
    obtain ⟨⟨⟩, hcheck, -⟩ := checkIntVector_noStricter 1 hy () hcheck'
    have he : x.element.relaxes x'.element = true := element_relaxes hx
    cases sizes with
    | some as =>
      obtain rfl := hsizes.resolve_left nofun
      obtain ⟨s, hs, hrel⟩ := reshapeTo_laxer copyZeros as hx t ht
      exact ⟨s, bind_eq_ok.2 ⟨(), hcheck, hs⟩, hrel⟩
    | none =>
      refine ⟨_, bind_eq_ok.2 ⟨(), hcheck, rfl⟩, ?_⟩
      cases sizes' with
      | none =>
        obtain rfl := Except.ok.inj ht
        exact mk_relaxes_mk he (shapeOfRank?_relaxes (fun r hr =>
          (rank?_shapeOfRank? _).trans (vectorLength?_of_relaxes hy hr)))
      | some as =>
        obtain ⟨het, hr⟩ := rank?_of_reshapeTo ht
        refine TensorType.relaxes_iff.2 ⟨het ▸ he, shapeOfRank?_relaxes (fun r hlen => hr.trans ?_)⟩
        exact (hlength y' rfl as rfl hcheck').symm.trans (vectorLength?_of_relaxes hy hlen)

end Infer
end TensorGraph
