import TensorGraph.Op.Concat
import TensorGraph.Op.Pool
import TensorGraph.Op.Reduce
import TensorGraph.Op.Sequence
import TensorGraph.Op.Slice
import TensorGraph.Proofs.Op.Elementwise
/-!
# Monotone rules: along axes

The rules for operations that look at single axes: reductions, slices, windows, joining and
splitting, and reversing sequences.  Joining takes its rank from the first input that has one, which
may be another input when less is known; that all of them agree on the rank is what makes up for it.
-/
namespace TensorGraph
namespace Infer

open Dimension (RelaxesAll)
open TensorType (mk_relaxes_mk element_relaxes shape_relaxes)

variable {x x' : TensorType}

/-! ## Reductions and slices -/

theorem eq_of_relaxes_of_boolean {e e' : ElementType} (h : e.relaxes e' = true) (hb : e = .boolean) :
    e' = .boolean := by
  rcases ElementType.relaxes_iff.1 h with rfl | rfl
  · cases hb
  · exact hb

theorem reduceDims_relaxes (axes : List Nat) (keepDims : Bool) {xs ys : List Dimension} (h : RelaxesAll xs ys) :
    RelaxesAll (reduceDims axes keepDims xs) (reduceDims axes keepDims ys) := by
  unfold reduceDims
  generalize 0 = start
  induction h generalizing start with
  | nil => exact .nil
  | cons hxy _ ih =>
    simp only [List.zipIdx_cons, List.filterMap_cons]
    cases axes.contains start with
    | false => exact .cons hxy (ih _)
    | true =>
      cases keepDims with
      | false => exact ih _
      | true => exact .cons (Dimension.relaxes_self _) (ih _)

theorem reduce_laxer (axes : List Int) (keepDims : Bool) (h : x.relaxes x' = true) :
    Laxer (reduce axes keepDims x) (reduce axes keepDims x') := by
  obtain ⟨e, s⟩ := x
  obtain ⟨e', s'⟩ := x'
  have he : e.relaxes e' = true := element_relaxes h
  refine .check (eq_of_relaxes_of_boolean he) (fun _ => ?_)
  rcases Shape.relaxes_cases (shape_relaxes h) with rfl | ⟨xs, ys, rfl, rfl, hall⟩
  · cases s' with
    | unknown => exact .ok (mk_relaxes_mk he rfl)
    | ranked ys => exact .of_bind (fun _ => .ok (mk_relaxes_mk he rfl))
  · simp only [hall.length_eq]
    refine (NoStricter.self _).bind (fun _ axes haxes => .ok (mk_relaxes_mk he ?_))
    rw [haxes]
    exact Shape.ranked_relaxes_ranked.2 (reduceDims_relaxes axes keepDims hall)

theorem slicedDim_relaxes (b : SliceBounds) (axis : Nat) {d d' : Dimension} (h : d.relaxes d' = true) :
    (slicedDim b axis d).relaxes (slicedDim b axis d') = true := by
  unfold slicedDim
  split
  · exact h
  · rcases Dimension.relaxes_iff.1 h with rfl | rfl
    · rfl
    · exact Dimension.relaxes_self _

theorem stridedSlice_laxer (b : SliceBounds) (h : x.relaxes x' = true) :
    Laxer (stridedSlice b x) (stridedSlice b x') := by
  obtain ⟨e, s⟩ := x
  obtain ⟨e', s'⟩ := x'
  have he : e.relaxes e' = true := element_relaxes h
  refine .check id (fun _ => .check id (fun _ => ?_))
  rcases Shape.relaxes_cases (shape_relaxes h) with rfl | ⟨xs, ys, rfl, rfl, hall⟩
  · cases s' with
    | unknown => exact .ok (mk_relaxes_mk he rfl)
    | ranked ys =>
      simp only
      split
      · exact .of_error _
      · exact .ok (mk_relaxes_mk he rfl)
  · simp only [hall.length_eq]
    exact .check id (fun _ => .ok (mk_relaxes_mk he (Shape.ranked_relaxes_ranked.2
      (hall.mapIdx (fun i _ _ => slicedDim_relaxes b i)))))

/-! ## Windows -/

theorem outputDim_noStricter (w : AxisWindow) (rounding : Rounding) {d d' : Dimension} (h : d.relaxes d' = true) :
    NoStricter (fun x y => x.relaxes y = true) (w.outputDim rounding d) (w.outputDim rounding d') := by
  rcases Dimension.relaxes_iff.1 h with rfl | rfl
  · exact .of_ok (fun _ => rfl)
  · exact (NoStricter.self _).mono (fun _ _ hab => hab ▸ Dimension.relaxes_self _)

theorem poolDims_noStricter (rounding : Rounding) : ∀ (ws : List AxisWindow) {xs ys : List Dimension},
    RelaxesAll xs ys → NoStricter RelaxesAll (poolDims rounding ws xs) (poolDims rounding ws ys)
  | [], _, _, _ => .ok .nil
  | _ :: _, _, _, .nil => .ok .nil
  | w :: ws, _, _, .cons hxy hall =>
    (outputDim_noStricter w rounding hxy).bind (fun _ _ hd =>
      (poolDims_noStricter rounding ws hall).bind (fun _ _ hds => .ok (.cons hd hds)))

/-- As many dimensions come out as go in. -/
theorem length_poolDims (rounding : Rounding) : ∀ {ws : List AxisWindow} {xs ds : List Dimension},
    ws.length = xs.length → poolDims rounding ws xs = .ok ds → ds.length = xs.length
  | [], [], _, _, h => Except.ok.inj h ▸ rfl
  | w :: ws, x :: xs, ds, hlen, h => by
    rw [poolDims] at h
    obtain ⟨d, -, h⟩ := bind_eq_ok.1 h
    obtain ⟨rest, hrest, h⟩ := bind_eq_ok.1 h
    obtain rfl := Except.ok.inj h
    rw [List.length_cons, List.length_cons, length_poolDims rounding (Nat.succ.inj hlen) hrest]

theorem length_of_checkLength {w : Window} {list : WindowList} {values : List Nat}
    (h : w.checkLength list values = .ok ()) : values.length = w.kernel.length := by
  unfold Window.checkLength at h
  split at h
  · assumption
  · cases h

theorem length_axes_of_validate {w : Window} (h : w.validate = .ok ()) : w.axes.length = w.kernel.length := by
  unfold Window.validate at h
  cases hk : w.kernel.isEmpty with
  | true =>
    rw [hk] at h
    cases h
  | false =>
  simp only [hk, Bool.false_eq_true, if_false] at h
  obtain ⟨⟨⟩, hs, h⟩ := bind_eq_ok.1 h
  obtain ⟨⟨⟩, hb, h⟩ := bind_eq_ok.1 h
  obtain ⟨⟨⟩, he, -⟩ := bind_eq_ok.1 h
  rw [Window.axes, List.length_map, List.length_zip, List.length_zip, List.length_zip, length_of_checkLength hs,
    length_of_checkLength hb, length_of_checkLength he, Nat.min_self, Nat.min_self]

theorem pool_laxer (w : Window) (h : x.relaxes x' = true) : Laxer (pool w x) (pool w x') := by
  obtain ⟨e, s⟩ := x
  obtain ⟨e', s'⟩ := x'
  have he : e.relaxes e' = true := element_relaxes h
  have hvalid : NoStricter (fun _ _ => w.axes.length = w.kernel.length)
      (w.validate.mapError InferError.invalidAttribute) (w.validate.mapError InferError.invalidAttribute) := by
    refine NoStricter.mapError (fun u hu => ⟨u, hu, length_axes_of_validate hu⟩)
  refine hvalid.bind (fun _ _ haxes => .check (eq_of_relaxes_of_boolean he) (fun _ => ?_))
  rcases Shape.relaxes_cases (shape_relaxes h) with rfl | ⟨xs, ys, rfl, rfl, hall⟩
  · cases s' with
    | unknown => exact .ok (mk_relaxes_mk he (Shape.relaxes_self _))
    | ranked ys =>
      simp only
      split
      · exact .of_error _
      · rename_i hlen
        have hrank : ys.length = w.kernel.length + 2 := not_not.1 hlen
        intro out hout
        obtain ⟨ds, hds, hout⟩ := bind_eq_ok.1 hout
        obtain rfl := Except.ok.inj hout
        refine ⟨_, rfl, mk_relaxes_mk he (Shape.ofRank_relaxes ?_)⟩
        have hdrop : w.axes.length = (ys.drop 2).length := by
          rw [haxes, List.length_drop]
          omega
        rw [List.length_append, List.length_take, length_poolDims w.rounding hdrop (mapError_eq_ok.1 hds), ← hdrop, haxes]
        omega
  · simp only [hall.length_eq]
    exact .check id (fun _ => (poolDims_noStricter w.rounding w.axes (hall.drop 2)).mapError.bind (fun _ _ hds =>
      .ok (mk_relaxes_mk he (Shape.ranked_relaxes_ranked.2 ((hall.take 2).append hds)))))

/-! ## Joining and splitting -/

theorem partOf_noStricter (parts : Nat) {d d' : Dimension} (h : d.relaxes d' = true) :
    NoStricter (fun x y => x.relaxes y = true) (partOf parts d) (partOf parts d') := by
  rcases Dimension.relaxes_iff.1 h with rfl | rfl
  · exact .of_ok (fun _ => rfl)
  · exact (NoStricter.self _).mono (fun _ _ hab => hab ▸ Dimension.relaxes_self _)

theorem replicate_relaxesAll {t t' : TensorType} (h : t.relaxes t' = true) :
    ∀ n, TensorType.RelaxesAll (List.replicate n t) (List.replicate n t')
  | 0 => .nil
  | n + 1 => .cons h (replicate_relaxesAll h n)

theorem split_noStricter (axis : Int) (parts : Nat) (h : x.relaxes x' = true) :
    NoStricter TensorType.RelaxesAll (split axis parts x) (split axis parts x') := by
  obtain ⟨e, s⟩ := x
  obtain ⟨e', s'⟩ := x'
  have he : e.relaxes e' = true := element_relaxes h
  refine .check id (fun _ => ?_)
  rcases Shape.relaxes_cases (shape_relaxes h) with rfl | ⟨xs, ys, rfl, rfl, hall⟩
  · cases s' with
    | unknown => exact .ok (replicate_relaxesAll (mk_relaxes_mk he (Shape.unknown_relaxes _)) parts)
    | ranked ys => exact .of_bind (fun _ => .of_bind (fun _ => .ok (replicate_relaxesAll (mk_relaxes_mk he (Shape.unknown_relaxes _)) parts)))
  · simp only [hall.length_eq]
    refine (NoStricter.self _).bind (fun _ i hi => ?_)
    rw [hi]
    exact (partOf_noStricter parts (hall.getD i)).bind (fun _ _ hd =>
      .ok (replicate_relaxesAll (mk_relaxes_mk he (Shape.ranked_relaxes_ranked.2 (hall.set hd i))) parts))

/-- Apart from the axis, what is joined so far is not lost. -/
theorem set_dynamic_relaxes_appendDims {mismatch overflow : InferError} : ∀ {axis : Nat} {as bs ds : List Dimension},
    as.length = bs.length → appendDims mismatch overflow axis as bs = .ok ds → RelaxesAll (as.set axis .dynamic) ds
  | 0, a :: as, b :: bs, ds, hlen, h => by
    rw [appendDims] at h
    cases hsum : a.add? b with
    | none =>
      rw [hsum] at h
      cases h
    | some d =>
      rw [hsum] at h
      obtain ⟨_, -, h⟩ := bind_eq_ok.1 h
      obtain ⟨rest, hrest, h⟩ := bind_eq_ok.1 h
      obtain rfl := Except.ok.inj h
      exact .cons rfl (Dimension.relaxes_zipEach_merge (Nat.succ.inj hlen) (mapError_eq_ok.1 hrest)).1
  | axis + 1, a :: as, b :: bs, ds, hlen, h => by
    rw [appendDims] at h
    obtain ⟨d, hd, h⟩ := bind_eq_ok.1 h
    obtain ⟨rest, hrest, h⟩ := bind_eq_ok.1 h
    obtain rfl := Except.ok.inj h
    exact .cons (Dimension.relaxes_merge (mapError_eq_ok.1 hd)).1
      (set_dynamic_relaxes_appendDims (Nat.succ.inj hlen) hrest)
  | 0, [], [], _, _, h => Except.ok.inj h ▸ .nil
  | _ + 1, [], [], _, _, h => Except.ok.inj h ▸ .nil

theorem appendDims_noStricter {mismatch mismatch' overflow overflow' : InferError} :
    ∀ (axis : Nat) {as as' bs bs' : List Dimension}, RelaxesAll as as' → RelaxesAll bs bs' →
      NoStricter RelaxesAll (appendDims mismatch overflow axis as bs) (appendDims mismatch' overflow' axis as' bs')
  | 0, _, _, _, _, .cons (a := a) (b := a') ha has, .cons (a := b) (b := b') hb hbs => by
    rw [appendDims, appendDims]
    cases hsum' : a'.add? b' with
    | none => exact .of_error _
    | some d' =>
      obtain ⟨d, hsum, hd⟩ := Dimension.add?_relaxes ha hb hsum'
      rw [hsum]
      exact (Dimension.zipEach_noStricter Dimension.merge_noStricter has hbs).mapError.bind (fun _ _ hrest =>
        .ok (.cons hd hrest))
  | axis + 1, _, _, _, _, .cons ha has, .cons hb hbs =>
    (Dimension.merge_noStricter ha hb).mapError.bind (fun _ _ hd =>
      (appendDims_noStricter axis has hbs).bind (fun _ _ hrest => .ok (.cons hd hrest)))
  | 0, _, _, _, _, .nil, _ => .ok .nil
  | _ + 1, _, _, _, _, .nil, _ => .ok .nil
  | 0, _, _, _, _, .cons _ _, .nil => .ok .nil
  | _ + 1, _, _, _, _, .cons _ _, .nil => .ok .nil

section

variable {first : Shape} {axis : Nat} {joined joined' ds : List Dimension}

/-- An input of unknown rank would leave less than any other. -/
theorem set_dynamic_relaxes_appendInput (h : appendInput first axis joined x = .ok ds) :
    RelaxesAll (joined.set axis .dynamic) ds := by
  unfold appendInput at h
  split at h
  · exact Except.ok.inj h ▸ .refl _
  · split at h
    · cases h
    · rename_i hlen
      exact set_dynamic_relaxes_appendDims (not_not.1 hlen).symm h

theorem length_appendInput (h : appendInput first axis joined x = .ok ds) : ds.length = joined.length := by
  rw [← (set_dynamic_relaxes_appendInput h).length_eq, List.length_set]

/-- An input whose rank is known has the rank of what is joined. -/
theorem rank_of_appendInput (h : appendInput first axis joined x = .ok ds) {dims : List Dimension}
    (hx : x.shape.dims? = some dims) : dims.length = joined.length := by
  unfold appendInput at h
  split at h
  · rename_i hs
    rw [hs] at hx
    cases hx
  · rename_i dims' hs
    rw [hs] at hx
    obtain rfl := Option.some.inj hx
    split at h
    · cases h
    · rename_i hlen
      exact not_not.1 hlen

theorem rank_of_foldlM_appendInput : ∀ {inputs : List TensorType} {joined : List Dimension},
    inputs.foldlM (appendInput first axis) joined = .ok ds →
      ∀ t ∈ inputs, ∀ {dims}, t.shape.dims? = some dims → dims.length = joined.length
  | u :: inputs, joined, h, t, ht, dims, hdims => by
    rw [List.foldlM_cons] at h
    obtain ⟨next, hnext, h⟩ := bind_eq_ok.1 h
    rcases List.mem_cons.1 ht with rfl | ht
    · exact rank_of_appendInput hnext hdims
    · rw [← length_appendInput hnext]
      exact rank_of_foldlM_appendInput h t ht hdims

theorem appendInput_noStricter (first first' : Shape) (hjoined : RelaxesAll joined joined') (h : x.relaxes x' = true) :
    NoStricter RelaxesAll (appendInput first axis joined x) (appendInput first' axis joined' x') := by
  obtain ⟨e, s⟩ := x
  obtain ⟨e', s'⟩ := x'
  rcases Shape.relaxes_cases (shape_relaxes h) with rfl | ⟨xs, ys, rfl, rfl, hall⟩
  · intro ds hds
    exact ⟨_, rfl, (hjoined.set rfl axis).trans (set_dynamic_relaxes_appendInput hds)⟩
  · unfold appendInput
    simp only [hall.length_eq, hjoined.length_eq]
    exact .check id (fun _ => appendDims_noStricter axis hjoined hall)

end

/-- The first rank that is known of the inputs is known of one of them when more is known. -/
theorem rank_of_findSome? {general specific : List TensorType} (h : TensorType.RelaxesAll general specific)
    {first : List Dimension} (hfirst : general.findSome? (·.shape.dims?) = some first) :
    ∃ t ∈ specific, ∃ dims, t.shape.dims? = some dims ∧ dims.length = first.length := by
  induction h with
  | nil => cases hfirst
  | @cons x x' _ _ hx _ ih =>
    rw [List.findSome?_cons] at hfirst
    rcases Shape.relaxes_cases (shape_relaxes hx) with hs | ⟨xs, ys, hs, hs', hall⟩
    · rw [hs] at hfirst
      obtain ⟨t, ht, dims, hdims⟩ := ih hfirst
      exact ⟨t, List.mem_cons_of_mem _ ht, dims, hdims⟩
    · rw [hs] at hfirst
      obtain rfl := Option.some.inj hfirst
      exact ⟨x', List.mem_cons_self, ys, by rw [hs']; rfl, hall.length_eq.symm⟩

theorem concat_laxer (axis : Int) {general specific : List TensorType}
    (h : TensorType.RelaxesAll general specific) : Laxer (concat axis general) (concat axis specific) := by
  refine .check (fun hempty => ?_) (fun _ => (mergeElements_noStricter h).bind (fun e e' he => ?_))
  · obtain rfl := List.isEmpty_iff.1 hempty
    obtain rfl := List.forall₂_nil_left_iff.1 h
    rfl
  cases hfirst : general.findSome? (·.shape.dims?) with
  | none =>
    cases specific.findSome? (·.shape.dims?) with
    | none => exact .ok (mk_relaxes_mk he rfl)
    | some first => exact .of_bind (fun _ => .of_bind (fun _ => .ok (mk_relaxes_mk he rfl)))
  | some first =>
    obtain ⟨t, ht, dims, hdims, hlen⟩ := rank_of_findSome? h hfirst
    cases hfirst' : specific.findSome? (·.shape.dims?) with
    | none =>
      rw [List.findSome?_eq_none_iff] at hfirst'
      rw [hfirst' t ht] at hdims
      cases hdims
    | some first' =>
      intro out hout
      obtain ⟨i, hi, hout⟩ := bind_eq_ok.1 hout
      obtain ⟨ds, hfold, hout⟩ := bind_eq_ok.1 hout
      obtain rfl := Except.ok.inj hout
      have hrank : first.length = first'.length := by
        have := rank_of_foldlM_appendInput hfold t ht hdims
        rw [← hlen, this, List.length_set, List.length_replicate]
      obtain ⟨ds', hfold', hrel⟩ := NoStricter.foldlM h (RelaxesAll.refl _)
        (fun _ _ _ _ hab hst => appendInput_noStricter (.ranked first) _ hab hst) ds hfold
      refine ⟨⟨e, .ranked ds'⟩, ?_, mk_relaxes_mk he (Shape.ranked_relaxes_ranked.2 hrel)⟩
      simp only [hrank]
      exact bind_eq_ok.2 ⟨i, hi, bind_eq_ok.2 ⟨ds', hfold', rfl⟩⟩

/-! ## Sequences -/

theorem resolve?_of_nonneg {axis : Int} (haxis : 0 ≤ axis) {rank index : Nat} (h : Axis.resolve? rank axis = some index) :
    index = axis.toNat := by
  unfold Axis.resolve? at h
  simp only [Int.not_lt.2 haxis, if_false] at h
  split at h
  · exact (Option.some.inj h).symm
  · cases h

/-- An axis that does not count from the end needs no rank. -/
theorem normalize_noStricter {axis : Int} {rank rank' : Option Nat} (hrank : rank = none ∨ rank = rank')
    (haxis : rank = none → 0 ≤ axis) : NoStricter Eq (Axis.normalize axis rank) (Axis.normalize axis rank') := by
  rcases hrank with rfl | rfl
  · intro index h
    refine ⟨axis.toNat, if_pos (haxis rfl), ?_⟩
    cases rank' with
    | none =>
      rw [Axis.normalize, if_pos (haxis rfl)] at h
      exact Except.ok.inj h
    | some r =>
      cases hres : Axis.resolve? r axis with
      | none =>
        rw [Axis.normalize, hres] at h
        cases h
      | some i =>
        rw [Axis.normalize, hres] at h
        rw [← Except.ok.inj h, resolve?_of_nonneg (haxis rfl) hres]
  · exact .self _

theorem relaxesAll_set_right {xs ys : List Dimension} (h : RelaxesAll xs ys) (i : Nat) {y : Dimension}
    (hy : (xs.getD i .dynamic).relaxes y = true) : RelaxesAll xs (ys.set i y) := by
  induction h generalizing i with
  | nil => exact .nil
  | cons hxy hall ih =>
    cases i with
    | zero => exact .cons hy hall
    | succ i => exact .cons hxy (ih i hy)

theorem joinLengths_noStricter (batchAxis : Nat) {y y' : TensorType} (hx : x.relaxes x' = true)
    (hy : y.relaxes y' = true) :
    NoStricter (fun s t => s.relaxes t = true) (joinLengths batchAxis x y) (joinLengths batchAxis x' y') := by
  obtain ⟨ex, sx⟩ := x
  obtain ⟨ex', sx'⟩ := x'
  obtain ⟨ey, sy⟩ := y
  obtain ⟨ey', sy'⟩ := y'
  have hs : sx.relaxes sx' = true := shape_relaxes hx
  rcases Shape.relaxes_cases (shape_relaxes hy) with rfl | ⟨ls, ls', rfl, rfl, hls⟩
  · -- the lengths say nothing: the general answer is the shape of the data
    unfold joinLengths
    intro s h
    refine ⟨sx, rfl, ?_⟩
    split at h
    · exact Except.ok.inj h ▸ hs
    · rename_i l _
      rcases Shape.relaxes_cases hs with rfl | ⟨xs, ys, rfl, rfl, hall⟩
      · rfl
      · obtain ⟨d, hd, h⟩ := bind_eq_ok.1 h
        obtain rfl := Except.ok.inj h
        have hmerged := (Dimension.relaxes_merge (mapError_eq_ok.1 hd)).1
        exact Shape.ranked_relaxes_ranked.2
          (relaxesAll_set_right hall batchAxis (Dimension.relaxes_trans (hall.getD batchAxis) hmerged))
    · cases h
  · match ls, ls', hls with
    | _, _, .nil => exact .of_error _
    | _, _, .cons _ (.cons _ _) => exact .of_error _
    | _, _, .cons hl .nil =>
      unfold joinLengths
      rcases Shape.relaxes_cases hs with rfl | ⟨xs, ys, rfl, rfl, hall⟩
      · exact .of_ok Shape.unknown_relaxes
      · exact (Dimension.merge_noStricter (hall.getD batchAxis) hl).mapError.bind (fun _ _ hd =>
          .ok (Shape.ranked_relaxes_ranked.2 (hall.set hd batchAxis)))

theorem reverseSequence_laxer (batchAxis seqAxis : Int) {y y' : TensorType} (hx : x.relaxes x' = true)
    (hy : y.relaxes y' = true) (hbatch : x.rank? = none → 0 ≤ batchAxis) (hseq : x.rank? = none → 0 ≤ seqAxis) :
    Laxer (reverseSequence batchAxis seqAxis x y) (reverseSequence batchAxis seqAxis x' y') := by
  have hrank : x.rank? = none ∨ x.rank? = x'.rank? := by
    cases hr : x.rank? with
    | none => exact Or.inl rfl
    | some r => exact Or.inr (TensorType.rank?_of_relaxes hx hr).symm
  refine (normalize_noStricter hrank hbatch).bind (fun _ batch hb => ?_)
  refine (normalize_noStricter hrank hseq).bind (fun _ _ _ => ?_)
  refine .check (fun hints => ?_) (fun _ => ?_)
  · cases hints' : holdsInts y'.element with
    | false => rfl
    | true =>
      rw [holdsInts_of_relaxes hy hints'] at hints
      cases hints
  · rw [hb]
    exact (joinLengths_noStricter batch hx hy).bind (fun _ _ hs => .ok (mk_relaxes_mk (element_relaxes hx) hs))

/-- Without a rank, the first negative axis is what is refused. -/
theorem reverseSequence_of_negative {batchAxis seqAxis : Int} {y : TensorType} (hx : x.rank? = none)
    (hneg : batchAxis < 0 ∨ seqAxis < 0) :
    ∃ axis < 0, (axis = batchAxis ∨ axis = seqAxis) ∧
      reverseSequence batchAxis seqAxis x y = .error (.dynamicRank axis) := by
  unfold reverseSequence
  rw [hx]
  by_cases hbatch : batchAxis < 0
  · refine ⟨batchAxis, hbatch, Or.inl rfl, ?_⟩
    rw [Axis.normalize, if_neg (Int.not_le.2 hbatch)]
    rfl
  · have hseq : seqAxis < 0 := hneg.resolve_left hbatch
    refine ⟨seqAxis, hseq, Or.inr rfl, ?_⟩
    rw [Axis.normalize, if_pos (Int.not_lt.1 hbatch), Axis.normalize, if_neg (Int.not_le.2 hseq)]
    rfl

end Infer
end TensorGraph
