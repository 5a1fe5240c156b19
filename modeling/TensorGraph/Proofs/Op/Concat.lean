import TensorGraph.Op.Infer
import TensorGraph.Proofs.Information.Join
import TensorGraph.Proofs.Op.Axes
/-!
# Joining — parts give back the whole, and joining nests to the left

A join starts with nothing: a size of zero along the axis, and no claim about the other dimensions.  An input whose other
dimensions claim no less than what is joined so far settles them, and adds its size along the axis (`appendInput_ranked`).
Both results are runs of this step.  The parts of a tensor agree beside the axis, so that only their sizes are added up.
And what some inputs are joined to, put after nothing, leaves just what they left; the rest cannot tell the difference.
-/
namespace TensorGraph

open Dimension (RelaxesAll)

namespace Dimension

/-- A claim merged with a stronger one gives the stronger one. -/
theorem merge_of_relaxes {a b : Dimension} (h : a.relaxes b = true) : a.merge b = .ok b := by
  rcases relaxes_iff.1 h with rfl | rfl
  · rfl
  · exact merge_self a

theorem zipEach_merge_of_relaxes {xs ys : List Dimension} (h : RelaxesAll xs ys) : zipEach merge xs ys = .ok ys := by
  induction h with
  | nil => rfl
  | cons hxy _ ih =>
    rw [zipEach, merge_of_relaxes hxy, ih]
    rfl

theorem zero_add? {d : Dimension} (h : d.Sized) : (fixed 0).add? d = some d := by
  cases d with
  | fixed n => simp [add?, sized_fixed.1 h]
  | dynamic => rfl

theorem sized_of_add? {a b d : Dimension} (h : a.add? b = some d) : d.Sized := by
  cases a <;> cases b <;> simp only [add?] at h
  case fixed.fixed =>
    split at h
    · rename_i hlt
      exact Option.some.inj h ▸ sized_fixed.2 hlt
    · cases h
  all_goals exact Option.some.inj h ▸ nofun

theorem foldlM_add?_fixed (q : Nat) : ∀ (n a : Nat), a + n * q < sizeLimit →
    (List.replicate n (fixed q)).foldlM add? (fixed a) = some (fixed (a + n * q))
  | 0, a, _ => by simp
  | n + 1, a, h => by
    rw [Nat.succ_mul, Nat.add_comm (n * q), ← Nat.add_assoc] at h ⊢
    rw [List.replicate_succ, List.foldlM_cons, add?, if_pos (by omega)]
    exact foldlM_add?_fixed q n (a + q) h

theorem foldlM_add?_dynamic : ∀ (n : Nat) (a : Dimension),
    (List.replicate (n + 1) dynamic).foldlM add? a = some dynamic
  | 0, a => by cases a <;> rfl
  | n + 1, a => by
    have hsum : a.add? dynamic = some dynamic := by cases a <;> rfl
    rw [List.replicate_succ, List.foldlM_cons, hsum]
    exact foldlM_add?_dynamic n dynamic

end Dimension

theorem Axis.lt_of_normalize {axis : Int} {rank index : Nat} (h : Axis.normalize axis (some rank) = .ok index) :
    index < rank := by
  have hword : Axis.signedWord rank ≤ rank := by
    unfold Axis.signedWord Int.bmod
    have hmod : rank % sizeLimit ≤ rank := Nat.mod_le rank sizeLimit
    simp only
    split <;> omega
  unfold Axis.normalize Axis.resolve? at h
  grind

namespace Infer

variable {x p t : TensorType} {e : ElementType} {first : Shape} {axis : Nat} {a b c : Dimension}
  {as dims joined ds : List Dimension} {inputs front rest outs : List TensorType}

/-- What is joined before the first input. -/
def nothingJoined (rank axis : Nat) : List Dimension := (List.replicate rank Dimension.dynamic).set axis (.fixed 0)

@[simp] theorem length_nothingJoined (rank axis : Nat) : (nothingJoined rank axis).length = rank := by
  rw [nothingJoined, List.length_set, List.length_replicate]

/-! ## One input -/

theorem appendDims_set {mismatch overflow : InferError} : ∀ {axis : Nat} {as dims : List Dimension},
    RelaxesAll as dims → dims[axis]? = some b → a.add? b = some c →
      appendDims mismatch overflow axis (as.set axis a) dims = .ok (dims.set axis c)
  | _, _, _, .nil, hb, _ => nomatch hb
  | 0, _, _, .cons _ hs, hb, hsum => by
    obtain rfl := Option.some.inj hb
    rw [List.set_cons_zero, appendDims, hsum, Dimension.zipEach_merge_of_relaxes hs]
    rfl
  | axis + 1, _, _, .cons hd hs, hb, hsum => by
    rw [List.set_cons_succ, appendDims, Dimension.merge_of_relaxes hd, appendDims_set hs hb hsum]
    rfl

/-- **An input that claims no less than what is joined beside the axis** settles the other dimensions, and is added. -/
theorem appendInput_ranked (first : Shape) (e : ElementType) (h : RelaxesAll as dims) (hb : dims[axis]? = some b)
    (hsum : a.add? b = some c) : appendInput first axis (as.set axis a) ⟨e, .ranked dims⟩ = .ok (dims.set axis c) := by
  unfold appendInput
  simp only
  rw [if_neg (by simp [h.length_eq])]
  exact appendDims_set h hb hsum

theorem appendInput_unknown (h : x.shape = .unknown) :
    appendInput first axis joined x = .ok (joined.set axis .dynamic) := by
  rw [appendInput, h]

theorem sized_of_appendDims {mismatch overflow : InferError} {bs : List Dimension}
    (h : appendDims mismatch overflow axis as bs = .ok ds) (hc : ds[axis]? = some c) : c.Sized := by
  fun_induction appendDims mismatch overflow axis as bs generalizing ds with
  | case1 a as b bs _ d =>
    rename_i hsum
    obtain ⟨sum, hd, h⟩ := bind_eq_ok.1 h
    obtain ⟨rest, -, h⟩ := bind_eq_ok.1 h
    obtain rfl := Except.ok.inj h
    obtain rfl := Except.ok.inj hd
    obtain rfl := Option.some.inj hc
    exact Dimension.sized_of_add? hsum
  | case2 => cases h
  | case3 axis a as b bs ih =>
    obtain ⟨d, -, h⟩ := bind_eq_ok.1 h
    obtain ⟨rest, hrest, h⟩ := bind_eq_ok.1 h
    obtain rfl := Except.ok.inj h
    exact ih hrest hc
  | case4 =>
    obtain rfl := Except.ok.inj h
    cases hc

/-- What is joined along the axis fits a word. -/
theorem sized_of_appendInput (h : appendInput first axis joined x = .ok ds) (hc : ds[axis]? = some c) : c.Sized := by
  unfold appendInput at h
  split at h
  · obtain rfl := Except.ok.inj h
    rw [List.getElem?_set_self'] at hc
    obtain ⟨_, -, rfl⟩ := Option.map_eq_some_iff.1 hc
    nofun
  · split at h
    · cases h
    · exact sized_of_appendDims h hc

/-! ## Several inputs -/

theorem length_foldlM_appendInput : ∀ {inputs : List TensorType} {joined : List Dimension},
    inputs.foldlM (appendInput first axis) joined = .ok ds → ds.length = joined.length
  | [], _, h => Except.ok.inj h ▸ rfl
  | x :: inputs, joined, h => by
    rw [List.foldlM_cons] at h
    obtain ⟨next, hnext, h⟩ := bind_eq_ok.1 h
    rw [length_foldlM_appendInput h, length_appendInput hnext]

theorem sized_of_foldlM_appendInput : ∀ {inputs : List TensorType} {joined : List Dimension},
    inputs.foldlM (appendInput first axis) joined = .ok ds → (∀ c, joined[axis]? = some c → c.Sized) →
      ∀ c, ds[axis]? = some c → c.Sized
  | [], _, h, hjoined => Except.ok.inj h ▸ hjoined
  | x :: inputs, joined, h, _ => by
    rw [List.foldlM_cons] at h
    obtain ⟨next, hnext, h⟩ := bind_eq_ok.1 h
    exact sized_of_foldlM_appendInput h (fun _ => sized_of_appendInput hnext)

/-- The shape that gave the rank is only named in errors. -/
theorem foldlM_appendInput_of_first (first' : Shape) (h : inputs.foldlM (appendInput first axis) joined = .ok ds) :
    inputs.foldlM (appendInput first' axis) joined = .ok ds := by
  have hsame : ∀ first first' : Shape, NoStricter RelaxesAll (inputs.foldlM (appendInput first axis) joined)
      (inputs.foldlM (appendInput first' axis) joined) := fun first first' =>
    NoStricter.foldlM (List.forall₂_same.2 (fun x _ => x.relaxes_self)) (RelaxesAll.refl joined)
      (fun _ _ _ _ hjoined hx => appendInput_noStricter first first' hjoined hx)
  -- each is no stricter than the other, so they leave the same
  obtain ⟨ds', hds', hle⟩ := hsame first' first ds h
  obtain ⟨ds'', hds'', hle'⟩ := hsame first first' ds' hds'
  obtain rfl := Except.ok.inj (h.symm.trans hds'')
  exact hle.antisymm hle' ▸ hds'

theorem findSome?_dims?_eq_none_iff :
    inputs.findSome? (·.shape.dims?) = none ↔ ∀ x ∈ inputs, x.shape = .unknown := by
  rw [List.findSome?_eq_none_iff]
  refine forall₂_congr (fun x _ => ?_)
  cases x.shape <;> simp [Shape.dims?]

theorem foldlM_appendInput_unknown : ∀ {inputs : List TensorType} {joined : List Dimension}, inputs ≠ [] →
    (∀ x ∈ inputs, x.shape = .unknown) →
      inputs.foldlM (appendInput first axis) joined = .ok (joined.set axis .dynamic)
  | [], _, hne, _ => absurd rfl hne
  | x :: inputs, joined, _, h => by
    rw [List.foldlM_cons, appendInput_unknown (h x List.mem_cons_self)]
    by_cases hinputs : inputs = []
    · rw [hinputs]
      rfl
    · refine (foldlM_appendInput_unknown hinputs (fun y hy => h y (List.mem_cons_of_mem x hy))).trans ?_
      rw [List.set_set]

/-- **Inputs that agree beside the axis** have their sizes along it added up. -/
theorem foldlM_appendInput_parts (haxis : axis < dims.length) : ∀ {parts : List Dimension} {a : Dimension},
    parts.foldlM Dimension.add? a = some c →
      (parts.map (fun part => ⟨e, .ranked (dims.set axis part)⟩)).foldlM (appendInput first axis) (dims.set axis a) =
        .ok (dims.set axis c)
  | [], a, h => by
    obtain rfl := Option.some.inj h
    rfl
  | part :: parts, a, h => by
    rw [List.foldlM_cons] at h
    obtain ⟨d, hd, h⟩ := Option.bind_eq_some_iff.1 h
    have hpart : (dims.set axis part)[axis]? = some part := List.getElem?_set_self haxis
    have hstep := appendInput_ranked first e (RelaxesAll.refl (dims.set axis part)) hpart hd
    rw [List.set_set, List.set_set] at hstep
    rw [List.map_cons, List.foldlM_cons, hstep]
    exact foldlM_appendInput_parts haxis h

theorem foldlM_appendInput_nothing (first : Shape) (e : ElementType) {parts : List Dimension}
    (haxis : axis < dims.length) (hne : parts ≠ []) (h : parts.foldlM Dimension.add? (.fixed 0) = some c) :
    (parts.map (fun part => ⟨e, .ranked (dims.set axis part)⟩)).foldlM (appendInput first axis)
      (nothingJoined dims.length axis) = .ok (dims.set axis c) := by
  cases parts with
  | nil => exact absurd rfl hne
  | cons part parts =>
    rw [List.foldlM_cons] at h
    obtain ⟨d, hd, h⟩ := Option.bind_eq_some_iff.1 h
    have hnothing : RelaxesAll (List.replicate dims.length .dynamic) (dims.set axis part) := by
      rw [← List.length_set (i := axis) (a := part)]
      exact .replicate_dynamic _
    have hpart : (dims.set axis part)[axis]? = some part := List.getElem?_set_self haxis
    have hstep := appendInput_ranked first e hnothing hpart hd
    rw [List.set_set] at hstep
    rw [List.map_cons, List.foldlM_cons, nothingJoined, hstep]
    exact foldlM_appendInput_parts haxis h

theorem sized_of_nothingJoined {rank : Nat} (hc : (nothingJoined rank axis)[axis]? = some c) : c.Sized := by
  rw [nothingJoined, List.getElem?_set_self'] at hc
  obtain ⟨_, -, rfl⟩ := Option.map_eq_some_iff.1 hc
  exact Dimension.sized_fixed.2 (by decide)

/-- **What was joined, put after nothing, leaves what it was.** -/
theorem appendInput_of_foldlM (first' : Shape) (e : ElementType) {rank : Nat} (haxis : axis < rank)
    (h : inputs.foldlM (appendInput first axis) (nothingJoined rank axis) = .ok ds) :
    appendInput first' axis (nothingJoined rank axis) ⟨e, .ranked ds⟩ = .ok ds := by
  obtain rfl : ds.length = rank := (length_foldlM_appendInput h).trans (length_nothingJoined rank axis)
  have hget : ds[axis]? = some ds[axis] := List.getElem?_eq_getElem haxis
  have hsized : ds[axis].Sized := sized_of_foldlM_appendInput h (fun _ => sized_of_nothingJoined) _ hget
  have hstep := appendInput_ranked first' e (RelaxesAll.replicate_dynamic ds) hget (Dimension.zero_add? hsized)
  rwa [List.set_getElem_self] at hstep

/-! ## Element types -/

theorem joinElement_self (x : TensorType) : joinElement x.element x = .ok x.element := by
  rw [joinElement, ElementType.merge_self]
  rfl

theorem foldlM_joinElement_replicate (x : TensorType) : ∀ n : Nat,
    (List.replicate n x).foldlM joinElement x.element = .ok x.element
  | 0 => rfl
  | n + 1 => by
    rw [List.replicate_succ, List.foldlM_cons, joinElement_self]
    exact foldlM_joinElement_replicate x n

theorem mergeElements_append (h : mergeElements front = .ok p.element) :
    mergeElements (front ++ rest) = mergeElements (p :: rest) := by
  rw [mergeElements_cons, mergeElements, List.foldlM_append]
  exact congrArg (· >>= fun e => rest.foldlM joinElement e) h

/-! ## Joining -/

/-- **The inputs are joined**, one after the other, to dimensions of some rank. -/
def Joins (axis : Int) (rank : Nat) (inputs : List TensorType) (ds : List Dimension) : Prop :=
  ∃ i, Axis.normalize axis (some rank) = .ok i ∧
    inputs.foldlM (appendInput .unknown i) (nothingJoined rank i) = .ok ds

theorem Joins.length {axis : Int} {rank : Nat} (h : Joins axis rank inputs ds) : ds.length = rank := by
  obtain ⟨i, -, hds⟩ := h
  rw [length_foldlM_appendInput hds, length_nothingJoined]

/-- The rest is joined to what the front left, and this can be had at once. -/
theorem Joins.append_iff {axis : Int} {rank : Nat} {zs : List Dimension} (h : Joins axis rank front ds) (e : ElementType) :
    Joins axis rank (front ++ rest) zs ↔ Joins axis rank (⟨e, .ranked ds⟩ :: rest) zs := by
  obtain ⟨i, hi, hds⟩ := h
  refine exists_congr (fun j => and_congr_right (fun hj => ?_))
  obtain rfl := Except.ok.inj (hi.symm.trans hj)
  rw [List.foldlM_append, List.foldlM_cons, hds, appendInput_of_foldlM .unknown e (Axis.lt_of_normalize hi) hds]

/-- Inputs of unknown rank leave what one of them does. -/
theorem joins_append_iff_of_unknown {axis : Int} {rank : Nat} {zs : List Dimension} (hne : front ≠ [])
    (hfront : ∀ x ∈ front, x.shape = .unknown) (hp : p.shape = .unknown) :
    Joins axis rank (front ++ rest) zs ↔ Joins axis rank (p :: rest) zs := by
  refine exists_congr (fun i => and_congr_right (fun _ => ?_))
  rw [List.foldlM_append, List.foldlM_cons, foldlM_appendInput_unknown hne hfront, appendInput_unknown hp]

theorem concat_eq_ok_of_unknown {axis : Int} (hne : inputs ≠ []) (h : ∀ x ∈ inputs, x.shape = .unknown) :
    concat axis inputs = .ok t ↔ mergeElements inputs = .ok t.element ∧ t.shape = .unknown := by
  obtain ⟨e, s⟩ := t
  rw [concat, if_neg (by simpa using hne), findSome?_dims?_eq_none_iff.2 h]
  constructor
  · intro h
    obtain ⟨e', he, h⟩ := bind_eq_ok.1 h
    obtain ⟨rfl, rfl⟩ := TensorType.mk.inj (Except.ok.inj h)
    exact ⟨he, rfl⟩
  · rintro ⟨he, rfl⟩
    exact bind_eq_ok.2 ⟨e, he, rfl⟩

theorem concat_eq_ok_of_ranked {axis : Int} {first : List Dimension}
    (hfirst : inputs.findSome? (·.shape.dims?) = some first) : concat axis inputs = .ok t ↔
      mergeElements inputs = .ok t.element ∧ ∃ ds, Joins axis first.length inputs ds ∧ t.shape = .ranked ds := by
  have hne : inputs.isEmpty ≠ true := by
    intro hempty
    rw [List.isEmpty_iff.1 hempty] at hfirst
    cases hfirst
  obtain ⟨e, s⟩ := t
  rw [concat, if_neg hne, hfirst]
  constructor
  · intro h
    obtain ⟨e', he, h⟩ := bind_eq_ok.1 h
    obtain ⟨i, hi, h⟩ := bind_eq_ok.1 h
    obtain ⟨ds, hds, h⟩ := bind_eq_ok.1 h
    obtain ⟨rfl, rfl⟩ := TensorType.mk.inj (Except.ok.inj h)
    exact ⟨he, ds, ⟨i, hi, foldlM_appendInput_of_first .unknown hds⟩, rfl⟩
  · rintro ⟨he, ds, ⟨i, hi, hds⟩, rfl⟩
    exact bind_eq_ok.2 ⟨e, he, bind_eq_ok.2 ⟨i, hi, bind_eq_ok.2 ⟨ds, foldlM_appendInput_of_first _ hds, rfl⟩⟩⟩

/-- The equal parts of a size add up to it. -/
theorem foldlM_add?_of_partOf {parts : Nat} {d part : Dimension} (hparts : parts ≠ 0) (hd : d.Sized)
    (h : partOf parts d = .ok part) : (List.replicate parts part).foldlM Dimension.add? (.fixed 0) = some d := by
  cases d with
  | dynamic =>
    obtain rfl := Except.ok.inj h
    obtain ⟨n, rfl⟩ := Nat.exists_eq_succ_of_ne_zero hparts
    exact Dimension.foldlM_add?_dynamic n (.fixed 0)
  | fixed size =>
    rw [partOf] at h
    split at h
    · rename_i hmod
      obtain rfl := Except.ok.inj h
      have hsize : 0 + parts * (size / parts) = size := by
        rw [Nat.zero_add, Nat.mul_div_cancel' (Nat.dvd_of_mod_eq_zero hmod)]
      have hsum := Dimension.foldlM_add?_fixed (size / parts) parts 0
      rw [hsize] at hsum
      exact hsum (Dimension.sized_fixed.1 hd)
    · cases h

/-- **Parts are joined to the whole.** -/
theorem concat_of_split {axis : Int} {parts : Nat} (hsized : x.Sized) (h : split axis parts x = .ok outs) :
    concat axis outs = .ok x := by
  obtain ⟨e, s⟩ := x
  unfold split at h
  split at h
  · cases h
  rename_i hparts
  have helements : ∀ s, mergeElements (List.replicate parts ⟨e, s⟩) = .ok e := by
    intro s
    obtain ⟨n, rfl⟩ := Nat.exists_eq_succ_of_ne_zero hparts
    exact (mergeElements_cons _ _).trans (foldlM_joinElement_replicate ⟨e, s⟩ n)
  cases s with
  | unknown =>
    obtain rfl := Except.ok.inj h
    exact (concat_eq_ok_of_unknown (by simpa using hparts) (fun x hx => (List.eq_of_mem_replicate hx) ▸ rfl)).2
      ⟨helements _, rfl⟩
  | ranked dims =>
    obtain ⟨i, hi, h⟩ := bind_eq_ok.1 h
    obtain ⟨part, hpart, h⟩ := bind_eq_ok.1 h
    obtain rfl := Except.ok.inj h
    have hlt := Axis.lt_of_normalize hi
    have hd : dims.getD i .dynamic = dims[i] := by simp [List.getD, hlt]
    rw [hd] at hpart
    have hsum := foldlM_add?_of_partOf hparts (hsized _ (List.getElem_mem hlt)) hpart
    have hfirst : (List.replicate parts (TensorType.mk e (.ranked (dims.set i part)))).findSome? (·.shape.dims?) =
        some (dims.set i part) := by
      obtain ⟨n, rfl⟩ := Nat.exists_eq_succ_of_ne_zero hparts
      rfl
    have hjoins : Joins axis (dims.set i part).length (List.replicate parts ⟨e, .ranked (dims.set i part)⟩) dims := by
      rw [List.length_set]
      have hfold := foldlM_appendInput_nothing .unknown e hlt (by simpa using hparts) hsum
      rw [List.map_replicate, List.set_getElem_self] at hfold
      exact ⟨i, hi, hfold⟩
    exact (concat_eq_ok_of_ranked hfirst).2 ⟨helements _, dims, hjoins, rfl⟩

/-- **What some inputs are joined to can stand for them.** -/
theorem concat_append {axis : Int} (hp : concat axis front = .ok p) :
    concat axis (front ++ rest) = .ok t ↔ concat axis (p :: rest) = .ok t := by
  have hne : front ≠ [] := by
    rintro rfl
    cases hp
  cases hfront : front.findSome? (·.shape.dims?) with
  | none =>
    -- neither the front nor what it is joined to has a rank, so the rest gives it on both sides
    have hunknown := findSome?_dims?_eq_none_iff.1 hfront
    obtain ⟨he, hs⟩ := (concat_eq_ok_of_unknown hne hunknown).1 hp
    cases hrest : rest.findSome? (·.shape.dims?) with
    | none =>
      have hunknown' := findSome?_dims?_eq_none_iff.1 hrest
      rw [concat_eq_ok_of_unknown (by simp [hne]) (List.forall_mem_append.2 ⟨hunknown, hunknown'⟩),
        concat_eq_ok_of_unknown (List.cons_ne_nil p rest) (List.forall_mem_cons.2 ⟨hs, hunknown'⟩),
        mergeElements_append he]
    | some first =>
      have hfirst : (front ++ rest).findSome? (·.shape.dims?) = some first := by
        rw [List.findSome?_append, hfront, hrest, Option.none_or]
      have hfirst' : (p :: rest).findSome? (·.shape.dims?) = some first := by
        rw [List.findSome?_cons, hs]
        exact hrest
      rw [concat_eq_ok_of_ranked hfirst, concat_eq_ok_of_ranked hfirst', mergeElements_append he]
      simp only [joins_append_iff_of_unknown hne hunknown hs]
  | some first =>
    -- the front gives the rank, and what it is joined to has kept it
    obtain ⟨he, ds, hds, hs⟩ := (concat_eq_ok_of_ranked hfront).1 hp
    obtain ⟨e, s⟩ := p
    obtain rfl : s = .ranked ds := hs
    have hfirst : (front ++ rest).findSome? (·.shape.dims?) = some first := by
      rw [List.findSome?_append, hfront, Option.some_or]
    have hfirst' : (⟨e, .ranked ds⟩ :: rest : List TensorType).findSome? (·.shape.dims?) = some ds := rfl
    rw [concat_eq_ok_of_ranked hfirst, concat_eq_ok_of_ranked hfirst', mergeElements_append he, hds.length]
    simp only [hds.append_iff e]

end Infer

namespace Op

variable {axis : Int} {values : List (Option ConstantData)}

theorem validate_concat {ins outs : List TensorType} :
    (concat axis).validate ins values = .ok outs ↔ ∃ t, Infer.concat axis ins = .ok t ∧ outs = [t] := by
  cases ins with
  | nil => exact ⟨nofun, fun ⟨_, h, _⟩ => nomatch h⟩
  | cons x ins =>
    rw [validate, if_pos (by simp [type, OpType.arity, Arity.accepts]), inferTypes]
    exact single_eq_ok

theorem validate_split {parts : Nat} {x : TensorType} :
    (split axis parts).validate [x] values = Infer.split axis parts x := rfl

end Op

/-- **Joining undoes splitting, and nests to the left.**  The parts of a type, whatever is known of it, are joined to that
type.  Inputs of which some front is joined can be joined with its type in their place: this succeeds for the same
inputs, with the same type. -/
theorem concat_undoes_split_and_nests (axis : Int) :
    (∀ (parts : Nat) (x : TensorType) (outs : List TensorType) (values values' : List (Option ConstantData)), x.Sized →
      (Op.split axis parts).validate [x] values = .ok outs → (Op.concat axis).validate outs values' = .ok [x]) ∧
    ∀ (front rest : List TensorType) (p : TensorType) (values values' : List (Option ConstantData)),
      (Op.concat axis).validate front values = .ok [p] → ∀ outs,
        ((Op.concat axis).validate (front ++ rest) values' = .ok outs ↔
          (Op.concat axis).validate (p :: rest) values' = .ok outs) := by
  constructor
  · intro parts x outs values values' hsized h
    rw [Op.validate_split] at h
    exact Op.validate_concat.2 ⟨x, Infer.concat_of_split hsized h, rfl⟩
  · intro front rest p values values' h outs
    obtain ⟨t, hp, ht⟩ := Op.validate_concat.1 h
    obtain rfl := List.singleton_inj.1 ht
    rw [Op.validate_concat, Op.validate_concat]
    exact exists_congr (fun t => and_congr_left (fun _ => Infer.concat_append hp))

/-- Three parts of a size, beside a dimension that is not known; and an input of unknown rank in the front. -/
theorem concat_undoes_split_and_nests_of_rank_two :
    (Op.concat 1).validate (List.replicate 3 ⟨.f32, .ranked [.dynamic, .fixed 2]⟩) [] =
        .ok [⟨.f32, .ranked [.dynamic, .fixed 6]⟩] ∧
      (Op.concat 1).validate [⟨.f32, .ranked [.fixed 3, .fixed 2]⟩, ⟨.dynamic, .unknown⟩,
          ⟨.f32, .ranked [.fixed 3, .fixed 4]⟩] [] =
        .ok [⟨.f32, .ranked [.fixed 3, .dynamic]⟩] := by
  obtain ⟨hsplit, hnest⟩ := concat_undoes_split_and_nests 1
  constructor
  · refine hsplit 3 ⟨.f32, .ranked [.dynamic, .fixed 6]⟩ _ [] [] ?_ rfl
    exact List.forall_mem_cons.2 ⟨nofun, List.forall_mem_cons.2 ⟨Dimension.sized_fixed.2 (by decide), nofun⟩⟩
  · exact (hnest [⟨.f32, .ranked [.fixed 3, .fixed 2]⟩, ⟨.dynamic, .unknown⟩]
      [⟨.f32, .ranked [.fixed 3, .fixed 4]⟩] ⟨.f32, .ranked [.fixed 3, .dynamic]⟩ [] [] rfl _).2 rfl

end TensorGraph
