import TensorGraph.Op.Infer
import TensorGraph.Proofs.Information.Combine
/-!
# Monotone rules: element by element

What the rules share, and the rules for operations that work element by element: each is no
stricter when it is asked about less.  With the number of inputs checked as well, the operations on
two and three inputs accept what their rules do.
-/
namespace TensorGraph

open TensorType (RelaxesAll mk_relaxes_mk rank?_of_relaxes element_relaxes shape_relaxes)

theorem Broadcast.combine_noStricter (b : Broadcast) {s s' t t' : Shape} (hs : s.relaxes s' = true)
    (ht : t.relaxes t' = true) : NoStricter (fun x y => x.relaxes y = true) (b.combine s t) (b.combine s' t') := by
  cases b with
  | exact => exact (Shape.merge_noStricter hs ht).mapError
  | numpy => exact (Shape.broadcast_noStricter hs ht).mapError

namespace Infer

/-! ## The inputs -/

section

variable {general specific : List TensorType}

theorem one_eq_ok {ts : List TensorType} {x : TensorType} : one ts = .ok x ↔ ts = [x] := by
  unfold one
  split
  · simp
  · rename_i hne
    exact ⟨nofun, fun h => absurd h (hne x)⟩

theorem two_eq_ok {ts : List TensorType} {xy : TensorType × TensorType} : two ts = .ok xy ↔ ts = [xy.1, xy.2] := by
  unfold two
  split
  · simp [Prod.ext_iff]
  · rename_i hne
    exact ⟨nofun, fun h => absurd h (hne xy.1 xy.2)⟩

theorem three_eq_ok {ts : List TensorType} {xyz : TensorType × TensorType × TensorType} :
    three ts = .ok xyz ↔ ts = [xyz.1, xyz.2.1, xyz.2.2] := by
  unfold three
  split
  · simp [Prod.ext_iff]
  · rename_i hne
    exact ⟨nofun, fun h => absurd h (hne xyz.1 xyz.2.1 xyz.2.2)⟩

theorem one_noStricter (h : RelaxesAll general specific) :
    NoStricter (fun s t => s.relaxes t = true) (one general) (one specific) := by
  intro t ht
  match h with
  | .nil => cases ht
  | .cons hxy .nil => exact ⟨_, rfl, Except.ok.inj ht ▸ hxy⟩
  | .cons _ (.cons _ _) => cases ht

theorem two_noStricter (h : RelaxesAll general specific) :
    NoStricter (fun s t => s.1.relaxes t.1 = true ∧ s.2.relaxes t.2 = true) (two general) (two specific) := by
  intro t ht
  match h with
  | .nil => cases ht
  | .cons _ .nil => cases ht
  | .cons hx (.cons hy .nil) => exact ⟨_, rfl, Except.ok.inj ht ▸ ⟨hx, hy⟩⟩
  | .cons _ (.cons _ (.cons _ _)) => cases ht

theorem three_noStricter (h : RelaxesAll general specific) :
    NoStricter (fun s t => s.1.relaxes t.1 = true ∧ s.2.1.relaxes t.2.1 = true ∧ s.2.2.relaxes t.2.2 = true)
      (three general) (three specific) := by
  intro t ht
  match h with
  | .nil => cases ht
  | .cons _ .nil => cases ht
  | .cons _ (.cons _ .nil) => cases ht
  | .cons hx (.cons hy (.cons hz .nil)) => exact ⟨_, rfl, Except.ok.inj ht ▸ ⟨hx, hy, hz⟩⟩
  | .cons _ (.cons _ (.cons _ (.cons _ _))) => cases ht

/-- Merging starts from the first input: before it, nothing is claimed. -/
theorem mergeElements_cons (x : TensorType) (inputs : List TensorType) :
    mergeElements (x :: inputs) = inputs.foldlM joinElement x.element := by
  have hfirst : joinElement .dynamic x = .ok x.element := by
    rw [joinElement, ElementType.merge_dynamic_left]
    rfl
  rw [mergeElements, List.foldlM_cons, hfirst]
  rfl

theorem mergeElements_noStricter (h : RelaxesAll general specific) :
    NoStricter (fun x y => x.relaxes y = true) (mergeElements general) (mergeElements specific) :=
  .foldlM h (ElementType.relaxes_self _) (fun _ _ _ _ hseen ht =>
    (ElementType.merge_noStricter hseen (element_relaxes ht)).mapError)

end

variable {x x' y y' z z' : TensorType}

theorem mergeElements_pair_eq_ok {e : ElementType} : mergeElements [x, y] = .ok e ↔ x.element.merge y.element = .ok e := by
  simp only [mergeElements_cons, List.foldlM_cons, List.foldlM_nil, bind_eq_ok]
  simp [joinElement, mapError_eq_ok, pure, Except.pure]

theorem mergeElements_triple_eq_ok {e : ElementType} : mergeElements [x, y, z] = .ok e ↔
    ∃ e', x.element.merge y.element = .ok e' ∧ e'.merge z.element = .ok e := by
  simp only [mergeElements_cons, List.foldlM_cons, List.foldlM_nil, bind_eq_ok]
  simp [joinElement, mapError_eq_ok, pure, Except.pure]

theorem arithmetic_eq_ok {b : Broadcast} {t : TensorType} : arithmetic b x y = .ok t ↔
    x.element.merge y.element = .ok t.element ∧ b.combine x.shape y.shape = .ok t.shape := by
  unfold arithmetic
  rw [bind_eq_ok]
  constructor
  · rintro ⟨e, he, h⟩
    obtain ⟨s, hs, ht⟩ := bind_eq_ok.1 h
    obtain rfl := Except.ok.inj ht
    exact ⟨mergeElements_pair_eq_ok.1 he, hs⟩
  · rintro ⟨he, hs⟩
    exact ⟨_, mergeElements_pair_eq_ok.2 he, bind_eq_ok.2 ⟨_, hs, rfl⟩⟩

theorem checkScalar_noStricter (index : Nat) (h : x.relaxes x' = true) :
    NoStricter Eq (checkScalar index x) (checkScalar index x') := by
  intro _ hok
  refine ⟨(), ?_, rfl⟩
  unfold checkScalar at hok ⊢
  cases hr : x.rank? with
  | none => rfl
  | some rank =>
    have hr' : x'.rank? = some rank := rank?_of_relaxes h hr
    rw [hr'] at hok
    exact hok

theorem holdsInts_of_relaxes (h : x.relaxes x' = true) (hints : holdsInts x'.element = true) :
    holdsInts x.element = true := by
  rcases ElementType.relaxes_iff.1 (element_relaxes h) with he | he
  · rw [he]
    rfl
  · rw [he, hints]

theorem checkIntVector_noStricter (index : Nat) (h : x.relaxes x' = true) :
    NoStricter Eq (checkIntVector x index) (checkIntVector x' index) := by
  unfold checkIntVector
  refine .check (fun hx => ?_) (fun _ => ?_)
  · cases hints : holdsInts x'.element with
    | false => rfl
    | true => rw [holdsInts_of_relaxes h hints] at hx; cases hx
  · intro _ hok
    refine ⟨(), ?_, rfl⟩
    cases hr : x.rank? with
    | none => rfl
    | some rank =>
      have hr' : x'.rank? = some rank := rank?_of_relaxes h hr
      rw [hr'] at hok
      exact hok

/-! ## One input -/

theorem checkArithmetic_noStricter (floatOnly : Bool) (h : x.relaxes x' = true) :
    NoStricter Eq (checkArithmetic floatOnly x) (checkArithmetic floatOnly x') := by
  rcases ElementType.relaxes_iff.1 (element_relaxes h) with he | he
  · exact fun _ _ => ⟨(), by unfold checkArithmetic; rw [he]; rfl, rfl⟩
  · unfold checkArithmetic
    rw [he]
    exact .self _

theorem unary_laxer (op : UnaryOp) (h : x.relaxes x' = true) : Laxer (unary op x) (unary op x') :=
  (checkArithmetic_noStricter op.floatOnly h).bind (fun _ _ _ => .ok h)

theorem convert_laxer (target : ElementType) (h : x.relaxes x' = true) : Laxer (convert target x) (convert target x') :=
  .check id (fun _ => .ok (mk_relaxes_mk target.relaxes_self (shape_relaxes h)))

theorem softmax_laxer (axis : Int) (h : x.relaxes x' = true) : Laxer (softmax axis x) (softmax axis x') := by
  refine (checkArithmetic_noStricter true h).bind (fun _ _ _ => ?_)
  cases hr : x.rank? with
  | none =>
    cases x'.rank? with
    | none => exact .ok h
    | some rank => exact .of_bind (fun _ => .ok h)
  | some rank =>
    rw [rank?_of_relaxes h hr]
    exact (NoStricter.self _).bind (fun _ _ _ => .ok h)

/-! ## Several inputs -/

theorem arithmetic_laxer (b : Broadcast) (hx : x.relaxes x' = true) (hy : y.relaxes y' = true) :
    Laxer (arithmetic b x y) (arithmetic b x' y') :=
  (mergeElements_noStricter (.cons hx (.cons hy .nil))).bind (fun _ _ he =>
    (b.combine_noStricter (shape_relaxes hx) (shape_relaxes hy)).bind (fun _ _ hs => .ok (mk_relaxes_mk he hs)))

theorem binary_laxer (op : BinaryOp) (b : Broadcast) (hx : x.relaxes x' = true) (hy : y.relaxes y' = true) :
    Laxer (binary op b x y) (binary op b x' y') := by
  refine (arithmetic_laxer b hx hy).bind (fun s t hst => .ok ?_)
  cases op.isComparison with
  | true => exact mk_relaxes_mk (ElementType.relaxes_self _) (shape_relaxes hst)
  | false => exact hst

theorem hardSigmoid_laxer (hx : x.relaxes x' = true) (hy : y.relaxes y' = true) (hz : z.relaxes z' = true) :
    Laxer (hardSigmoid x y z) (hardSigmoid x' y' z') := by
  refine (mergeElements_noStricter (.cons hx (.cons hy (.cons hz .nil)))).bind (fun e e' he => ?_)
  refine .check (fun hfloat => ?_) (fun _ => ?_)
  · rcases ElementType.relaxes_iff.1 he with rfl | rfl
    · cases hfloat
    · exact hfloat
  · exact (checkScalar_noStricter 1 hy).bind (fun _ _ _ => (checkScalar_noStricter 2 hz).bind (fun _ _ _ =>
      .ok (mk_relaxes_mk he (shape_relaxes hx))))

theorem fusedMultiplyAdd_laxer (hx : x.relaxes x' = true) (hy : y.relaxes y' = true) (hz : z.relaxes z' = true) :
    Laxer (fusedMultiplyAdd x y z) (fusedMultiplyAdd x' y' z') :=
  (arithmetic_laxer .numpy hx hy).bind (fun _ _ hp => arithmetic_laxer .numpy hp hz)

end Infer
/-! ## With the number of inputs -/

namespace Op

variable {ins outs : List TensorType} {values : List (Option ConstantData)}

theorem inferTypes_of_validate {op : Op} (h : op.validate ins values = .ok outs) : op.inferTypes ins values = .ok outs := by
  unfold validate at h
  split at h
  · exact h
  · cases h

theorem validate_binary {op : BinaryOp} {b : Broadcast} : (binary op b).validate ins values = .ok outs ↔
    ∃ x y t, ins = [x, y] ∧ Infer.binary op b x y = .ok t ∧ outs = [t] := by
  constructor
  · intro h
    obtain ⟨⟨x, y⟩, hxy, h⟩ := bind_eq_ok.1 (inferTypes_of_validate h)
    obtain ⟨t, ht⟩ := single_eq_ok.1 h
    exact ⟨x, y, t, Infer.two_eq_ok.1 hxy, ht⟩
  · rintro ⟨x, y, t, rfl, ht⟩
    exact bind_eq_ok.2 ⟨(x, y), rfl, single_eq_ok.2 ⟨t, ht⟩⟩

theorem validate_binary_pair {op : BinaryOp} {b : Broadcast} {x y : TensorType} :
    (binary op b).validate [x, y] values = .ok outs ↔ ∃ t, Infer.binary op b x y = .ok t ∧ outs = [t] := single_eq_ok

theorem validate_fusedMultiplyAdd : fusedMultiplyAdd.validate ins values = .ok outs ↔
    ∃ x y z t, ins = [x, y, z] ∧ Infer.fusedMultiplyAdd x y z = .ok t ∧ outs = [t] := by
  constructor
  · intro h
    obtain ⟨⟨x, y, z⟩, hxyz, h⟩ := bind_eq_ok.1 (inferTypes_of_validate h)
    obtain ⟨t, ht⟩ := single_eq_ok.1 h
    exact ⟨x, y, z, t, Infer.three_eq_ok.1 hxyz, ht⟩
  · rintro ⟨x, y, z, t, rfl, ht⟩
    exact bind_eq_ok.2 ⟨(x, y, z), rfl, single_eq_ok.2 ⟨t, ht⟩⟩

/-- Arithmetic is typed by the rule for arithmetic. -/
theorem binary_of_not_isComparison {op : BinaryOp} (hop : op.isComparison = false) (b : Broadcast) (x y : TensorType) :
    Infer.binary op b x y = Infer.arithmetic b x y := by
  unfold Infer.binary
  rw [hop]
  cases Infer.arithmetic b x y <;> rfl

end Op
end TensorGraph
