import TensorGraph.Proofs.Information.Combine
/-!
# Join — merging is the least upper bound of the information order

Dimensions, element types, shapes and types are claims, ordered by how much they claim.  `InformationOrder`,
`Compatibility` and `LeastMerge` are the laws that they owe to the order, for any kind of claim.

All laws of merging follow from three facts, `Merges`: the answer claims as much as both sides, a claim merged
with itself is that claim, and merging is no stricter where less is claimed.  For if something claims as much as
both sides, it can be merged with itself, so the sides can be merged, and their answer claims no more.  What is
not known in an answer can be made up, so that compatible claims are also those that a static type agrees with.
-/
namespace TensorGraph

/-- **To claim no more is a partial order.** -/
structure InformationOrder {α : Type} (relaxes : α → α → Bool) : Prop where
  refl (a : α) : relaxes a a = true
  trans {a b c : α} : relaxes a b = true → relaxes b c = true → relaxes a c = true
  antisymm {a b : α} : relaxes a b = true → relaxes b a = true → a = b

/-- **Claims are compatible if both can be true**: something claims as much as both, and even something that leaves
nothing open, of sizes that fit a word if those of both do. -/
structure Compatibility {α : Type} (relaxes compatible : α → α → Bool) (static : α → Bool) (sized : α → Prop) : Prop where
  iff_bounded (a b : α) : compatible a b = true ↔ ∃ c, relaxes a c = true ∧ relaxes b c = true
  iff_static (a b : α) : compatible a b = true ↔
    ∃ c, static c = true ∧ (sized a → sized b → sized c) ∧ relaxes a c = true ∧ relaxes b c = true

/-- **The answer of a merge is the least claim that claims as much as both sides**, and there is one for compatible
sides. -/
structure LeastMerge {α : Type} (relaxes compatible : α → α → Bool) (merge : α → α → Except Conflict α) : Prop where
  ok_iff (a b : α) : (∃ c, merge a b = .ok c) ↔ compatible a b = true
  upper {a b c : α} : merge a b = .ok c → relaxes a c = true ∧ relaxes b c = true
  least {a b c d : α} : merge a b = .ok c → relaxes a d = true → relaxes b d = true → relaxes c d = true
  comm (a b c : α) : merge a b = .ok c ↔ merge b a = .ok c
  self (a : α) : merge a a = .ok a
  assoc (a b c d : α) :
    (merge a b >>= fun ab => merge ab c) = .ok d ↔ (merge b c >>= fun bc => merge a bc) = .ok d

/-- What a merge has to do so that the laws follow. -/
structure Merges {α : Type} (relaxes : α → α → Bool) (merge : α → α → Except Conflict α) : Prop where
  order : InformationOrder relaxes
  upper {a b c : α} : merge a b = .ok c → relaxes a c = true ∧ relaxes b c = true
  self (a : α) : merge a a = .ok a
  mono {a a' b b' : α} : relaxes a a' = true → relaxes b b' = true →
    NoStricter (fun x y => relaxes x y = true) (merge a b) (merge a' b')

namespace Merges

variable {α : Type} {relaxes compatible : α → α → Bool} {merge : α → α → Except Conflict α} {a b c d : α}

section

variable (h : Merges relaxes merge)

include h

/-- **Sides that something claims as much as can be merged**, and the answer claims no more than that. -/
theorem exists_of_bounded (ha : relaxes a d = true) (hb : relaxes b d = true) :
    ∃ c, merge a b = .ok c ∧ relaxes c d = true := h.mono ha hb d (h.self d)

/-- **The answer is the least upper bound.** -/
theorem eq_ok_iff : merge a b = .ok c ↔ (relaxes a c = true ∧ relaxes b c = true) ∧
    ∀ d, relaxes a d = true → relaxes b d = true → relaxes c d = true := by
  constructor
  · refine fun hc => ⟨h.upper hc, fun d ha hb => ?_⟩
    obtain ⟨c', hc', hle⟩ := h.exists_of_bounded ha hb
    exact Except.ok.inj (hc.symm.trans hc') ▸ hle
  · rintro ⟨⟨ha, hb⟩, hleast⟩
    obtain ⟨c', hc', hle⟩ := h.exists_of_bounded ha hb
    have hupper := h.upper hc'
    rw [hc', h.order.antisymm hle (hleast c' hupper.1 hupper.2)]

theorem comm (a b c : α) : merge a b = .ok c ↔ merge b a = .ok c := by
  rw [h.eq_ok_iff, h.eq_ok_iff, and_comm (a := relaxes a c = true)]
  exact and_congr_right (fun _ => forall_congr' (fun d => imp.swap))

/-- Merging three claims, two of them first, gives the least claim that claims as much as each. -/
theorem bind_eq_ok_iff : (merge a b >>= fun ab => merge ab c) = .ok d ↔
    (relaxes a d = true ∧ relaxes b d = true ∧ relaxes c d = true) ∧
      ∀ e, relaxes a e = true → relaxes b e = true → relaxes c e = true → relaxes d e = true := by
  rw [bind_eq_ok]
  constructor
  · rintro ⟨ab, hab, hd⟩
    obtain ⟨⟨ha, hb⟩, hleast⟩ := h.eq_ok_iff.1 hab
    obtain ⟨⟨habd, hc⟩, hleast'⟩ := h.eq_ok_iff.1 hd
    exact ⟨⟨h.order.trans ha habd, h.order.trans hb habd, hc⟩,
      fun e hae hbe hce => hleast' e (hleast e hae hbe) hce⟩
  · rintro ⟨⟨ha, hb, hc⟩, hleast⟩
    obtain ⟨ab, hab, hle⟩ := h.exists_of_bounded ha hb
    refine ⟨ab, hab, h.eq_ok_iff.2 ⟨⟨hle, hc⟩, fun e habe hce => ?_⟩⟩
    have hupper := h.upper hab
    exact hleast e (h.order.trans hupper.1 habe) (h.order.trans hupper.2 habe) hce

theorem assoc (a b c d : α) :
    (merge a b >>= fun ab => merge ab c) = .ok d ↔ (merge b c >>= fun bc => merge a bc) = .ok d := by
  have hswap : (merge b c >>= fun bc => merge a bc) = .ok d ↔ (merge b c >>= fun bc => merge bc a) = .ok d := by
    rw [bind_eq_ok, bind_eq_ok]
    exact exists_congr (fun bc => and_congr_right (fun _ => h.comm a bc d))
  rw [hswap, h.bind_eq_ok_iff, h.bind_eq_ok_iff]
  constructor
  · rintro ⟨⟨ha, hb, hc⟩, hleast⟩
    exact ⟨⟨hb, hc, ha⟩, fun e hb hc ha => hleast e ha hb hc⟩
  · rintro ⟨⟨hb, hc, ha⟩, hleast⟩
    exact ⟨⟨ha, hb, hc⟩, fun e ha hb hc => hleast e hb hc ha⟩

variable (hcompatible : ∀ a b, compatible a b = (merge a b).isOk)

include hcompatible

/-- **The laws follow.** -/
theorem leastMerge : LeastMerge relaxes compatible merge where
  ok_iff a b := by rw [hcompatible, isOk_iff]
  upper := h.upper
  least hc := (h.eq_ok_iff.1 hc).2 _
  comm := h.comm
  self := h.self
  assoc := h.assoc

theorem iff_bounded (a b : α) : compatible a b = true ↔ ∃ c, relaxes a c = true ∧ relaxes b c = true := by
  rw [hcompatible, isOk_iff]
  constructor
  · exact fun ⟨c, hc⟩ => ⟨c, h.upper hc⟩
  · rintro ⟨d, ha, hb⟩
    obtain ⟨c, hc, -⟩ := h.exists_of_bounded ha hb
    exact ⟨c, hc⟩

/-- **What is not known can be made up.** -/
theorem compatibility {static : α → Bool} {sized : α → Prop}
    (hsized : ∀ {a b c}, merge a b = .ok c → sized a → sized b → sized c)
    (hstatic : ∀ c, ∃ d, static d = true ∧ (sized c → sized d) ∧ relaxes c d = true) :
    Compatibility relaxes compatible static sized where
  iff_bounded := h.iff_bounded hcompatible
  iff_static a b := by
    constructor
    · intro hab
      rw [hcompatible, isOk_iff] at hab
      obtain ⟨c, hc⟩ := hab
      obtain ⟨d, hd, hkept, hcd⟩ := hstatic c
      have hupper := h.upper hc
      exact ⟨d, hd, fun ha hb => hkept (hsized hc ha hb), h.order.trans hupper.1 hcd, h.order.trans hupper.2 hcd⟩
    · rintro ⟨c, -, -, ha, hb⟩
      exact (h.iff_bounded hcompatible a b).2 ⟨c, ha, hb⟩

end

end Merges

/-! ## Dimensions -/

namespace Dimension

/-- The size fits a word, if it is known. -/
def Sized (d : Dimension) : Prop := ∀ n, d = fixed n → n < sizeLimit

/-- The size, or the one that is made up for it. -/
def sizeOr (made : Nat) : Dimension → Nat
  | fixed n => n
  | dynamic => made

theorem relaxes_sizeOr (d : Dimension) (made : Nat) : d.relaxes (fixed (d.sizeOr made)) = true := by
  cases d <;> simp [sizeOr, relaxes]

theorem Sized.sizeOr_lt {d : Dimension} (h : d.Sized) {made : Nat} (hmade : made < sizeLimit) :
    d.sizeOr made < sizeLimit := by
  cases d with
  | fixed n => exact h n rfl
  | dynamic => exact hmade

theorem sized_fixed {n : Nat} : (fixed n).Sized ↔ n < sizeLimit :=
  ⟨fun h => h n rfl, fun h _ hm => fixed.inj hm ▸ h⟩

theorem informationOrder : InformationOrder relaxes where
  refl := relaxes_self
  trans := relaxes_trans
  antisymm {a b} hab hba := by
    rcases relaxes_iff.1 hab with rfl | rfl
    · exact ((relaxes_iff.1 hba).elim id id).symm
    · rfl

theorem merge_self (d : Dimension) : d.merge d = .ok d := by cases d <;> simp [merge]

theorem merges : Merges relaxes merge := ⟨informationOrder, relaxes_merge, merge_self, merge_noStricter⟩

/-- An answer is one of the two sides. -/
theorem eq_or_eq_of_merge {a b c : Dimension} (h : a.merge b = .ok c) : c = a ∨ c = b := by
  cases a <;> cases b <;> simp only [merge] at h <;> grind

theorem compatibility : Compatibility relaxes compatible isStatic Sized := by
  refine merges.compatibility (fun _ _ => rfl) (fun h ha hb => ?_)
    (fun d => ⟨fixed (d.sizeOr 0), rfl, fun h => sized_fixed.2 (h.sizeOr_lt (by decide)), d.relaxes_sizeOr 0⟩)
  rcases eq_or_eq_of_merge h with rfl | rfl
  · exact ha
  · exact hb

/-! ## Lists of dimensions -/

theorem RelaxesAll.antisymm : ∀ {xs ys : List Dimension}, RelaxesAll xs ys → RelaxesAll ys xs → xs = ys
  | _, _, .nil, .nil => rfl
  | _, _, .cons hxy hs, .cons hyx ks => by rw [informationOrder.antisymm hxy hyx, RelaxesAll.antisymm hs ks]

theorem relaxesAll_sizeOr (made : Nat) : ∀ ds : List Dimension, RelaxesAll ds ((ds.map (sizeOr made)).map fixed)
  | [] => .nil
  | d :: ds => .cons (d.relaxes_sizeOr made) (relaxesAll_sizeOr made ds)

theorem zipEach_merge_self : ∀ ds : List Dimension, zipEach merge ds ds = .ok ds
  | [] => rfl
  | d :: ds => by
    rw [zipEach, merge_self, zipEach_merge_self ds]
    rfl

theorem mem_of_zipEach_merge : ∀ {as bs ds : List Dimension} {d : Dimension}, zipEach merge as bs = .ok ds → d ∈ ds →
    d ∈ as ∨ d ∈ bs
  | [], _, _, _, h, hd => by
    obtain rfl := Except.ok.inj h
    cases hd
  | _ :: _, [], _, _, h, hd => by
    obtain rfl := Except.ok.inj h
    cases hd
  | a :: as, b :: bs, ds, d, h, hd => by
    rw [zipEach] at h
    obtain ⟨c, hc, h⟩ := bind_eq_ok.1 h
    obtain ⟨rest, hrest, h⟩ := bind_eq_ok.1 h
    obtain rfl := Except.ok.inj h
    rcases List.mem_cons.1 hd with rfl | hd
    · rcases eq_or_eq_of_merge hc with rfl | rfl
      · exact Or.inl List.mem_cons_self
      · exact Or.inr List.mem_cons_self
    · exact (mem_of_zipEach_merge hrest hd).imp (List.mem_cons_of_mem a) (List.mem_cons_of_mem b)

end Dimension

/-! ## Element types -/

namespace ElementType

theorem informationOrder : InformationOrder relaxes where
  refl := relaxes_self
  trans := relaxes_trans
  antisymm {a b} hab hba := by
    rcases relaxes_iff.1 hab with rfl | rfl
    · exact ((relaxes_iff.1 hba).elim id id).symm
    · rfl

theorem relaxes_merge {a b c : ElementType} (h : a.merge b = .ok c) : a.relaxes c = true ∧ b.relaxes c = true := by
  grind [merge, relaxes_iff]

theorem merges : Merges relaxes merge := ⟨informationOrder, relaxes_merge, merge_self, merge_noStricter⟩

theorem compatible_eq_isOk (a b : ElementType) : a.compatible b = (a.merge b).isOk := by
  cases a <;> cases b <;> rfl

theorem compatibility : Compatibility relaxes compatible (fun t => !t.isDynamic) (fun _ => True) := by
  refine merges.compatibility compatible_eq_isOk (fun _ _ _ => trivial) (fun t => ?_)
  by_cases ht : t = .dynamic
  · exact ⟨.boolean, rfl, id, relaxes_iff.2 (Or.inl ht)⟩
  · exact ⟨t, by simp [isDynamic, ht], id, t.relaxes_self⟩

end ElementType

/-! ## Shapes -/

namespace Shape

/-- Every size that is known fits a word. -/
def Sized : Shape → Prop
  | unknown => True
  | ranked dims => ∀ d ∈ dims, d.Sized

theorem isStatic_ofSizes (sizes : List Nat) : (ofSizes sizes).isStatic = true := by
  simp [ofSizes, isStatic, Dimension.isStatic]

theorem sized_ofSizes {sizes : List Nat} : (ofSizes sizes).Sized ↔ ∀ n ∈ sizes, n < sizeLimit := by
  simp only [ofSizes, Sized, List.forall_mem_map, Dimension.sized_fixed]

/-- The sizes, or those that are made up for them. -/
def sizesOr (made : Nat) : Shape → List Nat
  | unknown => []
  | ranked dims => dims.map (Dimension.sizeOr made)

theorem relaxes_sizesOr (s : Shape) (made : Nat) : s.relaxes (ofSizes (s.sizesOr made)) = true := by
  cases s with
  | unknown => rfl
  | ranked dims => exact ranked_relaxes_ranked.2 (Dimension.relaxesAll_sizeOr made dims)

theorem Sized.sizesOr {s : Shape} (h : s.Sized) {made : Nat} (hmade : made < sizeLimit) :
    (ofSizes (s.sizesOr made)).Sized := by
  cases s with
  | unknown => exact fun _ hd => absurd hd List.not_mem_nil
  | ranked dims => exact sized_ofSizes.2 (List.forall_mem_map.2 (fun d hd => (h d hd).sizeOr_lt hmade))

theorem informationOrder : InformationOrder relaxes where
  refl := relaxes_self
  trans := relaxes_trans
  antisymm {a b} hab hba := by
    rcases relaxes_cases hab with rfl | ⟨xs, ys, rfl, rfl, hxy⟩
    · cases b with
      | unknown => rfl
      | ranked ys => cases hba
    · rw [hxy.antisymm (ranked_relaxes_ranked.1 hba)]

theorem merge_self (s : Shape) : s.merge s = .ok s := by
  cases s with
  | unknown => rfl
  | ranked dims =>
    rw [merge, if_neg (fun h => h rfl), Dimension.zipEach_merge_self]
    rfl

theorem merges : Merges relaxes merge := ⟨informationOrder, relaxes_merge, merge_self, merge_noStricter⟩

theorem Sized.merge {a b c : Shape} (h : a.merge b = .ok c) (ha : a.Sized) (hb : b.Sized) : c.Sized := by
  unfold Shape.merge at h
  split at h
  · exact Except.ok.inj h ▸ hb
  · exact Except.ok.inj h ▸ ha
  · rename_i xs ys
    split at h
    · cases h
    obtain ⟨zs, hzs, rfl⟩ := map_eq_ok.1 h
    intro d hd
    exact (Dimension.mem_of_zipEach_merge hzs hd).elim (ha d) (hb d)

theorem compatibility : Compatibility relaxes compatible isStatic Sized :=
  merges.compatibility (fun _ _ => rfl) Sized.merge
    (fun s => ⟨ofSizes (s.sizesOr 0), isStatic_ofSizes _, fun h => h.sizesOr (by decide), s.relaxes_sizesOr 0⟩)

theorem compatible_self (s : Shape) : s.compatible s = true := by
  rw [compatible, merge_self]
  rfl

end Shape

/-! ## Types -/

namespace TensorType

def Sized (t : TensorType) : Prop := t.shape.Sized

def isStatic (t : TensorType) : Bool := !t.element.isDynamic && t.shape.isStatic

theorem informationOrder : InformationOrder relaxes where
  refl := relaxes_self
  trans := relaxes_trans
  antisymm {a b} hab hba := by
    have helement := ElementType.informationOrder.antisymm (element_relaxes hab) (element_relaxes hba)
    have hshape := Shape.informationOrder.antisymm (shape_relaxes hab) (shape_relaxes hba)
    cases a
    cases b
    exact congrArg₂ TensorType.mk helement hshape

theorem compatible_iff {a b : TensorType} :
    a.compatible b = true ↔ a.element.compatible b.element = true ∧ a.shape.compatible b.shape = true := by
  rw [compatible, Bool.and_eq_true]

theorem compatible_self (t : TensorType) : t.compatible t = true :=
  compatible_iff.2 ⟨by simp [ElementType.compatible], t.shape.compatible_self⟩

theorem iff_bounded (a b : TensorType) : a.compatible b = true ↔ ∃ c, a.relaxes c = true ∧ b.relaxes c = true := by
  rw [compatible_iff, ElementType.compatibility.iff_bounded, Shape.compatibility.iff_bounded]
  constructor
  · rintro ⟨⟨e, hae, hbe⟩, s, has, hbs⟩
    exact ⟨⟨e, s⟩, mk_relaxes_mk hae has, mk_relaxes_mk hbe hbs⟩
  · rintro ⟨c, ha, hb⟩
    exact ⟨⟨c.element, element_relaxes ha, element_relaxes hb⟩, c.shape, shape_relaxes ha, shape_relaxes hb⟩

theorem compatibility : Compatibility relaxes compatible isStatic Sized where
  iff_bounded := iff_bounded
  iff_static a b := by
    constructor
    · intro hab
      rw [compatible_iff, ElementType.compatibility.iff_static, Shape.compatibility.iff_static] at hab
      obtain ⟨⟨e, he, -, hae, hbe⟩, s, hs, hsized, has, hbs⟩ := hab
      exact ⟨⟨e, s⟩, Bool.and_eq_true_iff.2 ⟨he, hs⟩, hsized, mk_relaxes_mk hae has, mk_relaxes_mk hbe hbs⟩
    · rintro ⟨c, -, -, ha, hb⟩
      exact (iff_bounded a b).2 ⟨c, ha, hb⟩

end TensorType

/-- **Merging is the least upper bound of the information order**, for dimensions, element types and shapes, and claims of
each kind, whole types as well, are compatible if they can be true together. -/
theorem merge_least_upper_bound :
    (InformationOrder Dimension.relaxes ∧ InformationOrder ElementType.relaxes ∧ InformationOrder Shape.relaxes ∧
      InformationOrder TensorType.relaxes) ∧
    (Compatibility Dimension.relaxes Dimension.compatible Dimension.isStatic Dimension.Sized ∧
      Compatibility ElementType.relaxes ElementType.compatible (fun t => !t.isDynamic) (fun _ => True) ∧
      Compatibility Shape.relaxes Shape.compatible Shape.isStatic Shape.Sized ∧
      Compatibility TensorType.relaxes TensorType.compatible TensorType.isStatic TensorType.Sized) ∧
    LeastMerge Dimension.relaxes Dimension.compatible Dimension.merge ∧
    LeastMerge ElementType.relaxes ElementType.compatible ElementType.merge ∧
    LeastMerge Shape.relaxes Shape.compatible Shape.merge :=
  ⟨⟨Dimension.informationOrder, ElementType.informationOrder, Shape.informationOrder, TensorType.informationOrder⟩,
    ⟨Dimension.compatibility, ElementType.compatibility, Shape.compatibility, TensorType.compatibility⟩,
    Dimension.merges.leastMerge (fun _ _ => rfl), ElementType.merges.leastMerge ElementType.compatible_eq_isOk,
    Shape.merges.leastMerge (fun _ _ => rfl)⟩

end TensorGraph
