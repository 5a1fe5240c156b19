import TensorGraph.Op.Elementwise
import TensorGraph.Proofs.Information.Answers
/-!
# Combining less is no stricter

Merging, broadcasting, adding and multiplying dimensions, lists of them and shapes accept relaxed
arguments wherever they accept the arguments themselves, and the answer is relaxed.  A number of
elements that is known stays the same when more is known of the shape.
-/
namespace TensorGraph

theorem ElementType.merge_noStricter {a a' b b' : ElementType} (ha : a.relaxes a' = true) (hb : b.relaxes b' = true) :
    NoStricter (fun x y => x.relaxes y = true) (a.merge b) (a'.merge b') := by
  intro c hc
  rcases relaxes_iff.1 ha with rfl | rfl <;> rcases relaxes_iff.1 hb with rfl | rfl
  all_goals grind [merge, relaxes_iff]

namespace Dimension

variable {a a' b b' : Dimension}

/-- What two claims make together says at least as much as each. -/
theorem relaxes_merge {d : Dimension} (h : a.merge b = .ok d) : a.relaxes d = true ∧ b.relaxes d = true := by
  cases a <;> cases b <;> simp only [merge] at h <;> grind [relaxes]

theorem merge_noStricter (ha : a.relaxes a' = true) (hb : b.relaxes b' = true) :
    NoStricter (fun x y => x.relaxes y = true) (a.merge b) (a'.merge b') := by
  intro d hd
  rcases relaxes_iff.1 ha with rfl | rfl
  · exact ⟨b, rfl, relaxes_trans hb (relaxes_merge hd).2⟩
  rcases relaxes_iff.1 hb with rfl | rfl
  · cases a with
    | dynamic => exact ⟨dynamic, rfl, rfl⟩
    | fixed n => exact ⟨fixed n, rfl, (relaxes_merge hd).1⟩
  · exact ⟨d, hd, d.relaxes_self⟩

theorem relaxes_zipEach_merge : ∀ {as bs ds : List Dimension}, as.length = bs.length →
    zipEach merge as bs = .ok ds → RelaxesAll as ds ∧ RelaxesAll bs ds
  | [], [], _, _, h => Except.ok.inj h ▸ ⟨.nil, .nil⟩
  | a :: as, b :: bs, ds, hlen, h => by
    rw [zipEach] at h
    obtain ⟨d, hd, h⟩ := bind_eq_ok.1 h
    obtain ⟨rest, hrest, h⟩ := bind_eq_ok.1 h
    obtain rfl := Except.ok.inj h
    obtain ⟨ha, hb⟩ := relaxes_merge hd
    obtain ⟨has, hbs⟩ := relaxes_zipEach_merge (Nat.succ.inj hlen) hrest
    exact ⟨.cons ha has, .cons hb hbs⟩

theorem broadcast_noStricter (ha : a.relaxes a' = true) (hb : b.relaxes b' = true) :
    NoStricter (fun x y => x.relaxes y = true) (a.broadcast b) (a'.broadcast b') := by
  intro d hd
  rcases relaxes_iff.1 ha with rfl | rfl <;> rcases relaxes_iff.1 hb with rfl | rfl
  · exact ⟨dynamic, rfl, rfl⟩
  · cases b with
    | dynamic => exact ⟨dynamic, rfl, rfl⟩
    | fixed n =>
      refine ⟨_, rfl, ?_⟩
      cases a' <;> simp only [broadcast] at hd <;> grind [relaxes]
  · cases a with
    | dynamic => exact ⟨dynamic, rfl, rfl⟩
    | fixed n =>
      refine ⟨_, rfl, ?_⟩
      cases b' <;> simp only [broadcast] at hd <;> grind [relaxes]
  · exact ⟨d, hd, d.relaxes_self⟩

/-- A sum of relaxed dimensions overflows only if the sum does. -/
theorem add?_relaxes (ha : a.relaxes a' = true) (hb : b.relaxes b' = true) {d' : Dimension} (hd : a'.add? b' = some d') :
    ∃ d, a.add? b = some d ∧ d.relaxes d' = true := by
  rcases relaxes_iff.1 ha with rfl | rfl
  · exact ⟨dynamic, rfl, rfl⟩
  · rcases relaxes_iff.1 hb with rfl | rfl
    · cases a <;> exact ⟨dynamic, rfl, rfl⟩
    · exact ⟨d', hd, d'.relaxes_self⟩

/-- A product of relaxed dimensions overflows only if the product does. -/
theorem mul?_relaxes (ha : a.relaxes a' = true) (hb : b.relaxes b' = true) {d' : Dimension} (hd : a'.mul? b' = some d') :
    ∃ d, a.mul? b = some d ∧ d.relaxes d' = true := by
  rcases relaxes_iff.1 ha with rfl | rfl <;> rcases relaxes_iff.1 hb with rfl | rfl
  · exact ⟨dynamic, rfl, rfl⟩
  · cases b with
    | dynamic => exact ⟨dynamic, rfl, rfl⟩
    | fixed n =>
      refine ⟨_, rfl, ?_⟩
      cases a' <;> simp only [mul?] at hd <;> grind [relaxes]
  · cases a with
    | dynamic => exact ⟨dynamic, rfl, rfl⟩
    | fixed n =>
      refine ⟨_, rfl, ?_⟩
      cases b' <;> simp only [mul?] at hd <;> grind [relaxes]
  · exact ⟨d', hd, d'.relaxes_self⟩

theorem foldlM_mul?_relaxes {xs ys : List Dimension} (h : RelaxesAll xs ys) {a a' d' : Dimension}
    (ha : a.relaxes a' = true) (hd : ys.foldlM mul? a' = some d') :
    ∃ d, xs.foldlM mul? a = some d ∧ d.relaxes d' = true := by
  induction h generalizing a a' with
  | nil => exact ⟨a, rfl, Option.some.inj hd ▸ ha⟩
  | cons hxy _ ih =>
    rw [List.foldlM_cons] at hd
    obtain ⟨b', hb', hd⟩ := Option.bind_eq_some_iff.1 hd
    obtain ⟨b, hb, hrel⟩ := mul?_relaxes ha hxy hb'
    obtain ⟨d, hfold, hrel⟩ := ih hrel hd
    exact ⟨d, by rw [List.foldlM_cons, hb]; exact hfold, hrel⟩

theorem zipEach_noStricter {f : Dimension → Dimension → Except Conflict Dimension}
    (hf : ∀ {a a' b b' : Dimension}, a.relaxes a' = true → b.relaxes b' = true →
      NoStricter (fun x y => x.relaxes y = true) (f a b) (f a' b')) :
    ∀ {as as' bs bs' : List Dimension}, RelaxesAll as as' → RelaxesAll bs bs' →
      NoStricter RelaxesAll (zipEach f as bs) (zipEach f as' bs')
  | _, _, _, _, .nil, _ => .ok .nil
  | _, _, _, _, .cons _ _, .nil => .ok .nil
  | _, _, _, _, .cons ha has, .cons hb hbs =>
    (hf ha hb).bind (fun _ _ hd => (zipEach_noStricter hf has hbs).bind (fun _ _ hds => .ok (.cons hd hds)))

/-- A product of factors other than zero is known only if both are. -/
theorem isStatic_of_mul? {a b d : Dimension} (ha : a ≠ fixed 0) (hb : b ≠ fixed 0) (hd : a.mul? b = some d) :
    d ≠ fixed 0 ∧ (d.isStatic = true → a.isStatic = true ∧ b.isStatic = true) := by
  cases a <;> cases b <;> simp only [mul?] at hd <;> grind [isStatic, Nat.mul_eq_zero]

theorem all_isStatic_of_foldlM_mul? : ∀ {xs : List Dimension} {a : Dimension} {n : Nat}, fixed 0 ∉ a :: xs →
    xs.foldlM mul? a = some (fixed n) → (a :: xs).all isStatic = true
  | [], _, _, _, h => by
    obtain rfl := Option.some.inj h
    rfl
  | x :: xs, a, n, hz, h => by
    rw [List.foldlM_cons] at h
    obtain ⟨b, hb, h⟩ := Option.bind_eq_some_iff.1 h
    simp only [List.mem_cons, not_or] at hz
    obtain ⟨ha, hx, hxs⟩ := hz
    obtain ⟨hb0, hstatic⟩ := isStatic_of_mul? (Ne.symm ha) (Ne.symm hx) hb
    have hall := all_isStatic_of_foldlM_mul? (List.not_mem_cons_of_ne_of_not_mem (Ne.symm hb0) hxs) h
    rw [List.all_cons, Bool.and_eq_true] at hall
    obtain ⟨ha, hx⟩ := hstatic hall.1
    simp only [List.all_cons, ha, hx, hall.2, Bool.and_self]

end Dimension

open Dimension (RelaxesAll)

theorem Infer.product_noStricter {xs ys : List Dimension} (h : RelaxesAll xs ys) :
    NoStricter (fun x y => x.relaxes y = true) (product xs) (product ys) := by
  intro d hd
  unfold product at hd
  split at hd
  · rename_i d' hprod
    obtain rfl := Except.ok.inj hd
    obtain ⟨e, he, hrel⟩ := Dimension.foldlM_mul?_relaxes h (Dimension.relaxes_self (.fixed 1)) hprod
    refine ⟨e, ?_, hrel⟩
    unfold product Dimension.product?
    rw [he]
  · cases hd

namespace Shape

variable {a a' b b' : Shape}

/-- **A known number of elements stays what it is.** -/
theorem elementCount?_of_relaxes (h : a.relaxes a' = true) {n : Nat} (hn : a.elementCount? = some n) :
    a'.elementCount? = some n := by
  rcases relaxes_cases h with rfl | ⟨xs, ys, rfl, rfl, hall⟩
  · cases hn
  unfold elementCount? at hn ⊢
  simp only at hn ⊢
  by_cases hz : xs.contains (.fixed 0) = true
  · rw [if_pos hz] at hn
    obtain ⟨i, hi⟩ := List.mem_iff_getElem?.1 (List.contains_iff_mem.1 hz)
    have hrel := hall.getElem? i
    rw [hi] at hrel
    have hz' : ys.contains (.fixed 0) = true := by
      cases hy : ys[i]? with
      | none => rw [hy] at hrel; cases hrel
      | some y =>
        rw [hy] at hrel
        cases hrel with
        | some hrel => exact List.contains_iff_mem.2 (List.mem_of_getElem? (Dimension.eq_of_fixed_relaxes hrel ▸ hy))
    rw [if_pos hz', hn]
  · -- without a zero, a known product has known factors only
    rw [if_neg hz] at hn
    obtain ⟨d, hprod, hd⟩ := Option.bind_eq_some_iff.1 hn
    obtain rfl : d = .fixed n := by
      cases d with
      | dynamic => cases hd
      | fixed m => rw [Option.some.inj hd]
    have hnz : Dimension.fixed 0 ∉ Dimension.fixed 1 :: xs := by
      simpa [List.contains_iff_mem] using hz
    have hstatic := Dimension.all_isStatic_of_foldlM_mul? hnz hprod
    rw [List.all_cons, Bool.and_eq_true] at hstatic
    rw [hall.eq_of_static hstatic.2, if_neg hz, hprod]
    rfl

theorem relaxes_merge {c : Shape} (h : a.merge b = .ok c) : a.relaxes c = true ∧ b.relaxes c = true := by
  unfold merge at h
  split at h
  · exact ⟨rfl, Except.ok.inj h ▸ relaxes_self b⟩
  · exact ⟨Except.ok.inj h ▸ relaxes_self _, rfl⟩
  · rename_i xs ys
    split at h
    · cases h
    rename_i hlen
    obtain ⟨zs, hz, rfl⟩ := map_eq_ok.1 h
    have hboth := Dimension.relaxes_zipEach_merge (not_not.1 hlen) hz
    exact ⟨ranked_relaxes_ranked.2 hboth.1, ranked_relaxes_ranked.2 hboth.2⟩

theorem merge_noStricter (ha : a.relaxes a' = true) (hb : b.relaxes b' = true) :
    NoStricter (fun x y => x.relaxes y = true) (a.merge b) (a'.merge b') := by
  rcases relaxes_cases ha with rfl | ⟨xs, xs', rfl, rfl, hx⟩
  · exact fun s hs => ⟨b, rfl, relaxes_trans hb ((relaxes_merge hs).2)⟩
  rcases relaxes_cases hb with rfl | ⟨ys, ys', rfl, rfl, hy⟩
  · exact fun s hs => ⟨_, rfl, relaxes_trans ha ((relaxes_merge hs).1)⟩
  unfold merge
  simp only [hx.length_eq, hy.length_eq]
  exact .check id (fun _ => (Dimension.zipEach_noStricter Dimension.merge_noStricter hx hy).map
    (fun _ _ => ranked_relaxes_ranked.2))

theorem padTo_relaxes {xs ys : List Dimension} (rank : Nat) (h : RelaxesAll xs ys) :
    RelaxesAll (padTo rank xs) (padTo rank ys) := by
  unfold padTo
  rw [h.length_eq]
  exact (RelaxesAll.refl _).append h

theorem broadcast_noStricter (ha : a.relaxes a' = true) (hb : b.relaxes b' = true) :
    NoStricter (fun x y => x.relaxes y = true) (a.broadcast b) (a'.broadcast b') := by
  rcases relaxes_cases ha with rfl | ⟨xs, xs', rfl, rfl, hx⟩
  · exact .of_ok (fun _ => rfl)
  rcases relaxes_cases hb with rfl | ⟨ys, ys', rfl, rfl, hy⟩
  · exact .of_ok (fun _ => rfl)
  unfold broadcast
  simp only [hx.length_eq, hy.length_eq]
  exact (Dimension.zipEach_noStricter Dimension.broadcast_noStricter (padTo_relaxes _ hx) (padTo_relaxes _ hy)).map
    (fun _ _ => ranked_relaxes_ranked.2)

end Shape
end TensorGraph
