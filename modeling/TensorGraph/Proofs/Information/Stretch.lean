import TensorGraph.Proofs.Information.Broadcast
/-!
# Stretch — broadcasting is a join, too

Merging joins claims in the information order.  Broadcasting joins extents in another order, in which one extent
gives way to another if broadcasting the two answers with the other one: 1 gives way to everything, an open extent to
every size but 1, and a size to itself alone.  Dimensions are ordered so place by place, counted from the last place,
and a shorter list gives way where it lacks places.

`Merges` holds of this order as of the information order, and with it its laws: broadcasting is commutative, idempotent
and associative, failures included.  Only shapes of unknown rank are not ordered so, since they absorb what fails beside
them.
-/
namespace TensorGraph

/-! ## Dimensions -/

namespace Dimension

/-- Broadcasting answers with the second extent: 1 gives way to everything, an open extent to all but 1. -/
def givesWay : Dimension → Dimension → Bool
  | fixed m, d => m = 1 || d = fixed m
  | dynamic, d => d ≠ fixed 1

theorem givesWay_iff {a b : Dimension} : a.givesWay b = true ↔ a.broadcast b = .ok b := by
  cases a <;> cases b <;> grind [givesWay, broadcast]

theorem broadcast_self (d : Dimension) : d.broadcast d = .ok d := by cases d <;> simp [broadcast]

theorem givesWayOrder : InformationOrder givesWay where
  refl a := givesWay_iff.2 a.broadcast_self
  trans {a b c} hab hbc := by cases a <;> cases b <;> cases c <;> grind [givesWay]
  antisymm {a b} hab hba := by cases a <;> cases b <;> grind [givesWay]

/-- **Broadcasting dimensions is joining them** in this order. -/
theorem broadcast_merges : Merges givesWay broadcast where
  order := givesWayOrder
  upper {a b c} h := by cases a <;> cases b <;> cases c <;> grind [givesWay, broadcast]
  self := broadcast_self
  mono {a a' b b'} ha hb c hc := by
    cases a <;> cases a' <;> cases b <;> cases b' <;> cases c <;> grind [givesWay, broadcast]

end Dimension

/-! ## Lists of dimensions -/

theorem ext_fromLast {α : Type} {d : α} {xs ys : List α} (hlen : xs.length = ys.length)
    (h : ∀ i, fromLast d xs i = fromLast d ys i) : xs = ys := by
  rw [← List.forall₂_eq_eq_eq]
  exact (forall₂_iff_fromLast (d := d) (e := d) rfl).2 ⟨hlen, h⟩

namespace Shape

/-- Broadcast the dimensions of two shapes of known rank. -/
def broadcastDims (ds es : List Dimension) : Except Conflict (List Dimension) :=
  Dimension.zipEach Dimension.broadcast (padTo (max ds.length es.length) ds) (padTo (max ds.length es.length) es)

/-- The first list gives way to the second, place by place. -/
def givesWay (ds es : List Dimension) : Bool :=
  decide (ds.length ≤ es.length) && ((padTo es.length ds).zip es).all (fun p => p.1.givesWay p.2)

variable {ds es fs : List Dimension}

theorem ranked_broadcast (ds es : List Dimension) : (ranked ds).broadcast (ranked es) = ranked <$> broadcastDims ds es := rfl

theorem broadcastDims_eq_ok : broadcastDims ds es = .ok fs ↔ fs.length = max ds.length es.length ∧
    ∀ i, (fromLast (.fixed 1) ds i).broadcast (fromLast (.fixed 1) es i) = .ok (fromLast (.fixed 1) fs i) := by
  have hranked : (ranked ds).broadcast (ranked es) = .ok (ranked fs) ↔ _ := ranked_broadcast_eq_ok
  rw [ranked_broadcast, map_eq_ok] at hranked
  simpa using hranked

theorem givesWay_iff : givesWay ds es = true ↔ ds.length ≤ es.length ∧
    ∀ i, (fromLast (.fixed 1) ds i).givesWay (fromLast (.fixed 1) es i) = true := by
  rw [givesWay, Bool.and_eq_true, decide_eq_true_eq, List.all_eq_true]
  refine and_congr_right (fun hlen => ?_)
  rw [forall_mem_iff_fromLast (p := fun q : Dimension × Dimension => q.1.givesWay q.2 = true) (d := (.fixed 1, .fixed 1)) rfl]
  simp only [fromLast_zip (length_padTo hlen), fromLast_padTo]

theorem givesWayOrder : InformationOrder givesWay where
  refl ds := givesWay_iff.2 ⟨Nat.le_refl _, fun _ => Dimension.givesWayOrder.refl _⟩
  trans {a b c} hab hbc := by
    obtain ⟨hlen, hplaces⟩ := givesWay_iff.1 hab
    obtain ⟨hlen', hplaces'⟩ := givesWay_iff.1 hbc
    exact givesWay_iff.2 ⟨Nat.le_trans hlen hlen', fun i => Dimension.givesWayOrder.trans (hplaces i) (hplaces' i)⟩
  antisymm {a b} hab hba := by
    obtain ⟨hlen, hplaces⟩ := givesWay_iff.1 hab
    obtain ⟨hlen', hplaces'⟩ := givesWay_iff.1 hba
    exact ext_fromLast (Nat.le_antisymm hlen hlen') (fun i => Dimension.givesWayOrder.antisymm (hplaces i) (hplaces' i))

/-- What broadcasts at every place broadcasts. -/
theorem exists_broadcastDims (h : ∀ i, ∃ c, (fromLast (.fixed 1) ds i).broadcast (fromLast (.fixed 1) es i) = .ok c) :
    ∃ fs, broadcastDims ds es = .ok fs := by
  choose f hf using h
  obtain ⟨fs, hlen, hfs⟩ := exists_fromLast (d := Dimension.fixed 1) (f := f) (r := max ds.length es.length) (fun i hi => by
    have hi' := hf i
    rw [fromLast_of_length_le (Nat.le_trans (Nat.le_max_left _ _) hi),
      fromLast_of_length_le (Nat.le_trans (Nat.le_max_right _ _) hi)] at hi'
    exact (Except.ok.inj hi').symm)
  exact ⟨fs, broadcastDims_eq_ok.2 ⟨hlen, fun i => (hfs i).symm ▸ hf i⟩⟩

/-- **Broadcasting shapes of known rank is joining them.** -/
theorem broadcast_merges : Merges givesWay broadcastDims where
  order := givesWayOrder
  upper {ds es fs} h := by
    obtain ⟨hlen, hplaces⟩ := broadcastDims_eq_ok.1 h
    rw [givesWay_iff, givesWay_iff, hlen]
    exact ⟨⟨Nat.le_max_left _ _, fun i => (Dimension.broadcast_merges.upper (hplaces i)).1⟩,
      Nat.le_max_right _ _, fun i => (Dimension.broadcast_merges.upper (hplaces i)).2⟩
  self ds := broadcastDims_eq_ok.2 ⟨(Nat.max_self _).symm, fun _ => Dimension.broadcast_self _⟩
  mono {ds ds' es es'} hds hes fs' hfs' := by
    obtain ⟨hdlen, hdplaces⟩ := givesWay_iff.1 hds
    obtain ⟨helen, heplaces⟩ := givesWay_iff.1 hes
    obtain ⟨hlen', hplaces'⟩ := broadcastDims_eq_ok.1 hfs'
    have hmono := fun i => Dimension.broadcast_merges.mono (hdplaces i) (heplaces i) _ (hplaces' i)
    obtain ⟨fs, hfs⟩ := exists_broadcastDims (fun i => (hmono i).imp (fun _ => And.left))
    obtain ⟨hlen, hplaces⟩ := broadcastDims_eq_ok.1 hfs
    refine ⟨fs, hfs, givesWay_iff.2 ⟨by omega, fun i => ?_⟩⟩
    obtain ⟨c, hc, hle⟩ := hmono i
    exact Except.ok.inj (hc.symm.trans (hplaces i)) ▸ hle

/-! ## Shapes -/

theorem broadcast_self (ds : List Dimension) : (ranked ds).broadcast (ranked ds) = .ok (ranked ds) := by
  rw [ranked_broadcast, broadcast_merges.self]
  rfl

/-- **Broadcasting three shapes of known rank, it does not matter which two come first.** -/
theorem broadcast_assoc (ds es fs : List Dimension) (d : Shape) :
    ((ranked ds).broadcast (ranked es) >>= fun s => s.broadcast (ranked fs)) = .ok d ↔
      ((ranked es).broadcast (ranked fs) >>= fun s => (ranked ds).broadcast s) = .ok d := by
  have hleft : ((ranked ds).broadcast (ranked es) >>= fun s => s.broadcast (ranked fs)) =
      ranked <$> (broadcastDims ds es >>= fun x => broadcastDims x fs) := by
    rw [ranked_broadcast]
    cases broadcastDims ds es <;> rfl
  have hright : ((ranked es).broadcast (ranked fs) >>= fun s => (ranked ds).broadcast s) =
      ranked <$> (broadcastDims es fs >>= fun x => broadcastDims ds x) := by
    rw [ranked_broadcast]
    cases broadcastDims es fs <;> rfl
  rw [hleft, hright, map_eq_ok, map_eq_ok]
  exact exists_congr (fun x => and_congr_left (fun _ => broadcast_merges.assoc ds es fs x))

/-- Beside a shape of unknown rank the answer is one of unknown rank. -/
theorem broadcast_eq_unknown {a b c : Shape} (h : a.broadcast b = .ok c) (hunknown : a = unknown ∨ b = unknown) :
    c = unknown := by
  rcases hunknown with rfl | rfl
  · exact (Except.ok.inj h).symm
  · rw [broadcast_unknown_right] at h
    exact (Except.ok.inj h).symm

theorem exists_dims {s : Shape} (h : s ≠ unknown) : ∃ ds, s = ranked ds := by
  cases s with
  | unknown => exact absurd rfl h
  | ranked ds => exact ⟨ds, rfl⟩

/-- **Where both ways of broadcasting three shapes succeed, they agree.** -/
theorem broadcast_assoc_of_ok {a b c d e : Shape} (hd : (a.broadcast b >>= fun s => s.broadcast c) = .ok d)
    (he : (b.broadcast c >>= fun s => a.broadcast s) = .ok e) : d = e := by
  by_cases hranked : a ≠ unknown ∧ b ≠ unknown ∧ c ≠ unknown
  · obtain ⟨ha, hb, hc⟩ := hranked
    obtain ⟨ds, rfl⟩ := exists_dims ha
    obtain ⟨es, rfl⟩ := exists_dims hb
    obtain ⟨fs, rfl⟩ := exists_dims hc
    exact Except.ok.inj (((broadcast_assoc _ _ _ d).1 hd).symm.trans he)
  · -- the unknown rank reaches both answers
    obtain ⟨ab, hab, hd⟩ := bind_eq_ok.1 hd
    obtain ⟨bc, hbc, he⟩ := bind_eq_ok.1 he
    have hunknown : a = unknown ∨ b = unknown ∨ c = unknown := by tauto
    have hdu : d = unknown := broadcast_eq_unknown hd (by
      rcases hunknown with h | h | h
      · exact Or.inl (broadcast_eq_unknown hab (Or.inl h))
      · exact Or.inl (broadcast_eq_unknown hab (Or.inr h))
      · exact Or.inr h)
    have heu : e = unknown := broadcast_eq_unknown he (by
      rcases hunknown with h | h | h
      · exact Or.inl h
      · exact Or.inr (broadcast_eq_unknown hbc (Or.inl h))
      · exact Or.inr (broadcast_eq_unknown hbc (Or.inr h)))
    rw [hdu, heu]

end Shape
end TensorGraph
