import Mathlib.Data.List.GetD
import TensorGraph.Proofs.Information.Join
/-!
# Broadcast — partial shapes broadcast as well as they can

Sizes broadcast place by place, counted from the last place: `fromLast` reads an entry so, with a default left of
the first place.  `Broadcasts` says it of lists of numbers, without a word about shapes.

A shape that is not fully known stands for the sizes that it allows.  Then three facts settle how two of them
broadcast:
- on sizes that are known, shapes broadcast as `Broadcasts` says;
- less is no stricter, so that sizes which the two shapes allow never broadcast to sizes that the answer excludes;
- where the answer leaves a size open, the two shapes allow sizes that broadcast to any size there.  With sizes that
  broadcast to 0 and with sizes that broadcast to 1 nothing more can be said of that place.  If the answer leaves the
  rank open, the rank can be as large as one likes.
-/
namespace TensorGraph

/-! ## Counting from the last place -/

section FromLast

variable {α β : Type}

/-- Entry `i` of a list, counted from its last place. -/
def fromLast (default : α) (l : List α) (i : Nat) : α := l.reverse.getD i default

variable {d : α} {e : β}

theorem fromLast_of_length_le {l : List α} {i : Nat} (h : l.length ≤ i) : fromLast d l i = d := by
  rw [fromLast, List.getD_eq_default _ _ (by rwa [List.length_reverse])]

theorem fromLast_map (f : α → β) (l : List α) (i : Nat) : fromLast (f d) (l.map f) i = f (fromLast d l i) := by
  rw [fromLast, fromLast, ← List.map_reverse, List.getD_map]

/-- Defaults on the left are not seen. -/
theorem fromLast_replicate_append (k : Nat) (l : List α) (i : Nat) :
    fromLast d (List.replicate k d ++ l) i = fromLast d l i := by
  rw [fromLast, fromLast, List.reverse_append, List.reverse_replicate]
  rcases Nat.lt_or_ge i l.reverse.length with hi | hi
  · rw [List.getD_append _ _ _ _ hi]
  · rw [List.getD_append_right _ _ _ _ hi, List.getD_eq_default _ _ hi, List.getD_eq_getElem?_getD,
      List.getElem?_getD_replicate_default_eq]

theorem fromLast_zip {xs : List α} {ys : List β} (h : xs.length = ys.length) (i : Nat) :
    fromLast (d, e) (xs.zip ys) i = (fromLast d xs i, fromLast e ys i) := by
  have hrev : (xs.zip ys).reverse = xs.reverse.zip ys.reverse := List.reverse_zipWith h
  rw [fromLast, fromLast, fromLast, hrev]
  have hys : ys.reverse.length = xs.reverse.length := by simp [h]
  have hzip : (xs.reverse.zip ys.reverse).length = xs.reverse.length := by rw [List.length_zip, hys, Nat.min_self]
  rcases Nat.lt_or_ge i xs.reverse.length with hi | hi
  · have hi' : i < ys.reverse.length := Nat.lt_of_lt_of_eq hi hys.symm
    have hizip : i < (xs.reverse.zip ys.reverse).length := Nat.lt_of_lt_of_eq hi hzip.symm
    rw [List.getD_eq_getElem _ _ hi, List.getD_eq_getElem _ _ hi', List.getD_eq_getElem _ _ hizip, List.getElem_zip]
  · have hi' : ys.reverse.length ≤ i := Nat.le_trans (Nat.le_of_eq hys) hi
    have hizip : (xs.reverse.zip ys.reverse).length ≤ i := Nat.le_trans (Nat.le_of_eq hzip) hi
    rw [List.getD_eq_default _ _ hi, List.getD_eq_default _ _ hi', List.getD_eq_default _ _ hizip]

theorem forall_mem_iff_fromLast {p : α → Prop} (hd : p d) {l : List α} : (∀ x ∈ l, p x) ↔ ∀ i, p (fromLast d l i) := by
  constructor
  · intro h i
    rcases Nat.lt_or_ge i l.reverse.length with hi | hi
    · rw [fromLast, List.getD_eq_getElem _ _ hi]
      exact h _ (List.mem_reverse.1 (List.getElem_mem hi))
    · rw [fromLast, List.getD_eq_default _ _ hi]
      exact hd
  · intro h x hx
    obtain ⟨i, hi, rfl⟩ := List.mem_iff_getElem.1 (List.mem_reverse.2 hx)
    have := h i
    rwa [fromLast, List.getD_eq_getElem _ _ hi] at this

theorem forall₂_iff_fromLast {R : α → β → Prop} (hde : R d e) {xs : List α} {ys : List β} :
    List.Forall₂ R xs ys ↔ xs.length = ys.length ∧ ∀ i, R (fromLast d xs i) (fromLast e ys i) := by
  rw [List.forall₂_iff_zip]
  refine and_congr_right (fun hlen => ?_)
  have hpairs := forall_mem_iff_fromLast (p := fun q : α × β => R q.1 q.2) (d := (d, e)) hde (l := xs.zip ys)
  simp only [fromLast_zip hlen, Prod.forall] at hpairs
  exact hpairs

/-- A list is made of its entries. -/
theorem exists_fromLast {f : Nat → α} {r : Nat} (hf : ∀ i, r ≤ i → f i = d) :
    ∃ l : List α, l.length = r ∧ ∀ i, fromLast d l i = f i := by
  refine ⟨((List.range r).map f).reverse, by simp, fun i => ?_⟩
  rw [fromLast, List.reverse_reverse]
  rcases Nat.lt_or_ge i r with hi | hi
  · rw [List.getD_eq_getElem _ _ (by simpa using hi), List.getElem_map, List.getElem_range]
  · rw [List.getD_eq_default _ _ (by simpa using hi), hf i hi]

end FromLast

/-! ## Sizes -/

/-- Sizes that meet are equal or one of them is 1, and then the other one counts. -/
def Stretches (m n k : Nat) : Prop := (m = n ∨ m = 1) ∧ k = n ∨ n = 1 ∧ k = m

/-- **Broadcasting of sizes**: aligned at their last places, what one of them lacks on the left being 1. -/
structure Broadcasts (xs ys zs : List Nat) : Prop where
  length : zs.length = max xs.length ys.length
  stretches (i : Nat) : Stretches (fromLast 1 xs i) (fromLast 1 ys i) (fromLast 1 zs i)

theorem Stretches.symm {m n k : Nat} (h : Stretches m n k) : Stretches n m k := by
  unfold Stretches at h ⊢
  omega

theorem Broadcasts.symm {xs ys zs : List Nat} (h : Broadcasts xs ys zs) : Broadcasts ys xs zs :=
  ⟨h.length.trans (Nat.max_comm _ _), fun i => (h.stretches i).symm⟩

/-- **Ones stretch to anything**, also to more places. -/
theorem broadcasts_ones {ys : List Nat} {r : Nat} (h : ys.length ≤ r) :
    Broadcasts (List.replicate r 1) ys (List.replicate (r - ys.length) 1 ++ ys) where
  length := by
    rw [List.length_append, List.length_replicate, List.length_replicate]
    omega
  stretches i := by
    have hone : fromLast 1 (List.replicate r 1) i = 1 := by
      rw [← List.append_nil (List.replicate r 1), fromLast_replicate_append]
      rfl
    rw [hone, fromLast_replicate_append]
    exact Or.inl ⟨Or.inr rfl, rfl⟩

/-! ## Dimensions -/

namespace Dimension

theorem fixed_broadcast_fixed {m n k : Nat} : (fixed m).broadcast (fixed n) = .ok (fixed k) ↔ Stretches m n k := by
  simp only [broadcast, Stretches]
  grind

/-- Beside 1 a dimension stays what it is. -/
theorem broadcast_one_left (d : Dimension) : broadcast (.fixed 1) d = .ok d := by
  cases d with
  | fixed n => by_cases h : 1 = n <;> simp [broadcast, h]
  | dynamic => rfl

theorem broadcast_one_right (d : Dimension) : broadcast d (.fixed 1) = .ok d := by
  cases d with
  | fixed n => by_cases h : n = 1 <;> simp [broadcast, h]
  | dynamic => rfl

/-- The sides of a broadcast can be swapped. -/
theorem broadcast_comm {a b c : Dimension} : a.broadcast b = .ok c ↔ b.broadcast a = .ok c := by
  cases a <;> cases b <;> grind [broadcast]

/-- A size for a dimension so that it broadcasts with another one: what is not known is 1 beside a size that it has to be
stretched to, and `made` elsewhere. -/
def sizeBeside (made : Nat) : Dimension → Dimension → Nat
  | fixed m, _ => m
  | dynamic, fixed n => if n = 1 then made else 1
  | dynamic, dynamic => made

variable {a b c d : Dimension}

/-- **A size that is left open can be any.** -/
theorem stretches_sizeBeside (h : a.broadcast b = .ok c) (made : Nat) :
    Stretches (a.sizeBeside made b) (b.sizeBeside made a) (c.sizeOr made) := by
  cases a <;> cases b <;> simp only [broadcast] at h <;> grind [sizeBeside, sizeOr, Stretches]

theorem relaxes_sizeBeside (a b : Dimension) (made : Nat) : a.relaxes (fixed (a.sizeBeside made b)) = true := by
  cases a <;> simp [sizeBeside, relaxes]

theorem Sized.sizeBeside_lt (h : a.Sized) (b : Dimension) {made : Nat} (hmade : made < sizeLimit) :
    a.sizeBeside made b < sizeLimit := by
  cases a with
  | fixed m => exact h m rfl
  | dynamic =>
    cases b with
    | dynamic => exact hmade
    | fixed n =>
      rw [sizeBeside]
      split
      · exact hmade
      · decide

/-- What relaxes both 0 and 1 where a size is open leaves it open. -/
theorem relaxes_of_sizeOr (h0 : d.relaxes (fixed (c.sizeOr 0)) = true) (h1 : d.relaxes (fixed (c.sizeOr 1)) = true) :
    d.relaxes c = true := by
  cases c with
  | fixed n => exact h0
  | dynamic =>
    rcases relaxes_iff.1 h0 with rfl | rfl
    · rfl
    · cases h1

theorem zipEach_eq_ok_iff {f : Dimension → Dimension → Except Conflict Dimension} : ∀ {as bs cs : List Dimension},
    zipEach f as bs = .ok cs ↔ List.Forall₂ (fun p c => f p.1 p.2 = .ok c) (as.zip bs) cs
  | [], _, _ => by
    rw [List.zip_nil_left, List.forall₂_nil_left_iff]
    exact ⟨fun h => (Except.ok.inj h).symm, fun h => congrArg Except.ok h.symm⟩
  | _ :: _, [], _ => by
    rw [List.zip_nil_right, List.forall₂_nil_left_iff]
    exact ⟨fun h => (Except.ok.inj h).symm, fun h => congrArg Except.ok h.symm⟩
  | a :: as, b :: bs, cs => by
    rw [zipEach, List.zip_cons_cons, List.forall₂_cons_left_iff]
    constructor
    · intro h
      obtain ⟨c, hc, h⟩ := bind_eq_ok.1 h
      obtain ⟨rest, hrest, h⟩ := bind_eq_ok.1 h
      exact ⟨c, rest, hc, zipEach_eq_ok_iff.1 hrest, (Except.ok.inj h).symm⟩
    · rintro ⟨c, rest, hc, hrest, rfl⟩
      exact bind_eq_ok.2 ⟨c, hc, bind_eq_ok.2 ⟨rest, zipEach_eq_ok_iff.2 hrest, rfl⟩⟩

end Dimension

/-! ## Shapes -/

namespace Shape

variable {ds es : List Dimension}

theorem fromLast_padTo (rank : Nat) (i : Nat) : fromLast (.fixed 1) (padTo rank ds) i = fromLast (.fixed 1) ds i :=
  fromLast_replicate_append _ ds i

theorem length_padTo {rank : Nat} (h : ds.length ≤ rank) : (padTo rank ds).length = rank := by
  rw [padTo, List.length_append, List.length_replicate]
  omega

/-- **Shapes of known rank broadcast place by place.** -/
theorem ranked_broadcast_eq_ok {c : Shape} : (ranked ds).broadcast (ranked es) = .ok c ↔
    ∃ fs, c = ranked fs ∧ fs.length = max ds.length es.length ∧
      ∀ i, (fromLast (.fixed 1) ds i).broadcast (fromLast (.fixed 1) es i) = .ok (fromLast (.fixed 1) fs i) := by
  have hds := length_padTo (Nat.le_max_left ds.length es.length)
  have hes := length_padTo (Nat.le_max_right ds.length es.length)
  -- left of both shapes 1 meets 1
  have hone : (Dimension.fixed 1).broadcast (.fixed 1) = .ok (.fixed 1) := rfl
  rw [broadcast, map_eq_ok]
  refine exists_congr (fun fs => ?_)
  rw [Dimension.zipEach_eq_ok_iff, forall₂_iff_fromLast (d := (Dimension.fixed 1, Dimension.fixed 1)) hone,
    List.length_zip, hds, hes, Nat.min_self]
  simp only [fromLast_zip (hds.trans hes.symm), fromLast_padTo]
  constructor
  · rintro ⟨⟨hlen, hplaces⟩, rfl⟩
    exact ⟨rfl, hlen.symm, hplaces⟩
  · rintro ⟨rfl, hlen, hplaces⟩
    exact ⟨⟨hlen.symm, hplaces⟩, rfl⟩

@[simp] theorem broadcast_scalar_left (s : Shape) : scalar.broadcast s = .ok s := by
  cases s with
  | unknown => rfl
  | ranked ds => exact ranked_broadcast_eq_ok.2 ⟨ds, rfl, by simp, fun _ => Dimension.broadcast_one_left _⟩

@[simp] theorem broadcast_scalar_right (s : Shape) : s.broadcast scalar = .ok s := by
  cases s with
  | unknown => rfl
  | ranked ds => exact ranked_broadcast_eq_ok.2 ⟨ds, rfl, by simp, fun _ => Dimension.broadcast_one_right _⟩

@[simp] theorem broadcast_unknown_left (s : Shape) : unknown.broadcast s = .ok unknown := rfl

@[simp] theorem broadcast_unknown_right (s : Shape) : s.broadcast unknown = .ok unknown := by cases s <;> rfl

theorem broadcast_comm {a b c : Shape} : a.broadcast b = .ok c ↔ b.broadcast a = .ok c := by
  cases a with
  | unknown => rw [broadcast_unknown_left, broadcast_unknown_right]
  | ranked ds =>
    cases b with
    | unknown => rw [broadcast_unknown_left, broadcast_unknown_right]
    | ranked es =>
      simp only [ranked_broadcast_eq_ok, Nat.max_comm es.length]
      exact exists_congr (fun fs => and_congr_right (fun _ => and_congr_right (fun _ =>
        forall_congr' (fun i => Dimension.broadcast_comm))))

theorem fromLast_sizes (sizes : List Nat) (i : Nat) :
    fromLast (.fixed 1) (sizes.map Dimension.fixed) i = .fixed (fromLast 1 sizes i) :=
  fromLast_map Dimension.fixed sizes i

theorem fromLast_sizesOr (ds : List Dimension) (made i : Nat) :
    fromLast 1 ((ranked ds).sizesOr made) i = (fromLast (.fixed 1) ds i).sizeOr made :=
  fromLast_map (d := Dimension.fixed 1) (Dimension.sizeOr made) ds i

/-- **On sizes that are known, shapes broadcast as sizes do.** -/
theorem broadcasts_iff {xs ys zs : List Nat} :
    Broadcasts xs ys zs ↔ (ofSizes xs).broadcast (ofSizes ys) = .ok (ofSizes zs) := by
  simp only [ofSizes, ranked_broadcast_eq_ok, ranked.injEq, exists_eq_left', fromLast_sizes,
    Dimension.fixed_broadcast_fixed, List.length_map]
  exact ⟨fun h => ⟨h.length, h.stretches⟩, fun h => ⟨h.1, h.2⟩⟩

theorem ranked_relaxes_ranked_iff_fromLast : (ranked ds).relaxes (ranked es) = true ↔
    ds.length = es.length ∧ ∀ i, (fromLast (.fixed 1) ds i).relaxes (fromLast (.fixed 1) es i) = true :=
  ranked_relaxes_ranked.trans
    (forall₂_iff_fromLast (R := fun x y : Dimension => x.relaxes y = true) (Dimension.relaxes_self (.fixed 1)))

theorem ranked_relaxes_ofSizes {xs : List Nat} : (ranked ds).relaxes (ofSizes xs) = true ↔
    ds.length = xs.length ∧ ∀ i, (fromLast (.fixed 1) ds i).relaxes (.fixed (fromLast 1 xs i)) = true := by
  rw [ofSizes, ranked_relaxes_ranked_iff_fromLast, List.length_map]
  simp only [fromLast_sizes]

/-- The sizes that a shape allows; they fit words if those of the shape do. -/
structure Allows (s : Shape) (sizes : List Nat) : Prop where
  relaxes : s.relaxes (ofSizes sizes) = true
  sized : s.Sized → (ofSizes sizes).Sized

theorem allows_sizesOr (s : Shape) (made : Nat) (hmade : made < sizeLimit) : s.Allows (s.sizesOr made) :=
  ⟨s.relaxes_sizesOr made, fun h => h.sizesOr hmade⟩

/-- Some sizes that the two shapes allow broadcast to these. -/
def BroadcastsTo (a b : Shape) (zs : List Nat) : Prop := ∃ xs ys, a.Allows xs ∧ b.Allows ys ∧ Broadcasts xs ys zs

theorem BroadcastsTo.symm {a b : Shape} {zs : List Nat} : a.BroadcastsTo b zs → b.BroadcastsTo a zs :=
  fun ⟨xs, ys, hx, hy, h⟩ => ⟨ys, xs, hy, hx, h.symm⟩

/-- **Sizes that the shapes allow do not broadcast to what the answer excludes.** -/
theorem BroadcastsTo.exists_broadcast {a b : Shape} {zs : List Nat} (h : a.BroadcastsTo b zs) :
    ∃ c, a.broadcast b = .ok c ∧ c.relaxes (ofSizes zs) = true := by
  obtain ⟨xs, ys, hx, hy, h⟩ := h
  exact broadcast_noStricter hx.relaxes hy.relaxes _ (broadcasts_iff.1 h)

/-- The rank can be as large as one likes if that of one side is not known. -/
theorem exists_broadcastsTo_unknown (b : Shape) (r : Nat) : ∃ zs, unknown.BroadcastsTo b zs ∧ r ≤ zs.length := by
  have hb := b.allows_sizesOr 0 (by decide)
  have hones : unknown.Allows (List.replicate (max r (b.sizesOr 0).length) 1) := by
    refine ⟨rfl, fun _ => sized_ofSizes.2 (fun n hn => ?_)⟩
    rw [List.eq_of_mem_replicate hn]
    decide
  refine ⟨_, ⟨_, _, hones, hb, broadcasts_ones (Nat.le_max_right _ _)⟩, ?_⟩
  rw [List.length_append, List.length_replicate]
  omega

/-- Such sizes for all places of a shape. -/
theorem exists_sizesBeside (ds es : List Dimension) {made : Nat} (hmade : made < sizeLimit) :
    ∃ xs, (ranked ds).Allows xs ∧ xs.length = ds.length ∧
      ∀ i, fromLast 1 xs i = (fromLast (.fixed 1) ds i).sizeBeside made (fromLast (.fixed 1) es i) := by
  obtain ⟨xs, hlen, hxs⟩ := exists_fromLast (d := 1) (r := ds.length)
    (f := fun i => (fromLast (.fixed 1) ds i).sizeBeside made (fromLast (.fixed 1) es i))
    (fun i hi => by rw [fromLast_of_length_le hi, Dimension.sizeBeside])
  refine ⟨xs, ⟨ranked_relaxes_ofSizes.2 ⟨hlen.symm, fun i => ?_⟩, fun hsized => ?_⟩, hlen, hxs⟩
  · rw [hxs]
    exact Dimension.relaxes_sizeBeside _ _ made
  · -- read place by place: the 1s on the left fit words, too
    have hplaces := (forall_mem_iff_fromLast (Dimension.sized_fixed.2 (by decide : 1 < sizeLimit))).1 hsized
    refine sized_ofSizes.2 ((forall_mem_iff_fromLast (d := 1) (by decide)).2 (fun i => ?_))
    rw [hxs]
    exact (hplaces i).sizeBeside_lt _ hmade

/-- **Sizes can be made up so that they broadcast**, to any size where the answer leaves it open. -/
theorem ranked_broadcastsTo {c : Shape} (h : (ranked ds).broadcast (ranked es) = .ok c) (made : Nat)
    (hmade : made < sizeLimit) : (ranked ds).BroadcastsTo (ranked es) (c.sizesOr made) := by
  obtain ⟨fs, rfl, hlen, hplaces⟩ := ranked_broadcast_eq_ok.1 h
  obtain ⟨xs, hxs, hxlen, hx⟩ := exists_sizesBeside ds es hmade
  obtain ⟨ys, hys, hylen, hy⟩ := exists_sizesBeside es ds hmade
  refine ⟨xs, ys, hxs, hys, ⟨?_, fun i => ?_⟩⟩
  · rw [sizesOr, List.length_map, hlen, hxlen, hylen]
  · rw [hx, hy, fromLast_sizesOr]
    exact Dimension.stretches_sizeBeside (hplaces i) made

/-- What relaxes a shape of known rank filled with 0 and filled with 1 relaxes the shape. -/
theorem relaxes_of_sizesOr {d : Shape} {fs : List Dimension} (h0 : d.relaxes (ofSizes ((ranked fs).sizesOr 0)) = true)
    (h1 : d.relaxes (ofSizes ((ranked fs).sizesOr 1)) = true) : d.relaxes (ranked fs) = true := by
  cases d with
  | unknown => rfl
  | ranked ds =>
    obtain ⟨hlen, h0⟩ := ranked_relaxes_ofSizes.1 h0
    obtain ⟨-, h1⟩ := ranked_relaxes_ofSizes.1 h1
    refine ranked_relaxes_ranked_iff_fromLast.2 ⟨by simpa [sizesOr] using hlen, fun i => ?_⟩
    exact Dimension.relaxes_of_sizeOr (fromLast_sizesOr fs 0 i ▸ h0 i) (fromLast_sizesOr fs 1 i ▸ h1 i)

/-- The rank of an answer is known if those of both sides are. -/
theorem broadcast_cases {a b c : Shape} (h : a.broadcast b = .ok c) :
    (∃ ds es fs, a = ranked ds ∧ b = ranked es ∧ c = ranked fs) ∨ c = unknown ∧ (a = unknown ∨ b = unknown) := by
  cases a with
  | unknown => exact Or.inr ⟨(Except.ok.inj h).symm, Or.inl rfl⟩
  | ranked ds =>
    cases b with
    | unknown => exact Or.inr ⟨(Except.ok.inj h).symm, Or.inr rfl⟩
    | ranked es =>
      obtain ⟨fs, rfl, -⟩ := ranked_broadcast_eq_ok.1 h
      exact Or.inl ⟨ds, es, fs, rfl, rfl, rfl⟩

theorem exists_broadcastsTo_of_unknown {a b : Shape} (h : a = unknown ∨ b = unknown) (r : Nat) :
    ∃ zs, a.BroadcastsTo b zs ∧ r ≤ zs.length := by
  rcases h with rfl | rfl
  · exact exists_broadcastsTo_unknown b r
  · obtain ⟨zs, hzs, hlen⟩ := exists_broadcastsTo_unknown a r
    exact ⟨zs, hzs.symm, hlen⟩

/-- **Shapes broadcast only if some of their sizes do.** -/
theorem exists_broadcastsTo {a b c : Shape} (h : a.broadcast b = .ok c) : ∃ zs, a.BroadcastsTo b zs := by
  rcases broadcast_cases h with ⟨ds, es, fs, rfl, rfl, rfl⟩ | ⟨-, hunknown⟩
  · exact ⟨_, ranked_broadcastsTo h 0 (by decide)⟩
  · exact (exists_broadcastsTo_of_unknown hunknown 0).imp (fun _ => And.left)

/-- **Nothing more can be said than the answer says.** -/
theorem relaxes_of_forall_broadcastsTo {a b c d : Shape} (h : a.broadcast b = .ok c)
    (hd : ∀ zs, a.BroadcastsTo b zs → d.relaxes (ofSizes zs) = true) : d.relaxes c = true := by
  rcases broadcast_cases h with ⟨ds, es, fs, rfl, rfl, rfl⟩ | ⟨rfl, hunknown⟩
  · exact relaxes_of_sizesOr (hd _ (ranked_broadcastsTo h 0 (by decide))) (hd _ (ranked_broadcastsTo h 1 (by decide)))
  · cases d with
    | unknown => rfl
    | ranked ds =>
      -- no rank will do, since there are sizes of more places
      obtain ⟨zs, hzs, hlen⟩ := exists_broadcastsTo_of_unknown hunknown (ds.length + 1)
      have := (ranked_relaxes_ofSizes.1 (hd zs hzs)).1
      omega

/-- **Broadcasting shapes is the best abstraction of broadcasting sizes.**  It fails exactly if no sizes that the two
shapes allow broadcast.  If it has an answer, the answer covers all to which such sizes broadcast, and no shape that
covers them says more. -/
theorem broadcast_best (a b : Shape) :
    ((∃ e, a.broadcast b = .error e) ↔ ¬ ∃ zs, a.BroadcastsTo b zs) ∧
    ∀ c, a.broadcast b = .ok c →
      (∀ zs, a.BroadcastsTo b zs → c.relaxes (ofSizes zs) = true) ∧
      ∀ d : Shape, (∀ zs, a.BroadcastsTo b zs → d.relaxes (ofSizes zs) = true) → d.relaxes c = true := by
  constructor
  · constructor
    · rintro ⟨e, he⟩ ⟨zs, hzs⟩
      obtain ⟨c, hc, -⟩ := hzs.exists_broadcast
      cases he.symm.trans hc
    · intro hnone
      cases hab : a.broadcast b with
      | error e => exact ⟨e, rfl⟩
      | ok c => exact absurd (exists_broadcastsTo hab) hnone
  · refine fun c hc => ⟨fun zs hzs => ?_, fun d hd => relaxes_of_forall_broadcastsTo hc hd⟩
    obtain ⟨c', hc', hle⟩ := hzs.exists_broadcast
    exact Except.ok.inj (hc.symm.trans hc') ▸ hle

end Shape
end TensorGraph
