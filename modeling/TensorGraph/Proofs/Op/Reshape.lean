import TensorGraph.Proofs.Information.Product
import TensorGraph.Proofs.Op.Layout
/-!
# Reshaping and flattening — the elements are kept

A target asks for each of its places on its own (`Asks`); only an entry of -1 leaves its place open, and is solved for by
division.  Completeness is that every way of filling the open place which keeps the number of elements is found: the
other sizes divide that number, so their product, which is computed on the way, fits a word as well.

Flattening computes the totals of the two sides of a cut, each in words.  It fails where one of them overflows, and also
where a zero would have decided one of them but is eclipsed; so does reshaping sizes to themselves.
-/
namespace TensorGraph
namespace Infer

open Dimension (total leadingSizes Eclipsed)

/-! ## The entries of a target -/

/-- **What an entry of the target asks for** in its place.  An entry of -1 leaves the dimension open. -/
inductive Asks (copyZeros : Bool) (input : Shape) (index : Nat) : Int → Dimension → Prop
  | size {n : Nat} (h : 0 < n) : Asks copyZeros input index n (.fixed n)
  | zero (h : copyZeros = false) : Asks copyZeros input index 0 (.fixed 0)
  | copied {dims : List Dimension} {d : Dimension} (h : copyZeros = true) (hinput : input = .ranked dims)
      (hd : dims[index]? = some d) : Asks copyZeros input index 0 d
  | unknown (h : copyZeros = true) (hinput : input = .unknown) : Asks copyZeros input index 0 .dynamic
  | solved (d : Dimension) : Asks copyZeros input index (-1) d

/-- **The dimensions have the places that the target asks for**, of which at most one is left open. -/
structure Reshapes (copyZeros : Bool) (input : Shape) (target : List Int) (dims : List Dimension) : Prop where
  asked : List.Forall₂ (fun p d => Asks copyZeros input p.2 p.1 d) target.zipIdx dims
  open_le : target.count (-1) ≤ 1

/-- How an entry in its place is read: -1 stays open. -/
def Reads (copyZeros : Bool) (input : Shape) (p : Int × Nat) : Option Dimension → Prop
  | none => p.1 = -1
  | some d => p.1 ≠ -1 ∧ Asks copyZeros input p.2 p.1 d

section

variable {copyZeros : Bool} {s : Shape} {index : Nat} {target : List Int} {entries : List (Option Dimension)}

theorem Reshapes.length {dims : List Dimension} (h : Reshapes copyZeros s target dims) : dims.length = target.length := by
  rw [← h.asked.length_eq, List.length_zipIdx]

theorem targetDim_eq_ok_iff {size : Int} (h : size ≠ -1) {d : Dimension} :
    targetDim copyZeros s index size = .ok d ↔ Asks copyZeros s index size d := by
  unfold targetDim
  constructor
  · intro hd
    split at hd
    · rename_i hzero
      obtain ⟨rfl, hcopy⟩ := hzero
      split at hd
      · exact Except.ok.inj hd ▸ .unknown hcopy rfl
      · split at hd
        · rename_i hget
          exact Except.ok.inj hd ▸ .copied hcopy rfl hget
        · cases hd
    · rename_i hzero
      split at hd
      · rename_i hnonneg
        obtain ⟨n, rfl⟩ := Int.eq_ofNat_of_zero_le hnonneg
        obtain rfl := Except.ok.inj hd
        rcases Nat.eq_zero_or_pos n with rfl | hpos
        · exact .zero (by simpa using hzero)
        · exact .size hpos
      · cases hd
  · intro hd
    cases hd with
    | size hpos =>
      rw [if_neg (fun hzero => by omega), if_pos (by omega)]
      rfl
    | zero hcopy => simp [hcopy]
    | copied hcopy hinput hget => simp [hcopy, hinput, hget]
    | unknown hcopy hinput => simp [hcopy, hinput]
    | solved => exact absurd rfl h

theorem targetDims_eq_ok_iff : ∀ {target : List Int} {seen : Bool} {index : Nat} {entries : List (Option Dimension)},
    targetDims copyZeros s seen index target = .ok entries ↔
      target.count (-1) ≤ (if seen then 0 else 1) ∧ List.Forall₂ (Reads copyZeros s) (target.zipIdx index) entries
  | [], _, _, entries => by
    rw [targetDims, List.zipIdx_nil, List.forall₂_nil_left_iff, List.count_nil]
    exact ⟨fun h => ⟨Nat.zero_le _, (Except.ok.inj h).symm⟩, fun h => congrArg Except.ok h.2.symm⟩
  | size :: rest, seen, index, entries => by
    rw [targetDims, List.zipIdx_cons, List.forall₂_cons_left_iff]
    by_cases hopen : size = -1
    · subst hopen
      rw [if_pos rfl, List.count_cons_self]
      cases seen with
      | true =>
        constructor
        · intro h
          cases h
        · exact fun h => absurd h.1 (by simp)
      | false =>
        constructor
        · intro h
          obtain ⟨es, hes, h⟩ := bind_eq_ok.1 h
          obtain ⟨hcount, hreads⟩ := targetDims_eq_ok_iff.1 hes
          exact ⟨by simpa using hcount, none, es, rfl, hreads, (Except.ok.inj h).symm⟩
        · rintro ⟨hcount, e, es, he, hreads, rfl⟩
          cases e with
          | some d => exact absurd rfl he.1
          | none => exact bind_eq_ok.2 ⟨es, targetDims_eq_ok_iff.2 ⟨by simpa using hcount, hreads⟩, rfl⟩
    · rw [if_neg hopen, List.count_cons_of_ne hopen]
      constructor
      · intro h
        obtain ⟨d, hd, h⟩ := bind_eq_ok.1 h
        obtain ⟨es, hes, h⟩ := bind_eq_ok.1 h
        obtain ⟨hcount, hreads⟩ := targetDims_eq_ok_iff.1 hes
        exact ⟨hcount, some d, es, ⟨hopen, (targetDim_eq_ok_iff hopen).1 hd⟩, hreads, (Except.ok.inj h).symm⟩
      · rintro ⟨hcount, e, es, he, hreads, rfl⟩
        cases e with
        | none => exact absurd he hopen
        | some d =>
          exact bind_eq_ok.2 ⟨d, (targetDim_eq_ok_iff hopen).2 he.2,
            bind_eq_ok.2 ⟨es, targetDims_eq_ok_iff.2 ⟨hcount, hreads⟩, rfl⟩⟩

/-! ## Filling the open place -/

theorem asks_of_reads {ps : List (Int × Nat)} (h : List.Forall₂ (Reads copyZeros s) ps entries) (d : Dimension) :
    List.Forall₂ (fun p d => Asks copyZeros s p.2 p.1 d) ps (fillOpen d entries) := by
  rw [fillOpen, List.forall₂_map_right_iff]
  refine h.imp (fun p e he => ?_)
  cases e with
  | none =>
    rw [show p.1 = -1 from he]
    exact .solved _
  | some d => exact he.2

theorem count_none_of_reads : ∀ {target : List Int} {index : Nat} {entries : List (Option Dimension)},
    List.Forall₂ (Reads copyZeros s) (target.zipIdx index) entries → entries.count none = target.count (-1)
  | [], _, _, .nil => rfl
  | size :: rest, index, none :: es, .cons he hes => by
    rw [show size = -1 from he, List.count_cons_self, List.count_cons_self, count_none_of_reads hes]
  | size :: rest, index, some d :: es, .cons he hes => by
    rw [List.count_cons_of_ne he.1, List.count_cons_of_ne (Option.some_ne_none d), count_none_of_reads hes]

/-- **Up to their order, the dimensions are those that were read, and what fills the open places.** -/
theorem fillOpen_perm (d : Dimension) : ∀ entries : List (Option Dimension),
    (fillOpen d entries).Perm (List.replicate (entries.count none) d ++ entries.filterMap id)
  | [] => .nil
  | none :: es => by
    rw [List.count_cons_self, List.replicate_succ]
    exact (fillOpen_perm d es).cons d
  | some x :: es => by
    rw [List.count_cons_of_ne (Option.some_ne_none x)]
    exact ((fillOpen_perm d es).cons x).trans List.perm_middle.symm

/-- Without an open place there is nothing to fill. -/
theorem fillOpen_of_count_eq_zero (h : entries.count none = 0) (d d' : Dimension) :
    fillOpen d entries = fillOpen d' entries := by
  refine List.map_congr_left (fun e he => ?_)
  cases e with
  | none => exact absurd he (List.count_eq_zero.1 h)
  | some x => rfl

/-- Dimensions that have the places that the target asks for can be had by filling what is read of it. -/
theorem exists_fillOpen : ∀ {target : List Int} {index : Nat} {dims : List Dimension},
    List.Forall₂ (fun p d => Asks copyZeros s p.2 p.1 d) (target.zipIdx index) dims → target.count (-1) ≤ 1 →
      ∃ entries d, List.Forall₂ (Reads copyZeros s) (target.zipIdx index) entries ∧ fillOpen d entries = dims
  | [], _, _, .nil, _ => ⟨[], .dynamic, .nil, rfl⟩
  | size :: rest, index, d :: ds, .cons hd hds, hcount => by
    by_cases hopen : size = -1
    · subst hopen
      rw [List.count_cons_self] at hcount
      obtain ⟨es, d', hreads, hfill⟩ := exists_fillOpen hds (by omega)
      have hnone : es.count none = 0 := by
        rw [count_none_of_reads hreads]
        omega
      exact ⟨none :: es, d, .cons rfl hreads, congrArg (d :: ·) ((fillOpen_of_count_eq_zero hnone d d').trans hfill)⟩
    · rw [List.count_cons_of_ne hopen] at hcount
      obtain ⟨es, d', hreads, hfill⟩ := exists_fillOpen hds hcount
      exact ⟨some d :: es, d', .cons ⟨hopen, hd⟩ hreads, congrArg (d :: ·) hfill⟩

end

/-! ## Reshaping -/

section

variable {copyZeros : Bool} {x t : TensorType} {target : List Int} {entries : List (Option Dimension)}
  {dims : List Dimension}

theorem exists_fillOpen_of_solvedDims {s : Shape} (h : solvedDims s entries = .ok dims) :
    ∃ d, dims = fillOpen d entries := by
  unfold solvedDims at h
  split at h
  · obtain ⟨others, -, h⟩ := bind_eq_ok.1 h
    split at h
    · exact ⟨_, (Except.ok.inj h).symm⟩
    · cases h
  · exact ⟨_, (Except.ok.inj h).symm⟩

/-- The number of elements is compared wherever it is known on both sides. -/
theorem filledBy_eq_ok_iff : filledBy x dims = .ok t ↔ t = ⟨x.element, .ranked dims⟩ ∧
    (leadingSizes dims).prod < sizeLimit ∧ ∀ m n, x.shape.elementCount? = some m → total dims = .fixed n → m = n := by
  constructor
  · intro h
    refine ⟨filledBy_eq_ok h, ?_⟩
    obtain ⟨d, hd, h⟩ := bind_eq_ok.1 h
    obtain ⟨hlt, rfl⟩ := product_eq_ok_iff.1 hd
    refine ⟨hlt, fun m n hm hn => ?_⟩
    simp only [hm, hn] at h
    by_contra hne
    rw [if_neg hne] at h
    cases h
  · rintro ⟨rfl, hlt, hsame⟩
    refine bind_eq_ok.2 ⟨_, product_eq_ok_iff.2 ⟨hlt, rfl⟩, ?_⟩
    split
    · rename_i m n hm hn
      exact if_pos (hsame m n hm hn)
    · rfl

/-- **What reshaping leaves**: the dimensions that the target asks for, and as many elements as there were. -/
theorem reshapes_of_reshapeTo (h : reshapeTo copyZeros x target = .ok t) :
    ∃ dims, t = ⟨x.element, .ranked dims⟩ ∧ Reshapes copyZeros x.shape target dims ∧
      ∀ m n, x.shape.elementCount? = some m → t.shape.elementCount? = some n → m = n := by
  rw [reshapeTo_eq] at h
  obtain ⟨entries, hentries, h⟩ := bind_eq_ok.1 h
  obtain ⟨dims, hdims, h⟩ := bind_eq_ok.1 h
  obtain ⟨hopen, hreads⟩ := targetDims_eq_ok_iff.1 (mapError_eq_ok.1 hentries)
  obtain ⟨d, rfl⟩ := exists_fillOpen_of_solvedDims hdims
  obtain ⟨rfl, -, hsame⟩ := filledBy_eq_ok_iff.1 h
  exact ⟨_, rfl, ⟨asks_of_reads hreads d, hopen⟩,
    fun m n hm hn => hsame m n hm (Shape.elementCount?_eq_some_iff.1 hn).1⟩

end

/-! ## Reshaping sizes that are known -/

/-- **The sizes solve the target**: they have its places, and make up as many elements. -/
structure Solves (copyZeros : Bool) (sizes : List Nat) (target : List Int) (out : List Nat) : Prop where
  reshapes : Reshapes copyZeros (.ofSizes sizes) target (out.map .fixed)
  prod_eq : out.prod = sizes.prod

section

variable {copyZeros : Bool} {e : ElementType} {t : TensorType} {sizes : List Nat} {target : List Int} {index : Nat}
  {entries : List (Option Dimension)}

theorem exists_sizes_of_static {dims : List Dimension} (h : ∀ d ∈ dims, d.isStatic = true) :
    ∃ out : List Nat, dims = out.map .fixed :=
  ⟨_, ((Dimension.relaxesAll_sizeOr 0 dims).eq_of_static (List.all_eq_true.2 h)).symm⟩

/-- An entry that is read of known sizes is a size. -/
theorem isStatic_of_asks {entry : Int} {d : Dimension} (hopen : entry ≠ -1)
    (h : Asks copyZeros (.ofSizes sizes) index entry d) : d.isStatic = true := by
  cases h with
  | size | zero => rfl
  | copied _ hinput hd =>
    obtain rfl := Shape.ranked.inj hinput
    obtain ⟨n, -, rfl⟩ := List.mem_map.1 (List.mem_of_getElem? hd)
    rfl
  | unknown _ hinput => cases hinput
  | solved => exact absurd rfl hopen

theorem static_of_reads {ps : List (Int × Nat)} (h : List.Forall₂ (Reads copyZeros (.ofSizes sizes)) ps entries) :
    ∀ d ∈ entries.filterMap id, d.isStatic = true := by
  induction h with
  | nil => exact nofun
  | @cons p entry ps entries he _ ih =>
    cases entry with
    | none => exact ih
    | some d' =>
      intro d hd
      rcases List.mem_cons.1 hd with rfl | hd
      · exact isStatic_of_asks he.1 he.2
      · exact ih d hd

theorem mem_fillOpen_iff {d d' : Dimension} :
    d' ∈ fillOpen d entries ↔ none ∈ entries ∧ d' = d ∨ d' ∈ entries.filterMap id := by
  rw [(fillOpen_perm d entries).mem_iff, List.mem_append, List.mem_replicate, Ne, List.count_eq_zero, not_not]

theorem elementCount?_sizes (hlt : sizes.prod < sizeLimit) : (Shape.ofSizes sizes).elementCount? = some sizes.prod :=
  Shape.elementCount?_eq_some_iff.2 ⟨Dimension.total_sizes sizes, hlt⟩

/-- An open place beside sizes that make up some elements is solved for by division. -/
theorem solvedDims_eq_ok_iff {s : Shape} {n : Nat} {others : List Nat} {dims : List Dimension}
    (hcount : s.elementCount? = some n) (hothers : entries.filterMap id = others.map .fixed) (hopen : none ∈ entries)
    (hne : others.prod ≠ 0) : solvedDims s entries = .ok dims ↔
      others.prod < sizeLimit ∧ others.prod ∣ n ∧ dims = fillOpen (.fixed (n / others.prod)) entries := by
  rw [solvedDims, if_pos (List.contains_iff_mem.2 hopen), hothers, hcount]
  constructor
  · intro h
    obtain ⟨d, hd, h⟩ := bind_eq_ok.1 h
    obtain ⟨hlt, rfl⟩ := product_eq_ok_iff.1 hd
    have htotal := Dimension.total_sizes others
    refine ⟨(Dimension.prod_leadingSizes_lt_iff.1 hlt).1 _ htotal, ?_⟩
    rw [htotal, solveOpen?, if_neg hne] at h
    by_cases hmod : n % others.prod = 0
    · rw [if_pos hmod] at h
      exact ⟨Nat.dvd_of_mod_eq_zero hmod, (Except.ok.inj h).symm⟩
    · rw [if_neg hmod] at h
      cases h
  · rintro ⟨hlt, hdvd, rfl⟩
    refine bind_eq_ok.2 ⟨_, product_sizes hne hlt, ?_⟩
    rw [solveOpen?, if_neg hne, if_pos (Nat.mod_eq_zero_of_dvd hdvd)]

/-- The open place does not stay open: beside a zero no size gives the elements back. -/
theorem exists_sizes_of_filledBy (hne : sizes.prod ≠ 0) (hlt : sizes.prod < sizeLimit)
    (hreads : List.Forall₂ (Reads copyZeros (.ofSizes sizes)) (target.zipIdx index) entries) {dims : List Dimension}
    (hdims : solvedDims (.ofSizes sizes) entries = .ok dims) (h : filledBy ⟨e, .ofSizes sizes⟩ dims = .ok t) :
    ∃ out : List Nat, dims = out.map .fixed := by
  have hstatic := static_of_reads hreads
  have hcount := elementCount?_sizes hlt
  obtain ⟨others, hothers⟩ := exists_sizes_of_static hstatic
  obtain ⟨d, hd⟩ := exists_fillOpen_of_solvedDims hdims
  obtain ⟨-, -, hsame⟩ := filledBy_eq_ok_iff.1 h
  refine exists_sizes_of_static (fun d' hd' => ?_)
  by_cases hopen : none ∈ entries
  · have hprod : others.prod ≠ 0 := by
      intro hprod
      have hzero : Dimension.fixed 0 ∈ dims := by
        rw [hd, mem_fillOpen_iff, hothers]
        exact Or.inr (List.mem_map.2 ⟨0, List.prod_eq_zero_iff.1 hprod, rfl⟩)
      exact hne (hsame _ _ hcount (Dimension.total_of_zero hzero))
    obtain ⟨-, -, rfl⟩ := (solvedDims_eq_ok_iff hcount hothers hopen hprod).1 hdims
    rcases mem_fillOpen_iff.1 hd' with ⟨-, rfl⟩ | hd'
    · rfl
    · exact hstatic d' hd'
  · rw [hd, mem_fillOpen_iff] at hd'
    exact hstatic d' (hd'.resolve_left (fun h => hopen h.1))

/-- **Reshaping finds only solutions.** -/
theorem solves_of_reshapeTo (hne : sizes.prod ≠ 0) (hlt : sizes.prod < sizeLimit)
    (h : reshapeTo copyZeros ⟨e, .ofSizes sizes⟩ target = .ok t) :
    ∃ out, t = ⟨e, .ofSizes out⟩ ∧ Solves copyZeros sizes target out := by
  rw [reshapeTo_eq] at h
  obtain ⟨entries, hentries, h⟩ := bind_eq_ok.1 h
  obtain ⟨dims, hdims, h⟩ := bind_eq_ok.1 h
  obtain ⟨hopen, hreads⟩ := targetDims_eq_ok_iff.1 (mapError_eq_ok.1 hentries)
  obtain ⟨out, rfl⟩ := exists_sizes_of_filledBy hne hlt hreads hdims h
  obtain ⟨rfl, -, hsame⟩ := filledBy_eq_ok_iff.1 h
  obtain ⟨d, hd⟩ := exists_fillOpen_of_solvedDims hdims
  exact ⟨out, rfl, ⟨hd ▸ asks_of_reads hreads d, hopen⟩,
    (hsame _ _ (elementCount?_sizes hlt) (Dimension.total_sizes out)).symm⟩

/-- The open place takes what is left of the elements. -/
theorem prod_of_fillOpen {d : Dimension} {out others : List Nat} (hcount : entries.count none = 1)
    (hothers : entries.filterMap id = others.map .fixed) (hfill : fillOpen d entries = out.map .fixed) :
    ∃ m, d = .fixed m ∧ out.prod = m * others.prod := by
  have hperm := fillOpen_perm d entries
  rw [hcount, hothers, hfill] at hperm
  obtain ⟨m, -, rfl⟩ := List.mem_map.1 (hperm.mem_iff.2 List.mem_cons_self)
  refine ⟨m, rfl, ?_⟩
  have htotal : total (out.map .fixed) = total ((m :: others).map .fixed) := Dimension.total_perm hperm
  rw [Dimension.total_sizes, Dimension.total_sizes, List.prod_cons] at htotal
  exact Dimension.fixed.inj htotal

/-- **Reshaping misses no solution.** -/
theorem reshapeTo_of_solves (hne : sizes.prod ≠ 0) (hlt : sizes.prod < sizeLimit) {out : List Nat}
    (h : Solves copyZeros sizes target out) :
    reshapeTo copyZeros ⟨e, .ofSizes sizes⟩ target = .ok ⟨e, .ofSizes out⟩ := by
  obtain ⟨⟨hasked, hopen⟩, hprod⟩ := h
  obtain ⟨entries, d, hreads, hfill⟩ := exists_fillOpen hasked hopen
  have hcount := elementCount?_sizes hlt
  have hfilled : filledBy ⟨e, .ofSizes sizes⟩ (out.map .fixed) = .ok ⟨e, .ofSizes out⟩ := by
    rw [← hprod] at hne hlt
    refine filledBy_eq_ok_iff.2 ⟨rfl, (product_eq_ok_iff.1 (product_sizes hne hlt)).1, fun m n hm hn => ?_⟩
    rw [Dimension.total_sizes] at hn
    exact (Option.some.inj (hm.symm.trans hcount)).trans (hprod.symm.trans (Dimension.fixed.inj hn))
  rw [reshapeTo_eq]
  refine bind_eq_ok.2 ⟨entries, mapError_eq_ok.2 (targetDims_eq_ok_iff.2 ⟨hopen, hreads⟩),
    bind_eq_ok.2 ⟨out.map .fixed, ?_, hfilled⟩⟩
  by_cases hnone : none ∈ entries
  · have hone : entries.count none = 1 := by
      have := List.count_pos_iff.2 hnone
      rw [count_none_of_reads hreads] at this ⊢
      omega
    obtain ⟨others, hothers⟩ := exists_sizes_of_static (static_of_reads hreads)
    obtain ⟨m, rfl, hsplit⟩ := prod_of_fillOpen hone hothers hfill
    rw [hprod] at hsplit
    -- the other sizes divide the number of elements, so their product fits a word as well
    have hothers_ne : others.prod ≠ 0 := fun hzero => hne (by rw [hsplit, hzero, Nat.mul_zero])
    have hdvd : others.prod ∣ sizes.prod := ⟨m, hsplit.trans (Nat.mul_comm _ _)⟩
    refine (solvedDims_eq_ok_iff hcount hothers hnone hothers_ne).2
      ⟨Nat.lt_of_le_of_lt (Nat.le_of_dvd (Nat.pos_of_ne_zero hne) hdvd) hlt, hdvd, ?_⟩
    rw [hsplit, Nat.mul_div_cancel m (Nat.pos_of_ne_zero hothers_ne), hfill]
  · rw [solvedDims, if_neg (fun h => hnone (List.contains_iff_mem.1 h)), ← hfill]
    exact congrArg Except.ok (fillOpen_of_count_eq_zero (List.count_eq_zero.2 hnone) _ _)

end

/-- **Reshaping keeps the elements and misses no solution.**  What it leaves has the rank and the places that the target
asks for, of which at most one is open, and as many elements as there were wherever both numbers are known.  Sizes that
are known, and make up some elements that a word can count, are reshaped exactly to the sizes that solve the target; no
two solutions differ, so that the open place has one size at most. -/
theorem reshapeTo_exact (copyZeros : Bool) (x : TensorType) (target : List Int) :
    (∀ t, reshapeTo copyZeros x target = .ok t → ∃ dims, t = ⟨x.element, .ranked dims⟩ ∧ dims.length = target.length ∧
      Reshapes copyZeros x.shape target dims ∧
      ∀ m n, x.shape.elementCount? = some m → t.shape.elementCount? = some n → m = n) ∧
    ∀ sizes, x.shape = .ofSizes sizes → sizes.prod ≠ 0 → sizes.prod < sizeLimit →
      (∀ t, reshapeTo copyZeros x target = .ok t ↔
        ∃ out, t = ⟨x.element, .ofSizes out⟩ ∧ Solves copyZeros sizes target out) ∧
      ∀ out out', Solves copyZeros sizes target out → Solves copyZeros sizes target out' → out = out' := by
  obtain ⟨e, s⟩ := x
  constructor
  · intro t h
    obtain ⟨dims, ht, hreshapes, hsame⟩ := reshapes_of_reshapeTo h
    exact ⟨dims, ht, hreshapes.length, hreshapes, hsame⟩
  · rintro sizes rfl hne hlt
    refine ⟨fun t => ⟨solves_of_reshapeTo hne hlt, ?_⟩, fun out out' h h' => ?_⟩
    · rintro ⟨out, rfl, h⟩
      exact reshapeTo_of_solves hne hlt h
    · have hsame := (reshapeTo_of_solves hne hlt h).symm.trans (reshapeTo_of_solves (e := e) hne hlt h')
      have hdims := Shape.ranked.inj (congrArg TensorType.shape (Except.ok.inj hsame))
      exact List.map_injective_iff.2 (fun _ _ => Dimension.fixed.inj) hdims

/-- The first size is copied, the last one given, and the one between them solved for. -/
theorem reshapeTo_exact_copied :
    Solves true [2, 3, 4] [0, -1, 2] [2, 6, 2] ∧
      reshapeTo true ⟨.f32, .ofSizes [2, 3, 4]⟩ [0, -1, 2] = .ok ⟨.f32, .ofSizes [2, 6, 2]⟩ ∧
      ∀ out, Solves true [2, 3, 4] [0, -1, 2] out → out = [2, 6, 2] := by
  have hsolves : Solves true [2, 3, 4] [0, -1, 2] [2, 6, 2] :=
    ⟨⟨.cons (.copied rfl rfl rfl) (.cons (.solved _) (.cons (.size (by decide)) .nil)), by decide⟩, by decide⟩
  obtain ⟨-, hexact⟩ := reshapeTo_exact true ⟨.f32, .ofSizes [2, 3, 4]⟩ [0, -1, 2]
  obtain ⟨hok, hunique⟩ := hexact [2, 3, 4] rfl (by decide) (by decide)
  exact ⟨hsolves, (hok _).2 ⟨_, rfl, hsolves⟩, fun out h => hunique out _ h hsolves⟩

/-! ## Flattening, and reshaping to the same sizes -/

/-- An axis that counts from either end, the end itself included, cuts the dimensions in two. -/
theorem exists_cut {dims : List Dimension} {axis : Int} (hlow : -(dims.length : Int) ≤ axis)
    (hhigh : axis ≤ dims.length) :
    ∃ outer inner, dims = outer ++ inner ∧ (outer.length : Int) = (if axis < 0 then axis + dims.length else axis) ∧
      Axis.cut axis dims.length = .ok outer.length := by
  have hrange : 0 ≤ (if axis < 0 then axis + dims.length else axis) ∧
      (if axis < 0 then axis + dims.length else axis) ≤ dims.length := by
    split <;> omega
  obtain ⟨index, hindex⟩ := Int.eq_ofNat_of_zero_le hrange.1
  have hlength : (dims.take index).length = index := List.length_take_of_le (by omega)
  refine ⟨dims.take index, dims.drop index, (List.take_append_drop index dims).symm, by rw [hlength, hindex], ?_⟩
  unfold Axis.cut
  simp only
  rw [if_pos hrange, hindex, hlength, Int.toNat_natCast]

section

variable {e : ElementType} {t : TensorType} {outer inner : List Dimension} {axis : Int}

theorem flatten_eq_ok_iff (hcut : Axis.cut axis (outer ++ inner).length = .ok outer.length) :
    flatten axis ⟨e, .ranked (outer ++ inner)⟩ = .ok t ↔
      ((leadingSizes outer).prod < sizeLimit ∧ (leadingSizes inner).prod < sizeLimit) ∧
        t = ⟨e, .ranked [total outer, total inner]⟩ := by
  constructor
  · intro h
    obtain ⟨index, hindex, h⟩ := bind_eq_ok.1 h
    obtain rfl := Except.ok.inj (hcut.symm.trans hindex)
    rw [List.take_left, List.drop_left] at h
    obtain ⟨_, houter, h⟩ := bind_eq_ok.1 h
    obtain ⟨_, hinner, h⟩ := bind_eq_ok.1 h
    obtain ⟨hltOuter, rfl⟩ := product_eq_ok_iff.1 houter
    obtain ⟨hltInner, rfl⟩ := product_eq_ok_iff.1 hinner
    exact ⟨⟨hltOuter, hltInner⟩, (Except.ok.inj h).symm⟩
  · rintro ⟨⟨houter, hinner⟩, rfl⟩
    refine bind_eq_ok.2 ⟨outer.length, hcut, ?_⟩
    rw [List.take_left, List.drop_left]
    exact bind_eq_ok.2 ⟨_, product_eq_ok_iff.2 ⟨houter, rfl⟩,
      bind_eq_ok.2 ⟨_, product_eq_ok_iff.2 ⟨hinner, rfl⟩, rfl⟩⟩

/-- Two groups have as many elements as the dimensions that were put into them. -/
theorem elementCount?_groups (outer inner : List Dimension) :
    (Shape.ranked [total outer, total inner]).elementCount? = (Shape.ranked (outer ++ inner)).elementCount? := by
  refine Option.ext (fun n => ?_)
  rw [Shape.elementCount?_eq_some_iff, Shape.elementCount?_eq_some_iff, Dimension.total_append]

theorem targetDims_sizes (s : Shape) : ∀ (seen : Bool) (index : Nat) (sizes : List Nat),
    targetDims false s seen index (sizes.map (fun n : Nat => (n : Int))) = .ok (sizes.map (fun n => some (.fixed n)))
  | _, _, [] => rfl
  | seen, index, n :: sizes => by
    have hn : (n : Int) ≠ -1 := by omega
    have hd : targetDim false s index n = .ok (.fixed n) := by simp [targetDim]
    simp only [List.map_cons, targetDims, if_neg hn, hd, targetDims_sizes s seen (index + 1) sizes]
    rfl

/-- To reshape sizes to themselves, their product is all that has to be computed. -/
theorem reshapeTo_sizes_eq_ok_iff {sizes : List Nat} :
    reshapeTo false ⟨e, .ofSizes sizes⟩ (sizes.map (fun n : Nat => (n : Int))) = .ok ⟨e, .ofSizes sizes⟩ ↔
      (leadingSizes (sizes.map .fixed)).prod < sizeLimit := by
  have hsolved : solvedDims (.ofSizes sizes) (sizes.map (fun n => some (.fixed n))) = .ok (sizes.map .fixed) := by
    rw [solvedDims, if_neg (by simp), fillOpen, List.map_map]
    rfl
  have hfilled : reshapeTo false ⟨e, .ofSizes sizes⟩ (sizes.map (fun n : Nat => (n : Int))) =
      filledBy ⟨e, .ofSizes sizes⟩ (sizes.map .fixed) := by
    rw [reshapeTo_eq, targetDims_sizes]
    exact congrArg (· >>= filledBy ⟨e, .ofSizes sizes⟩) hsolved
  rw [hfilled]
  refine filledBy_eq_ok_iff.trans ⟨fun h => h.2.1, fun hlt => ⟨rfl, hlt, fun m n hm hn => ?_⟩⟩
  exact Dimension.fixed.inj ((Shape.elementCount?_eq_some_iff.1 hm).1.symm.trans hn)

theorem elementCount?_sizes_ne_none_iff {sizes : List Nat} :
    (Shape.ofSizes sizes).elementCount? ≠ none ↔ (total (sizes.map .fixed)).Sized := by
  rw [Option.ne_none_iff_exists', Dimension.total_sizes, Dimension.sized_fixed]
  constructor
  · rintro ⟨n, hn⟩
    obtain ⟨htotal, hlt⟩ := Shape.elementCount?_eq_some_iff.1 hn
    rw [Dimension.total_sizes] at htotal
    exact Dimension.fixed.inj htotal ▸ hlt
  · exact fun hlt => ⟨_, elementCount?_sizes hlt⟩

end

/-- **Sizes overflow where they are multiplied too early, and otherwise only if their product does.**  Flattening
succeeds if the total of the dimensions on each side of the cut is open or fits a word, and no zero and no unknown
dimension is eclipsed; what it leaves has as many elements as there were.  Sizes whose number of elements is known are
reshaped to themselves if none of them is eclipsed. -/
theorem flatten_exact (e : ElementType) (dims : List Dimension) {axis : Int} (hlow : -(dims.length : Int) ≤ axis)
    (hhigh : axis ≤ dims.length) :
    (∃ outer inner, dims = outer ++ inner ∧ (outer.length : Int) = (if axis < 0 then axis + dims.length else axis) ∧
      ∀ t, flatten axis ⟨e, .ranked dims⟩ = .ok t ↔ ((total outer).Sized ∧ (total inner).Sized) ∧
        (¬ Eclipsed outer ∧ ¬ Eclipsed inner) ∧ t = ⟨e, .ranked [total outer, total inner]⟩) ∧
    (∀ t, flatten axis ⟨e, .ranked dims⟩ = .ok t → t.shape.elementCount? = (Shape.ranked dims).elementCount?) ∧
    ∀ sizes : List Nat,
      reshapeTo false ⟨e, .ofSizes sizes⟩ (sizes.map (fun n : Nat => (n : Int))) = .ok ⟨e, .ofSizes sizes⟩ ↔
        (Shape.ofSizes sizes).elementCount? ≠ none ∧ ¬ Eclipsed (sizes.map .fixed) := by
  obtain ⟨outer, inner, rfl, hindex, hcut⟩ := exists_cut hlow hhigh
  refine ⟨⟨outer, inner, rfl, hindex, fun t => ?_⟩, fun t h => ?_, fun sizes => ?_⟩
  · rw [flatten_eq_ok_iff hcut, Dimension.prod_leadingSizes_lt_iff, Dimension.prod_leadingSizes_lt_iff]
    tauto
  · obtain ⟨-, rfl⟩ := (flatten_eq_ok_iff hcut).1 h
    exact elementCount?_groups outer inner
  · rw [reshapeTo_sizes_eq_ok_iff, Dimension.prod_leadingSizes_lt_iff, elementCount?_sizes_ne_none_iff]

/-- A zero that comes first is not eclipsed. -/
theorem flatten_exact_zero_first :
    flatten (-1) ⟨.f32, .ranked [.fixed 0, .fixed 0x8000000000000000, .fixed 2, .dynamic]⟩ =
      .ok ⟨.f32, .ranked [.fixed 0, .dynamic]⟩ := by
  obtain ⟨⟨outer, inner, hdims, hlength, hok⟩, -⟩ :=
    flatten_exact .f32 ([.fixed 0, .fixed 0x8000000000000000, .fixed 2] ++ [.dynamic]) (by decide : _ ≤ (-1 : Int))
      (by decide)
  obtain ⟨rfl, rfl⟩ := List.append_inj hdims (Int.ofNat.inj hlength).symm
  exact (hok _).2 ⟨⟨Dimension.sized_fixed.2 (by decide), nofun⟩, by unfold Eclipsed; decide, rfl⟩

/-- **A zero that is eclipsed**: the sizes before it overflow, though there are no elements. -/
theorem flatten_eclipsed :
    let dims : List Dimension := [.fixed 0x8000000000000000, .fixed 2, .fixed 0]
    (total dims = .fixed 0 ∧ total [] = .fixed 1 ∧ (Shape.ranked dims).elementCount? = some 0 ∧
      flatten 3 ⟨.f32, .ranked dims⟩ = .error (.sizeOverflow (.ranked dims))) ∧
    (Shape.ofSizes [0x4000000000000000, 4, 0]).elementCount? = some 0 ∧
      reshapeTo false ⟨.f32, .ofSizes [0x4000000000000000, 4, 0]⟩ [0x4000000000000000, 4, 0] =
        .error (.sizeOverflow (.ofSizes [0x4000000000000000, 4, 0])) := by
  decide

end Infer
end TensorGraph
