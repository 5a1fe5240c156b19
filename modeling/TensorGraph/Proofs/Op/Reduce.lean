import Mathlib.Data.Finset.Card
import Mathlib.Data.Finset.Filter
import Mathlib.Data.Finset.Range
import Mathlib.Data.Finset.Sort
import TensorGraph.Op.Infer
import TensorGraph.Proofs.Information.Answers
/-!
# Reduction — only the set of axes counts, and steps add up

An axis names a place, and the place may have two names.  A reduction looks at the set of places that are
named (`namedBy`), so order, repetition and the choice of names do not matter.  Places that were reduced stay
where they are as extents of 1, so that a second reduction finds the places of the first: what both name is
what the appended list names.  Without the extents of 1, the places that are named are missing (`without`).
-/
namespace TensorGraph

/-! ## Names of places -/

namespace Axis

/-- The axis names a place of a shape, counted from the first one or from the end. -/
def Names (rank : Nat) (axis : Int) (place : Nat) : Prop := place < rank ∧ (axis = place ∨ axis + rank = place)

instance (rank : Nat) (axis : Int) (place : Nat) : Decidable (Names rank axis place) :=
  inferInstanceAs (Decidable (_ ∧ _))

/-- The axes are the same, or two names of one place. -/
def Alike (rank : Nat) (a b : Int) : Prop := a = b ∨ ∃ i, Names rank a i ∧ Names rank b i

instance (rank : Nat) (a b : Int) : Decidable (Alike rank a b) :=
  decidable_of_iff (a = b ∨ ∃ i < rank, Names rank a i ∧ Names rank b i)
    (or_congr_right ⟨fun ⟨i, _, h⟩ => ⟨i, h⟩, fun ⟨i, h⟩ => ⟨i, h.1.1, h⟩⟩)

/-- **The lists agree but for order, repetition and the choice of names.** -/
structure SameAxes (rank : Nat) (as bs : List Int) : Prop where
  left : ∀ a ∈ as, ∃ b ∈ bs, Alike rank a b
  right : ∀ b ∈ bs, ∃ a ∈ as, Alike rank a b

/-- The places that the axes name. -/
def namedBy (rank : Nat) (axes : List Int) : Finset Nat :=
  (Finset.range rank).filter (fun i => ∃ axis ∈ axes, Names rank axis i)

variable {rank i : Nat} {axis a b : Int} {axes as bs : List Int}

theorem mem_namedBy : i ∈ namedBy rank axes ↔ ∃ axis ∈ axes, Names rank axis i := by
  rw [namedBy, Finset.mem_filter, Finset.mem_range, and_iff_right_iff_imp]
  exact fun ⟨_, _, hnames⟩ => hnames.1

theorem lt_of_mem_namedBy (h : i ∈ namedBy rank axes) : i < rank := by
  obtain ⟨_, _, hnames⟩ := mem_namedBy.1 h
  exact hnames.1

theorem Alike.symm (h : Alike rank a b) : Alike rank b a :=
  h.imp Eq.symm (fun ⟨i, ha, hb⟩ => ⟨i, hb, ha⟩)

theorem Names.eq {j : Nat} (hi : Names rank axis i) (hj : Names rank axis j) : i = j := by
  unfold Names at hi hj
  omega

theorem Alike.names_iff (h : Alike rank a b) : Names rank a i ↔ Names rank b i := by
  rcases h with rfl | ⟨j, ha, hb⟩
  · exact Iff.rfl
  · exact ⟨fun hi => ha.eq hi ▸ hb, fun hi => hb.eq hi ▸ ha⟩

theorem SameAxes.symm (h : SameAxes rank as bs) : SameAxes rank bs as where
  left b hb := (h.right b hb).imp (fun _ ⟨ha, hab⟩ => ⟨ha, hab.symm⟩)
  right a ha := (h.left a ha).imp (fun _ ⟨hb, hab⟩ => ⟨hb, hab.symm⟩)

theorem SameAxes.namedBy_eq (h : SameAxes rank as bs) : namedBy rank as = namedBy rank bs := by
  ext i
  rw [mem_namedBy, mem_namedBy]
  constructor
  · rintro ⟨a, ha, hi⟩
    obtain ⟨b, hb, hab⟩ := h.left a ha
    exact ⟨b, hb, hab.names_iff.1 hi⟩
  · rintro ⟨b, hb, hi⟩
    obtain ⟨a, ha, hab⟩ := h.right b hb
    exact ⟨a, ha, hab.names_iff.2 hi⟩

/-- What names only places still does so under other names. -/
theorem SameAxes.exists_names (h : SameAxes rank as bs) (has : ∀ a ∈ as, ∃ i, Names rank a i) :
    ∀ b ∈ bs, ∃ i, Names rank b i := by
  intro b hb
  obtain ⟨a, ha, hab⟩ := h.right b hb
  obtain ⟨i, hi⟩ := has a ha
  exact ⟨i, hab.names_iff.1 hi⟩

theorem signedWord_of_lt {n : Nat} (h : n < signedLimit) : signedWord n = n := by
  unfold signedWord
  exact Int.bmod_eq_of_le (by unfold sizeLimit; omega) (by unfold signedLimit at h; unfold sizeLimit; omega)

/-- **An axis is resolved to the place that it names.** -/
theorem normalize_eq_ok_iff (hrank : rank < signedLimit) : normalize axis (some rank) = .ok i ↔ Names rank axis i := by
  unfold normalize resolve? Names
  simp only [signedWord_of_lt hrank]
  grind

/-! ### In ascending order -/

theorem insertSorted_eq_orderedInsert (j : Nat) : ∀ is : List Nat, insertSorted j is = is.orderedInsert (· ≤ ·) j
  | [] => rfl
  | k :: is => by rw [insertSorted, List.orderedInsert_cons, insertSorted_eq_orderedInsert j is]

theorem foldr_insertSorted : ∀ is : List Nat, is.foldr insertSorted [] = is.insertionSort (· ≤ ·)
  | [] => rfl
  | j :: is => by rw [List.foldr_cons, foldr_insertSorted is, insertSorted_eq_orderedInsert, List.insertionSort_cons]

theorem mem_dropRepeats : ∀ {is : List Nat}, i ∈ dropRepeats is ↔ i ∈ is
  | [] => Iff.rfl
  | [_] => Iff.rfl
  | j :: k :: is => by
    rw [dropRepeats]
    split
    · rename_i hjk
      rw [mem_dropRepeats, List.mem_cons, List.mem_cons, List.mem_cons, hjk, or_self_left]
    · simp only [List.mem_cons, mem_dropRepeats]

theorem pairwise_dropRepeats : ∀ {is : List Nat}, is.Pairwise (· ≤ ·) → (dropRepeats is).Pairwise (· < ·)
  | [], _ => .nil
  | [_], _ => List.pairwise_singleton _ _
  | j :: k :: is, h => by
    obtain ⟨hj, his⟩ := List.pairwise_cons.1 h
    rw [dropRepeats]
    split
    · exact pairwise_dropRepeats his
    · rename_i hjk
      refine List.pairwise_cons.2 ⟨fun i hi => ?_, pairwise_dropRepeats his⟩
      have hle : k ≤ i := by
        rcases List.mem_cons.1 (mem_dropRepeats.1 hi) with rfl | hi
        · exact Nat.le_refl i
        · exact (List.pairwise_cons.1 his).1 i hi
      exact Nat.lt_of_lt_of_le (Nat.lt_of_le_of_ne (hj k List.mem_cons_self) hjk) hle

/-- **Sorting and dropping repetitions gives the members in ascending order.** -/
theorem ascending_eq_sort (is : List Nat) : ascending is = is.toFinset.sort := by
  have hsorted : (is.foldr insertSorted []).Pairwise (· ≤ ·) := by
    rw [foldr_insertSorted]
    exact List.pairwise_insertionSort (· ≤ ·) is
  have hascending : (ascending is).Pairwise (· < ·) := pairwise_dropRepeats hsorted
  refine List.Perm.eq_of_pairwise' (hascending.imp Nat.le_of_lt) (Finset.pairwise_sort _ _) ?_
  rw [List.perm_ext_iff_of_nodup (hascending.imp Nat.ne_of_lt) (Finset.sort_nodup _ _)]
  intro i
  rw [ascending, mem_dropRepeats, foldr_insertSorted, List.mem_insertionSort, Finset.mem_sort, List.mem_toFinset]

end Axis

section

variable {ε α β : Type} {f : α → Except ε β}

theorem exists_mapM_iff : ∀ {as : List α}, (∃ bs, as.mapM f = .ok bs) ↔ ∀ a ∈ as, ∃ b, f a = .ok b
  | [] => ⟨fun _ => nofun, fun _ => ⟨[], rfl⟩⟩
  | a :: as => by
    rw [List.forall_mem_cons, ← exists_mapM_iff, List.mapM_cons]
    constructor
    · rintro ⟨_, h⟩
      obtain ⟨b, hb, h⟩ := bind_eq_ok.1 h
      obtain ⟨bs, hbs, -⟩ := bind_eq_ok.1 h
      exact ⟨⟨b, hb⟩, bs, hbs⟩
    · rintro ⟨⟨b, hb⟩, bs, hbs⟩
      exact ⟨b :: bs, bind_eq_ok.2 ⟨b, hb, bind_eq_ok.2 ⟨bs, hbs, rfl⟩⟩⟩

theorem mem_iff_of_mapM : ∀ {as : List α} {bs : List β}, as.mapM f = .ok bs → ∀ b, b ∈ bs ↔ ∃ a ∈ as, f a = .ok b
  | [], _, h, b => by
    obtain rfl := Except.ok.inj h
    simp
  | a :: as, _, h, b => by
    rw [List.mapM_cons] at h
    obtain ⟨c, hc, h⟩ := bind_eq_ok.1 h
    obtain ⟨rest, hrest, h⟩ := bind_eq_ok.1 h
    obtain rfl := Except.ok.inj h
    rw [List.mem_cons, mem_iff_of_mapM hrest, List.exists_mem_cons_iff, hc, Except.ok.injEq, eq_comm]

end

namespace Infer

variable {x t : TensorType} {e : ElementType} {dims : List Dimension} {places : Finset Nat} {is : List Nat}
  {axes as bs : List Int}

/-! ## Dimensions at places -/

/-- Ones at the places of a set. -/
def onesAt (places : Finset Nat) (dims : List Dimension) : List Dimension :=
  dims.mapIdx (fun i d => if i ∈ places then .fixed 1 else d)

/-- The dimensions at the other places, in order. -/
def without (places : Finset Nat) (dims : List Dimension) : List Dimension :=
  reorder ((List.range dims.length).filter (· ∉ places)) dims

@[simp] theorem length_onesAt : (onesAt places dims).length = dims.length := List.length_mapIdx

/-- **As many dimensions are missing as there are places.** -/
theorem length_without (h : ∀ i ∈ places, i < dims.length) :
    (without places dims).length + places.card = dims.length := by
  have hplaces : (Finset.range dims.length).filter (· ∈ places) = places := by
    ext i
    simpa using h i
  have hcount := Finset.card_filter_add_card_filter_not (s := Finset.range dims.length) (· ∈ places)
  rw [hplaces, Finset.card_range, Nat.add_comm] at hcount
  rw [without, reorder, List.length_map]
  exact hcount

theorem without_onesAt : without places (onesAt places dims) = without places dims := by
  unfold without reorder
  rw [length_onesAt]
  refine List.map_congr_left (fun i hi => ?_)
  have hi' : i ∉ places := by simpa using (List.mem_filter.1 hi).2
  rw [onesAt, List.getD_eq_getElem?_getD, List.getD_eq_getElem?_getD, List.getElem?_mapIdx]
  simp [hi']

theorem onesAt_onesAt (places places' : Finset Nat) (dims : List Dimension) :
    onesAt places' (onesAt places dims) = onesAt (places ∪ places') dims := by
  rw [onesAt, onesAt, onesAt, List.mapIdx_mapIdx]
  refine List.mapIdx_eq_mapIdx_iff.2 (fun i _ => ?_)
  by_cases hi : i ∈ places <;> simp [hi]

theorem zipIdx_eq_map_range (dims : List Dimension) :
    dims.zipIdx = (List.range dims.length).map (fun i => (dims.getD i .dynamic, i)) := by
  refine List.ext_getElem (by simp) (fun i hi _ => ?_)
  rw [List.length_zipIdx] at hi
  simp [List.getD_eq_getElem?_getD, hi]

theorem reduceDims_true (h : ∀ i, i ∈ is ↔ i ∈ places) : reduceDims is true dims = onesAt places dims := by
  rw [reduceDims, onesAt, List.mapIdx_eq_zipIdx_map, ← List.filterMap_eq_map]
  refine List.filterMap_congr (fun (d, i) _ => ?_)
  by_cases hi : i ∈ places <;> simp [hi, h]

theorem reduceDims_false (h : ∀ i, i ∈ is ↔ i ∈ places) : reduceDims is false dims = without places dims := by
  rw [reduceDims, zipIdx_eq_map_range, without, reorder, List.filterMap_map, ← List.filterMap_eq_map,
    ← List.filterMap_eq_filter, List.filterMap_filterMap]
  refine List.filterMap_congr (fun i _ => ?_)
  by_cases hi : i ∈ places <;> simp [hi, h, Option.guard]

theorem reduceDims_keeping (is : List Nat) (dims : List Dimension) :
    reduceDims is true dims = onesAt is.toFinset dims := reduceDims_true (fun _ => List.mem_toFinset.symm)

/-- What a reduction leaves of the dimensions. -/
def reducedTo (places : Finset Nat) (keepDims : Bool) (dims : List Dimension) : List Dimension :=
  if keepDims then onesAt places dims else without places dims

theorem reduceDims_eq (keepDims : Bool) (h : ∀ i, i ∈ is ↔ i ∈ places) :
    reduceDims is keepDims dims = reducedTo places keepDims dims := by
  cases keepDims with
  | false => exact reduceDims_false h
  | true => exact reduceDims_true h

/-! ## One reduction -/

theorem reducedAxes_of_ne_nil (hne : axes ≠ []) (rank : Nat) :
    reducedAxes axes rank = (do
      let indices ← axes.mapM (fun axis => Axis.normalize axis (some rank))
      return Axis.ascending indices) :=
  if_neg (by simpa using hne)

/-- **What is reduced are the places that are named, in ascending order**, if each axis names one. -/
theorem reducedAxes_eq_ok_iff {rank : Nat} (hrank : rank < signedLimit) (hne : axes ≠ []) :
    reducedAxes axes rank = .ok is ↔ (∀ a ∈ axes, ∃ i, Axis.Names rank a i) ∧ is = (Axis.namedBy rank axes).sort := by
  have hplaces : ∀ {js}, axes.mapM (fun axis => Axis.normalize axis (some rank)) = .ok js →
      Axis.ascending js = (Axis.namedBy rank axes).sort := fun {js} hjs => by
    rw [Axis.ascending_eq_sort]
    congr 1
    ext i
    simp only [List.mem_toFinset, mem_iff_of_mapM hjs, Axis.normalize_eq_ok_iff hrank, Axis.mem_namedBy]
  simp only [reducedAxes_of_ne_nil hne, ← Axis.normalize_eq_ok_iff hrank, ← exists_mapM_iff]
  constructor
  · intro h
    obtain ⟨js, hjs, h⟩ := bind_eq_ok.1 h
    exact ⟨⟨js, hjs⟩, (Except.ok.inj h).symm.trans (hplaces hjs)⟩
  · rintro ⟨⟨js, hjs⟩, rfl⟩
    exact bind_eq_ok.2 ⟨js, hjs, congrArg Except.ok (hplaces hjs)⟩

/-- **A reduction leaves what it leaves at the places that are named**, if each axis names one. -/
theorem reduce_eq_ok_iff (hrank : dims.length < signedLimit) (hne : axes ≠ []) {keepDims : Bool} :
    reduce axes keepDims ⟨e, .ranked dims⟩ = .ok t ↔ e ≠ .boolean ∧ (∀ a ∈ axes, ∃ i, Axis.Names dims.length a i) ∧
      t = ⟨e, .ranked (reducedTo (Axis.namedBy dims.length axes) keepDims dims)⟩ := by
  unfold reduce
  by_cases he : e = .boolean
  · simp [he]
  simp only [he, if_false, ne_eq, not_false_eq_true, true_and, bind_eq_ok, reducedAxes_eq_ok_iff hrank hne]
  have hdims : reduceDims (Axis.namedBy dims.length axes).sort keepDims dims =
      reducedTo (Axis.namedBy dims.length axes) keepDims dims := reduceDims_eq keepDims (fun i => Finset.mem_sort _)
  constructor
  · rintro ⟨_, ⟨hnames, rfl⟩, h⟩
    exact ⟨hnames, by rw [← Except.ok.inj h, hdims]⟩
  · rintro ⟨hnames, rfl⟩
    exact ⟨_, ⟨hnames, rfl⟩, by rw [hdims]; rfl⟩

/-! ## One after the other -/

theorem reducedAxes_append (has : as ≠ []) (bs : List Int) (rank : Nat) :
    reducedAxes (as ++ bs) rank = (do
      let is ← as.mapM (fun axis => Axis.normalize axis (some rank))
      let js ← bs.mapM (fun axis => Axis.normalize axis (some rank))
      return Axis.ascending (is ++ js)) := by
  rw [reducedAxes_of_ne_nil (List.append_ne_nil_of_left_ne_nil has bs), List.mapM_append]
  simp only [bind_assoc, pure_bind]

theorem reduceDims_append (is js : List Nat) (dims : List Dimension) :
    reduceDims (Axis.ascending js) true (reduceDims (Axis.ascending is) true dims) =
      reduceDims (Axis.ascending (is ++ js)) true dims := by
  simp only [reduceDims_keeping, onesAt_onesAt, Axis.ascending_eq_sort, Finset.sort_toFinset, List.toFinset_append]

/-- **Two reductions that keep the rank are one by both lists**, and refuse the same axis. -/
theorem reduce_append (has : as ≠ []) (hbs : bs ≠ []) (x : TensorType) :
    (reduce as true x >>= reduce bs true) = reduce (as ++ bs) true x := by
  obtain ⟨e, s⟩ := x
  by_cases he : e = .boolean
  · simp only [reduce, he, if_true]
    rfl
  cases s with
  | unknown =>
    have hsame : ∀ axes, reduce axes true ⟨e, .unknown⟩ = .ok ⟨e, .unknown⟩ := fun axes => if_neg he
    rw [hsame, hsame]
    exact hsame bs
  | ranked dims =>
    have hrank : ∀ is, (reduceDims is true dims).length = dims.length := fun is => by
      rw [reduceDims_keeping, length_onesAt]
    simp only [reduce, he, if_false, reducedAxes_append has, reducedAxes_of_ne_nil has, reducedAxes_of_ne_nil hbs,
      bind_assoc, pure_bind, hrank, reduceDims_append]

end Infer

namespace Op

variable {op : ReduceOp} {axes as bs : List Int} {keepDims : Bool} {x : TensorType} {outs : List TensorType}
  {values : List (Option ConstantData)}

theorem validate_reduce : (reduce op axes keepDims).validate [x] values =
    (Infer.reduce axes keepDims x >>= fun t => .ok [t]) := rfl

theorem validate_reduce_eq_ok :
    (reduce op axes keepDims).validate [x] values = .ok outs ↔ ∃ t, Infer.reduce axes keepDims x = .ok t ∧ outs = [t] := by
  rw [validate_reduce]
  exact single_eq_ok

/-- With the rank kept or not, what an accepted reduction leaves. -/
theorem validate_reduce_eq_ok_iff {e : ElementType} {dims : List Dimension} (hrank : dims.length < signedLimit)
    (hne : axes ≠ []) : (reduce op axes keepDims).validate [⟨e, .ranked dims⟩] values = .ok outs ↔
      e ≠ .boolean ∧ (∀ a ∈ axes, ∃ i, Axis.Names dims.length a i) ∧
        outs = [⟨e, .ranked (Infer.reducedTo (Axis.namedBy dims.length axes) keepDims dims)⟩] := by
  rw [validate_reduce_eq_ok]
  simp only [Infer.reduce_eq_ok_iff hrank hne]
  constructor
  · rintro ⟨_, ⟨he, hnames, rfl⟩, rfl⟩
    exact ⟨he, hnames, rfl⟩
  · rintro ⟨he, hnames, rfl⟩
    exact ⟨_, ⟨he, hnames, rfl⟩, rfl⟩

/-- **Reductions are by sets of axes, and compose.**  Let the rank be known; it is the length of a list in memory, and so
fits a signed word.
- Lists of axes that agree but for order, repetition and the choice of names are reduced with the same result.
- Reducing over one list and then over another one, with the rank kept, is reducing over both at once, down to the axis
  that is refused.
- With the rank kept, the result has ones at the places that are named; it is refused if an axis names none.  Otherwise
  these places are missing from it, and the rank is less by their number. -/
theorem reduce_by_places (op : ReduceOp) {x : TensorType} {dims : List Dimension} (hx : x.shape = .ranked dims)
    (hrank : dims.length < signedLimit) (values : List (Option ConstantData)) :
    (∀ as bs keepDims, as ≠ [] → Axis.SameAxes dims.length as bs → ∀ outs,
      ((reduce op as keepDims).validate [x] values = .ok outs ↔ (reduce op bs keepDims).validate [x] values = .ok outs)) ∧
    (∀ as bs, as ≠ [] → bs ≠ [] →
      ((reduce op as true).validate [x] values >>= fun outs => (reduce op bs true).validate outs values) =
        (reduce op (as ++ bs) true).validate [x] values) ∧
    ∀ axes, axes ≠ [] → ∀ outs,
      ((reduce op axes true).validate [x] values = .ok outs ↔ x.element ≠ .boolean ∧
        (∀ a ∈ axes, ∃ i, Axis.Names dims.length a i) ∧
        outs = [⟨x.element, .ranked (Infer.onesAt (Axis.namedBy dims.length axes) dims)⟩]) ∧
      ((reduce op axes false).validate [x] values = .ok outs ↔ ∃ kept,
        (reduce op axes true).validate [x] values = .ok [⟨x.element, .ranked kept⟩] ∧
        outs = [⟨x.element, .ranked (Infer.without (Axis.namedBy dims.length axes) kept)⟩] ∧
        (Infer.without (Axis.namedBy dims.length axes) kept).length + (Axis.namedBy dims.length axes).card =
          kept.length) := by
  obtain ⟨e, s⟩ := x
  obtain rfl : s = .ranked dims := hx
  refine ⟨fun as bs keepDims has hsame outs => ?_, fun as bs has hbs => ?_, fun axes hne outs => ⟨?_, ?_⟩⟩
  · have hbs : bs ≠ [] := by
      obtain ⟨a, ha⟩ := List.exists_mem_of_ne_nil as has
      obtain ⟨b, hb, -⟩ := hsame.left a ha
      exact List.ne_nil_of_mem hb
    rw [validate_reduce_eq_ok_iff hrank has, validate_reduce_eq_ok_iff hrank hbs, hsame.namedBy_eq]
    exact and_congr_right (fun _ => and_congr_left (fun _ => ⟨hsame.exists_names, hsame.symm.exists_names⟩))
  · simp only [validate_reduce, ← Infer.reduce_append has hbs, bind_assoc]
    rfl
  · exact validate_reduce_eq_ok_iff hrank hne
  · simp only [validate_reduce_eq_ok_iff hrank hne]
    constructor
    · rintro ⟨he, hnames, rfl⟩
      refine ⟨Infer.onesAt (Axis.namedBy dims.length axes) dims, ⟨he, hnames, rfl⟩, ?_, ?_⟩
      · rw [Infer.reducedTo, if_neg Bool.false_ne_true, Infer.without_onesAt]
      · rw [Infer.without_onesAt, Infer.length_onesAt]
        exact Infer.length_without (fun i hi => Axis.lt_of_mem_namedBy hi)
    · rintro ⟨kept, ⟨he, hnames, hkept⟩, rfl, -⟩
      obtain rfl : kept = Infer.onesAt (Axis.namedBy dims.length axes) dims := by simpa [Infer.reducedTo] using hkept
      refine ⟨he, hnames, ?_⟩
      rw [Infer.reducedTo, if_neg Bool.false_ne_true, Infer.without_onesAt]

/-- The first and the last axis of three, named in two ways, and reduced one after the other. -/
theorem reduce_by_places_of_rank_three :
    (reduce .mean [2, 0, -1] false).validate [⟨.f32, .ranked [.fixed 2, .dynamic, .fixed 4]⟩] [] =
        .ok [⟨.f32, .ranked [.dynamic]⟩] ∧
      ((reduce .mean [-1] true).validate [⟨.f32, .ranked [.fixed 2, .dynamic, .fixed 4]⟩] [] >>= fun outs =>
          (reduce .mean [0] true).validate outs []) =
        .ok [⟨.f32, .ranked [.fixed 1, .dynamic, .fixed 1]⟩] := by
  obtain ⟨hsame, hsteps, -⟩ := reduce_by_places .mean
    (x := ⟨.f32, .ranked [.fixed 2, .dynamic, .fixed 4]⟩) rfl (by decide) []
  exact ⟨(hsame [0, -1] [2, 0, -1] false (by decide) ⟨by decide, by decide⟩ _).1 rfl,
    (hsteps [-1] [0] (by decide) (by decide)).trans rfl⟩

end Op
end TensorGraph
