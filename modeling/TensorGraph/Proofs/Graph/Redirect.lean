import TensorGraph.Graph.Redirect
import TensorGraph.Proofs.Graph.Edges
/-!
# What a redirection changes

`redirect` replaces the source by the target in the inputs of every node that is not kept and
among the results, and moves the uses that go with it to the end of the target's list.  Seen
through the look-ups this is one substitution, `swap`.  The graph stays well formed if the
target does not depend on a node whose inputs change.

Moved back, every look-up is as it was, except that the uses of the source which had been moved
now stand behind those which had not.
-/
namespace TensorGraph

/-! ## Setting positions of a list -/

theorem getElem?_foldl_set {α : Type} (a : α) (k : Nat) : ∀ (ps : List Nat) (l : List α),
    (ps.foldl (fun l i => l.set i a) l)[k]? = if k ∈ ps then (l[k]?).map (fun _ => a) else l[k]?
  | [], l => by simp
  | p :: ps, l => by
    rw [List.foldl_cons, getElem?_foldl_set a k ps, List.getElem?_set']
    by_cases hp : p = k
    · subst hp
      cases l[p]? <;> simp
    · have hk : k ≠ p := fun e => hp e.symm
      simp [hp, hk]

namespace Graph

/-- The value that is read in place of another one. -/
def swap (source target v : ValueId) : ValueId := if v = source then target else v

@[simp] theorem swap_self (source target : ValueId) : swap source target source = target := if_pos rfl

theorem swap_of_ne {source target v : ValueId} (h : v ≠ source) : swap source target v = v := if_neg h

/-- Setting the positions of the source to the target is replacing it. -/
theorem foldl_set_eq_map_swap {source target : ValueId} {ps : List Nat} {l : List ValueId}
    (h : ∀ k, k ∈ ps ↔ l[k]? = some source) :
    ps.foldl (fun l i => l.set i target) l = l.map (swap source target) := by
  refine List.ext_getElem? (fun k => ?_)
  rw [getElem?_foldl_set, List.getElem?_map]
  by_cases hk : k ∈ ps
  · rw [if_pos hk, (h k).1 hk]
    simp
  · rw [if_neg hk]
    cases hv : l[k]? with
    | none => rfl
    | some v =>
      have hne : v ≠ source := fun he => hk ((h k).2 (he ▸ hv))
      rw [Option.map_some, swap_of_ne hne]

theorem foldl_set_foldl_set {source target : ValueId} {ps : List Nat} {l : List ValueId}
    (h : ∀ k ∈ ps, l[k]? = some source) :
    ps.foldl (fun l i => l.set i source) (ps.foldl (fun l i => l.set i target) l) = l := by
  refine List.ext_getElem? (fun k => ?_)
  rw [getElem?_foldl_set, getElem?_foldl_set]
  by_cases hk : k ∈ ps
  · rw [if_pos hk, if_pos hk, h k hk]
    rfl
  · rw [if_neg hk, if_neg hk]

/-! ## Moving uses -/

/-- The input positions of a node among some uses. -/
def positionsOf (uses : List Use) (id : NodeId) : List Nat := (uses.filter (fun u => u.node = id)).map Use.input

theorem mem_positionsOf {uses : List Use} {id : NodeId} {i : Nat} : i ∈ positionsOf uses id ↔ ⟨id, i⟩ ∈ uses := by
  unfold positionsOf
  rw [List.mem_map]
  constructor
  · rintro ⟨u, hu, rfl⟩
    obtain ⟨hu, hid⟩ := List.mem_filter.1 hu
    have hid : u.node = id := by simpa using hid
    exact hid ▸ hu
  · exact fun h => ⟨⟨id, i⟩, List.mem_filter.2 ⟨h, by simp⟩, rfl⟩

theorem sameFrame_setInput (g : Graph) (target : ValueId) (u : Use) : SameFrame g (g.setInput target u) :=
  SameFrame.modifyNode g u.node _

theorem value?_foldl_setInput (target v : ValueId) : ∀ (uses : List Use) (g : Graph),
    (uses.foldl (fun g u => g.setInput target u) g).value? v = g.value? v
  | [], _ => rfl
  | u :: uses, g => by
    rw [List.foldl_cons, value?_foldl_setInput target v uses]
    rfl

theorem node?_foldl_setInput (target : ValueId) (id : NodeId) : ∀ (uses : List Use) (g : Graph),
    (uses.foldl (fun g u => g.setInput target u) g).node? id = (g.node? id).map
      (fun n => { n with inputs := (positionsOf uses id).foldl (fun l i => l.set i target) n.inputs })
  | [], g => by
    rw [List.foldl_nil]
    cases g.node? id <;> rfl
  | u :: uses, g => by
    rw [List.foldl_cons, node?_foldl_setInput target id uses, setInput, node?_modifyNode]
    by_cases hu : u.node = id
    · cases g.node? id <;> simp [positionsOf, hu]
    · simp [positionsOf, hu]

theorem sameFrame_moveUses (g : Graph) (source target : ValueId) (uses : List Use) :
    SameFrame g (g.moveUses source target uses) :=
  ((SameFrame.foldl (fun g u => g.sameFrame_setInput target u) uses g).trans (SameFrame.modifyValue _ source _)).trans
    (SameFrame.modifyValue _ target _)

theorem node?_moveUses (g : Graph) (source target : ValueId) (uses : List Use) (id : NodeId) :
    (g.moveUses source target uses).node? id = (g.node? id).map
      (fun n => { n with inputs := (positionsOf uses id).foldl (fun l i => l.set i target) n.inputs }) :=
  node?_foldl_setInput target id uses g

theorem value?_moveUses (g : Graph) {source target : ValueId} (hne : source ≠ target) (uses : List Use) (v : ValueId) :
    (g.moveUses source target uses).value? v =
      if v = source then (g.value? v).map (fun val => { val with uses := val.uses.filter (fun u => !uses.contains u) })
      else if v = target then (g.value? v).map (fun val => { val with uses := val.uses ++ uses })
      else g.value? v := by
  simp only [moveUses, value?_modifyValue, value?_foldl_setInput]
  by_cases hs : v = source
  · subst hs
    simp [Ne.symm hne]
  · by_cases ht : v = target
    · subst ht
      simp [hne, hs]
    · simp [hs, ht, Ne.symm hs, Ne.symm ht]

theorem node?_moveResults (g : Graph) (v : ValueId) (positions : List Nat) (id : NodeId) :
    (g.moveResults v positions).node? id = g.node? id := rfl

theorem value?_moveResults (g : Graph) (v : ValueId) (positions : List Nat) (w : ValueId) :
    (g.moveResults v positions).value? w = g.value? w := rfl

theorem results_moveResults (g : Graph) (v : ValueId) (positions : List Nat) :
    (g.moveResults v positions).results = positions.foldl (fun l i => l.set i v) g.results := rfl

theorem parameters_moveResults (g : Graph) (v : ValueId) (positions : List Nat) :
    (g.moveResults v positions).parameters = g.parameters := rfl

theorem SameFrame.moveResults_back {g₁ g₂ g₃ : Graph} {v w : ValueId} {positions : List Nat} (hto : SameFrame g₁ g₂)
    (hback : SameFrame (g₂.moveResults v positions) g₃) (hr : (g₃.moveResults w positions).results = g₁.results) :
    SameFrame g₁ (g₃.moveResults w positions) where
  name := hback.name.trans hto.name
  registry := hback.registry.trans hto.registry
  parameters := hback.parameters.trans hto.parameters
  results := hr
  nodeSlots := hback.nodeSlots.trans hto.nodeSlots
  valueSlots := hback.valueSlots.trans hto.valueSlots

/-! ## Redirecting -/

/-- The uses that are moved. -/
def movedUses (g : Graph) (source : ValueId) (keep : List NodeId) : List Use :=
  (g.usesOf source).filter (fun u => !keep.contains u.node)

/-- The uses that stay. -/
def keptUses (g : Graph) (source : ValueId) (keep : List NodeId) : List Use :=
  (g.usesOf source).filter (fun u => keep.contains u.node)

/-- The positions among the results that name the source. -/
def resultPositions (g : Graph) (source : ValueId) : List Nat :=
  g.results.zipIdx.filterMap (fun p => if p.1 = source then some p.2 else none)

theorem redirect_snd (g : Graph) (source target : ValueId) (keep : List NodeId) : (g.redirect source target keep).2 =
    (g.moveUses source target (g.movedUses source keep)).moveResults target (g.resultPositions source) := rfl

theorem undoRedirect_redirect (g : Graph) (source target : ValueId) (keep : List NodeId) :
    (g.redirect source target keep).2.undoRedirect (g.redirect source target keep).1 =
      ((g.redirect source target keep).2.moveUses target source (g.movedUses source keep)).moveResults source
        (g.resultPositions source) := rfl

theorem redirect_fst_uses (g : Graph) (source target : ValueId) (keep : List NodeId) :
    (g.redirect source target keep).1.uses = g.movedUses source keep := rfl

section

variable {g : Graph} {source target : ValueId} {keep : List NodeId}

theorem mem_movedUses (h : g.WellFormed) {u : Use} :
    u ∈ g.movedUses source keep ↔ g.Reads u source ∧ u.node ∉ keep := by
  simp [movedUses, h.mem_usesOf]

theorem mem_keptUses (h : g.WellFormed) {u : Use} :
    u ∈ g.keptUses source keep ↔ g.Reads u source ∧ u.node ∈ keep := by
  simp [keptUses, h.mem_usesOf]

theorem filter_not_movedUses (g : Graph) (source : ValueId) (keep : List NodeId) :
    (g.usesOf source).filter (fun u => !(g.movedUses source keep).contains u) = g.keptUses source keep := by
  refine List.filter_congr (fun u hu => ?_)
  by_cases hk : u.node ∈ keep <;> simp [movedUses, hu, hk]

theorem mem_positionsOf_movedUses (h : g.WellFormed) {id : NodeId} {n : Node} (hn : g.node? id = some n)
    (hid : id ∉ keep) (i : Nat) : i ∈ positionsOf (g.movedUses source keep) id ↔ n.inputs[i]? = some source := by
  rw [mem_positionsOf, mem_movedUses h]
  constructor
  · rintro ⟨⟨m, hm, hi⟩, -⟩
    obtain rfl : n = m := Option.some.inj (hn.symm.trans hm)
    exact hi
  · exact fun hi => ⟨⟨n, hn, hi⟩, hid⟩

theorem positionsOf_movedUses_kept {id : NodeId} (hid : id ∈ keep) : positionsOf (g.movedUses source keep) id = [] := by
  refine List.eq_nil_iff_forall_not_mem.2 (fun i hi => ?_)
  have := (List.mem_filter.1 (mem_positionsOf.1 hi)).2
  simp [hid] at this

theorem mem_resultPositions (i : Nat) : i ∈ g.resultPositions source ↔ g.results[i]? = some source := by
  unfold resultPositions
  rw [List.mem_filterMap]
  constructor
  · rintro ⟨⟨v, k⟩, hv, hi⟩
    simp only [Option.ite_none_right_eq_some, Option.some.injEq] at hi
    obtain ⟨rfl, rfl⟩ := hi
    exact List.mk_mem_zipIdx_iff_getElem?.1 hv
  · exact fun hi => ⟨(source, i), List.mk_mem_zipIdx_iff_getElem?.2 hi, if_pos rfl⟩

theorem node?_redirect_kept {id : NodeId} (hid : id ∈ keep) :
    (g.redirect source target keep).2.node? id = g.node? id := by
  rw [redirect_snd, node?_moveResults, node?_moveUses, positionsOf_movedUses_kept hid]
  cases g.node? id <;> rfl

/-- **A node that is not kept reads the target in place of the source.** -/
theorem node?_redirect (h : g.WellFormed) {id : NodeId} (hid : id ∉ keep) :
    (g.redirect source target keep).2.node? id =
      (g.node? id).map (fun n => { n with inputs := n.inputs.map (swap source target) }) := by
  rw [redirect_snd, node?_moveResults, node?_moveUses]
  cases hn : g.node? id with
  | none => rfl
  | some n => rw [Option.map_some, Option.map_some, foldl_set_eq_map_swap (mem_positionsOf_movedUses h hn hid)]

theorem node?_of_redirect (h : g.WellFormed) {id : NodeId} {n : Node}
    (hn : (g.redirect source target keep).2.node? id = some n) : ∃ old, g.node? id = some old ∧
      n = { old with inputs := if id ∈ keep then old.inputs else old.inputs.map (swap source target) } := by
  by_cases hid : id ∈ keep
  · rw [node?_redirect_kept hid] at hn
    exact ⟨n, hn, by rw [if_pos hid]⟩
  · rw [node?_redirect h hid] at hn
    obtain ⟨old, hold, rfl⟩ := Option.map_eq_some_iff.1 hn
    exact ⟨old, hold, by rw [if_neg hid]⟩

theorem node?_redirect_of (h : g.WellFormed) {id : NodeId} {old : Node} (hn : g.node? id = some old) :
    (g.redirect source target keep).2.node? id =
      some { old with inputs := if id ∈ keep then old.inputs else old.inputs.map (swap source target) } := by
  by_cases hid : id ∈ keep
  · rw [node?_redirect_kept hid, if_pos hid, hn]
  · rw [node?_redirect h hid, if_neg hid, hn]
    rfl

theorem value?_redirect (hne : source ≠ target) (v : ValueId) : (g.redirect source target keep).2.value? v =
    if v = source then (g.value? v).map (fun val => { val with uses := g.keptUses source keep })
    else if v = target then (g.value? v).map (fun val => { val with uses := val.uses ++ g.movedUses source keep })
    else g.value? v := by
  rw [redirect_snd, value?_moveResults, value?_moveUses _ hne]
  by_cases hs : v = source
  · subst hs
    rw [if_pos rfl, if_pos rfl]
    cases hv : g.value? v with
    | none => rfl
    | some val =>
      have := filter_not_movedUses g v keep
      rw [usesOf_eq hv] at this
      simp only [Option.map_some, this]
  · rw [if_neg hs, if_neg hs]

theorem results_redirect : (g.redirect source target keep).2.results = g.results.map (swap source target) := by
  rw [redirect_snd, results_moveResults, (g.sameFrame_moveUses source target _).results,
    foldl_set_eq_map_swap mem_resultPositions]

theorem parameters_redirect : (g.redirect source target keep).2.parameters = g.parameters := by
  rw [redirect_snd, parameters_moveResults, (g.sameFrame_moveUses source target _).parameters]

theorem type?_redirect (hne : source ≠ target) (v : ValueId) :
    (g.redirect source target keep).2.type? v = g.type? v := by
  rw [type?, type?, value?_redirect hne]
  by_cases hs : v = source
  · rw [if_pos hs, Option.map_map]
    rfl
  · rw [if_neg hs]
    by_cases ht : v = target
    · rw [if_pos ht, Option.map_map]
      rfl
    · rw [if_neg ht]

theorem value?_of_redirect (hne : source ≠ target) {v : ValueId} {val : Value}
    (hv : (g.redirect source target keep).2.value? v = some val) :
    ∃ old, g.value? v = some old ∧ val.producer = old.producer ∧ val.index = old.index := by
  rw [value?_redirect hne] at hv
  split at hv
  · obtain ⟨old, hold, rfl⟩ := Option.map_eq_some_iff.1 hv
    exact ⟨old, hold, rfl, rfl⟩
  · split at hv
    · obtain ⟨old, hold, rfl⟩ := Option.map_eq_some_iff.1 hv
      exact ⟨old, hold, rfl, rfl⟩
    · exact ⟨val, hv, rfl, rfl⟩

theorem value?_redirect_of (hne : source ≠ target) {v : ValueId} {old : Value} (hv : g.value? v = some old) :
    ∃ val, (g.redirect source target keep).2.value? v = some val ∧ val.producer = old.producer ∧
      val.index = old.index := by
  rw [value?_redirect hne, hv]
  split
  · exact ⟨_, rfl, rfl, rfl⟩
  · split
    · exact ⟨_, rfl, rfl, rfl⟩
    · exact ⟨_, rfl, rfl, rfl⟩

theorem value?_redirect_isSome (hne : source ≠ target) {v : ValueId} :
    ((g.redirect source target keep).2.value? v).isSome = (g.value? v).isSome := by
  cases hv : g.value? v with
  | none =>
    cases hm : (g.redirect source target keep).2.value? v with
    | none => rfl
    | some val =>
      obtain ⟨old, hold, -⟩ := value?_of_redirect hne hm
      rw [hv] at hold
      cases hold
  | some old =>
    rw [value?_redirect hne, hv]
    split
    · rfl
    · split
      · rfl
      · rfl

/-! ## Well-formedness -/

theorem reads_redirect_kept {u : Use} (hu : u.node ∈ keep) {v : ValueId} :
    (g.redirect source target keep).2.Reads u v ↔ g.Reads u v := by
  unfold Reads
  rw [node?_redirect_kept hu]

theorem reads_redirect_iff (h : g.WellFormed) {u : Use} (hu : u.node ∉ keep) {v : ValueId} :
    (g.redirect source target keep).2.Reads u v ↔ ∃ w, g.Reads u w ∧ swap source target w = v := by
  unfold Reads
  rw [node?_redirect h hu]
  constructor
  · rintro ⟨n, hn, hv⟩
    obtain ⟨m, hm, rfl⟩ := Option.map_eq_some_iff.1 hn
    simp only [List.getElem?_map, Option.map_eq_some_iff] at hv
    obtain ⟨w, hw, hwv⟩ := hv
    exact ⟨w, ⟨m, hm, hw⟩, hwv⟩
  · rintro ⟨w, ⟨n, hn, hw⟩, hwv⟩
    refine ⟨_, by rw [hn]; rfl, ?_⟩
    simp only [List.getElem?_map, hw, Option.map_some, hwv]

theorem dependsOn_redirect (h : g.WellFormed) (hne : source ≠ target) {a b : NodeId}
    (hab : (g.redirect source target keep).2.DependsOn a b) :
    g.DependsOn a b ∨ (a ∈ (g.movedUses source keep).map Use.node ∧ g.producerId? target = some b) := by
  obtain ⟨n, v, val, hn, hv, hval, rfl⟩ := dependsOn_iff.1 hab
  obtain ⟨i, hread⟩ := reads_of_mem_inputs hn hv
  obtain ⟨old, hold, hp, -⟩ := value?_of_redirect hne hval
  have hkeep : ∀ {w : ValueId}, g.Reads ⟨a, i⟩ w → w = v → g.DependsOn a val.producer := by
    rintro w ⟨m, hm, hw⟩ rfl
    exact dependsOn_iff.2 ⟨m, w, old, hm, List.mem_of_getElem? hw, hold, hp.symm⟩
  by_cases hk : a ∈ keep
  · exact Or.inl (hkeep ((reads_redirect_kept hk).1 hread) rfl)
  · obtain ⟨w, hw, hwv⟩ := (reads_redirect_iff h hk).1 hread
    by_cases hws : w = source
    · subst hws
      rw [swap_self] at hwv
      subst hwv
      exact Or.inr ⟨List.mem_map.2 ⟨⟨a, i⟩, (mem_movedUses h).2 ⟨hw, hk⟩, rfl⟩, by rw [producerId?_eq_some hold, hp]⟩
    · rw [swap_of_ne hws] at hwv
      exact Or.inl (hkeep hw hwv)

/-- **Without a path from the target to a node whose inputs change, no cycle arises.** -/
theorem acyclic_redirect (h : g.WellFormed) (hne : source ≠ target)
    (hpath : ∀ p, g.producerId? target = some p → ∀ a ∈ (g.movedUses source keep).map Use.node,
      ¬ Relation.ReflTransGen g.DependsOn p a) : (g.redirect source target keep).2.Acyclic := by
  refine acyclic_of_wellFounded ⟨?_⟩
  have hwf := h.acyclic.wellFounded
  -- what the target depends on reads no moved use, so its dependencies are those it had
  have htarget : ∀ p, g.producerId? target = some p → ∀ a, Relation.ReflTransGen g.DependsOn p a →
      Acc (fun b a => (g.redirect source target keep).2.DependsOn a b) a := by
    intro p hp a
    induction a using hwf.induction with
    | _ a ih =>
      refine fun ha => ⟨_, fun b hab => ?_⟩
      rcases dependsOn_redirect h hne hab with hab | ⟨hmoved, -⟩
      · exact ih b hab (ha.tail hab)
      · exact absurd ha (hpath p hp a hmoved)
  intro a
  induction a using hwf.induction with
  | _ a ih =>
    refine ⟨_, fun b hab => ?_⟩
    rcases dependsOn_redirect h hne hab with hab | ⟨-, hb⟩
    · exact ih b hab
    · exact htarget b hb b .refl

theorem movedUses_nodup (h : g.WellFormed) : (g.movedUses source keep).Nodup := (h.usesOf_nodup source).filter _

theorem keptUses_nodup (h : g.WellFormed) : (g.keptUses source keep).Nodup := (h.usesOf_nodup source).filter _

theorem Reads.unique {u : Use} {v w : ValueId} (hv : g.Reads u v) (hw : g.Reads u w) : v = w := by
  obtain ⟨n, hn, hv⟩ := hv
  obtain ⟨m, hm, hw⟩ := hw
  obtain rfl : n = m := Option.some.inj (hn.symm.trans hm)
  exact Option.some.inj (hv.symm.trans hw)

theorem reads_redirect (h : g.WellFormed) {u : Use} {v : ValueId} : (g.redirect source target keep).2.Reads u v ↔
    (g.Reads u v ∧ (v = source → u.node ∈ keep)) ∨ (v = target ∧ g.Reads u source ∧ u.node ∉ keep) := by
  by_cases hk : u.node ∈ keep
  · rw [reads_redirect_kept hk]
    simp [hk]
  · rw [reads_redirect_iff h hk]
    constructor
    · rintro ⟨w, hw, rfl⟩
      by_cases hws : w = source
      · subst hws
        exact Or.inr ⟨swap_self _ _, hw, hk⟩
      · rw [swap_of_ne hws]
        exact Or.inl ⟨hw, fun he => absurd he hws⟩
    · rintro (⟨hu, hs⟩ | ⟨rfl, hu, -⟩)
      · exact ⟨v, hu, swap_of_ne (fun he => hk (hs he))⟩
      · exact ⟨source, hu, swap_self _ _⟩

theorem mem_uses_redirect (h : g.WellFormed) (hne : source ≠ target) {v : ValueId} {val : Value}
    (hv : (g.redirect source target keep).2.value? v = some val) (u : Use) :
    u ∈ val.uses ↔ (g.redirect source target keep).2.Reads u v := by
  rw [reads_redirect h]
  rw [value?_redirect hne] at hv
  by_cases hs : v = source
  · subst hs
    rw [if_pos rfl] at hv
    obtain ⟨old, hold, rfl⟩ := Option.map_eq_some_iff.1 hv
    simp [mem_keptUses h, hne]
  · rw [if_neg hs] at hv
    by_cases ht : v = target
    · subst ht
      rw [if_pos rfl] at hv
      obtain ⟨old, hold, rfl⟩ := Option.map_eq_some_iff.1 hv
      simp [mem_movedUses h, h.mem_uses hold, hs]
    · rw [if_neg ht] at hv
      simp [h.mem_uses hv, hs, ht]

theorem uses_nodup_redirect (h : g.WellFormed) (hne : source ≠ target) {v : ValueId} {val : Value}
    (hv : (g.redirect source target keep).2.value? v = some val) : val.uses.Nodup := by
  rw [value?_redirect hne] at hv
  split at hv
  · obtain ⟨old, -, rfl⟩ := Option.map_eq_some_iff.1 hv
    exact keptUses_nodup h
  · split at hv
    · rename_i ht
      obtain ⟨old, hold, rfl⟩ := Option.map_eq_some_iff.1 hv
      refine List.nodup_append.2 ⟨h.uses_nodup hold, movedUses_nodup h, fun a ha b hb hab => hne ?_⟩
      subst hab
      exact ((mem_movedUses h).1 hb).1.unique (ht ▸ (h.mem_uses hold a).1 ha)
    · exact h.uses_nodup hv

/-- **A graph stays well formed when uses are moved to a value that does not depend on them.** -/
theorem wellFormed_redirect (h : g.WellFormed) (hne : source ≠ target) (ht : (g.value? target).isSome = true)
    (hpath : ∀ p, g.producerId? target = some p → ∀ a ∈ (g.movedUses source keep).map Use.node,
      ¬ Relation.ReflTransGen g.DependsOn p a) : (g.redirect source target keep).2.WellFormed where
  input_live {id n v} hn hv := by
    rw [value?_redirect_isSome hne]
    obtain ⟨old, hold, rfl⟩ := node?_of_redirect h hn
    simp only at hv
    split at hv
    · exact h.input_live hold hv
    · obtain ⟨w, hw, rfl⟩ := List.mem_map.1 hv
      unfold swap
      split
      · exact ht
      · exact h.input_live hold hw
  produced {v val} hv := by
    obtain ⟨old, hold, hp, hi⟩ := value?_of_redirect hne hv
    obtain ⟨n, hn, hout⟩ := h.produced hold
    rw [hp, hi]
    exact ⟨_, node?_redirect_of h hn, hout⟩
  output_live {id n i v} hn hout := by
    obtain ⟨old, hold, rfl⟩ := node?_of_redirect h hn
    obtain ⟨val, hval, hp, hi⟩ := h.output_live hold hout
    obtain ⟨new, hnew, hp', hi'⟩ := value?_redirect_of hne hval
    exact ⟨new, hnew, hp'.trans hp, hi'.trans hi⟩
  uses_nodup hv := uses_nodup_redirect h hne hv
  mem_uses hv u := mem_uses_redirect h hne hv u
  result_live v hv := by
    rw [value?_redirect_isSome hne]
    rw [results_redirect] at hv
    obtain ⟨w, hw, rfl⟩ := List.mem_map.1 hv
    unfold swap
    split
    · exact ht
    · exact h.result_live w hw
  parameter_live v hv := by
    rw [value?_redirect_isSome hne]
    rw [parameters_redirect] at hv
    exact h.parameter_live v hv
  acyclic := acyclic_redirect h hne hpath

/-! ## Moving back -/

theorem node?_undoRedirect (h : g.WellFormed) (id : NodeId) :
    ((g.redirect source target keep).2.undoRedirect (g.redirect source target keep).1).node? id = g.node? id := by
  rw [undoRedirect_redirect, node?_moveResults, node?_moveUses, redirect_snd, node?_moveResults, node?_moveUses]
  cases hn : g.node? id with
  | none => rfl
  | some n =>
    by_cases hid : id ∈ keep
    · rw [positionsOf_movedUses_kept hid]
      rfl
    · simp only [Option.map_some]
      rw [foldl_set_foldl_set (fun i hi => (mem_positionsOf_movedUses h hn hid i).1 hi)]

/-- **Moved back, the uses of the source are as they were, except for their order.** -/
theorem value?_undoRedirect (h : g.WellFormed) (hne : source ≠ target) (v : ValueId) :
    ((g.redirect source target keep).2.undoRedirect (g.redirect source target keep).1).value? v =
      if v = source then (g.value? v).map (fun val =>
        { val with uses := g.keptUses source keep ++ g.movedUses source keep })
      else g.value? v := by
  rw [undoRedirect_redirect, value?_moveResults, value?_moveUses _ hne.symm, value?_redirect hne]
  by_cases ht : v = target
  · subst ht
    rw [if_pos rfl, if_neg hne.symm, if_pos rfl, if_neg hne.symm]
    cases hv : g.value? v with
    | none => rfl
    | some val =>
      simp only [Option.map_some, List.filter_append]
      -- a use of the target is no use of the source
      have hkeep : val.uses.filter (fun u => !(g.movedUses source keep).contains u) = val.uses := by
        refine List.filter_eq_self.2 (fun u hu => ?_)
        have : u ∉ g.movedUses source keep := fun hm =>
          hne (((mem_movedUses h).1 hm).1.unique ((h.mem_uses hv u).1 hu))
        simpa using this
      have hdrop : (g.movedUses source keep).filter (fun u => !(g.movedUses source keep).contains u) = [] :=
        List.filter_eq_nil_iff.2 (fun u hu => by simp [hu])
      rw [hkeep, hdrop, List.append_nil]
  · rw [if_neg ht]
    by_cases hs : v = source
    · subst hs
      rw [if_pos rfl, if_pos rfl, if_pos rfl, Option.map_map]
      rfl
    · rw [if_neg hs, if_neg hs, if_neg ht, if_neg hs]

theorem results_undoRedirect :
    ((g.redirect source target keep).2.undoRedirect (g.redirect source target keep).1).results = g.results := by
  rw [undoRedirect_redirect, results_moveResults, (sameFrame_moveUses _ target source _).results, redirect_snd,
    results_moveResults, (g.sameFrame_moveUses source target _).results]
  exact foldl_set_foldl_set (fun i hi => (mem_resultPositions i).1 hi)

theorem sameFrame_undoRedirect :
    SameFrame g ((g.redirect source target keep).2.undoRedirect (g.redirect source target keep).1) := by
  have hr : ((g.redirect source target keep).2.undoRedirect (g.redirect source target keep).1).results = g.results :=
    results_undoRedirect
  rw [undoRedirect_redirect, redirect_snd] at hr ⊢
  exact (g.sameFrame_moveUses source target _).moveResults_back (sameFrame_moveUses _ target source _) hr

/-- **Moving uses and moving them back changes no edge.** -/
theorem sameEdges_undoRedirect (h : g.WellFormed) (hne : source ≠ target) :
    SameEdges g ((g.redirect source target keep).2.undoRedirect (g.redirect source target keep).1) := by
  refine ⟨sameFrame_undoRedirect.parameters, results_undoRedirect, fun id => ?_, fun v => ?_, fun v => ?_⟩
  · rw [node?_undoRedirect h]
  · rw [value?_undoRedirect h hne]
    split
    · rw [Option.map_map]
      rfl
    · rfl
  · rw [usesOf, value?_undoRedirect h hne]
    split
    · rename_i hs
      subst hs
      cases hv : g.value? v with
      | none => rw [usesOf, hv]; exact .refl _
      | some val => exact List.filter_append_perm (fun u : Use => keep.contains u.node) (g.usesOf v)
    · exact .refl _

end

end Graph
end TensorGraph
