import TensorGraph.Proofs.Graph.Growth
import TensorGraph.Proofs.Graph.Redirect
import TensorGraph.Proofs.Graph.Remove
import TensorGraph.Rewrite.Apply
/-!
# Discard — taking back what was added

`Atop g h` says that `h` is `g` with newer nodes on top of it: they read old values and each
other, and nothing that is old knows of them but the lists of uses.  Nodes are discarded from the
newest down, so none of them is read any more when its turn comes.  What is left is `g` again,
with some empty slots at the end (`spend`).
-/
namespace TensorGraph

/-- The value with the uses by nodes below a mark. -/
def Value.usedBelow (mark : Nat) (val : Value) : Value :=
  { val with uses := val.uses.filter (fun u => u.node.index < mark) }

namespace Graph

/-! ## Spent slots -/

/-- The graph with empty slots at the end. -/
def spend (g : Graph) (nodes values : Nat) : Graph :=
  { g with nodes := g.nodes ++ Array.replicate nodes none, values := g.values ++ Array.replicate values none }

theorem join_getElem?_append_replicate {α : Type} (xs : Array (Option α)) (n i : Nat) :
    (xs ++ Array.replicate n none)[i]?.join = xs[i]?.join := by
  by_cases hi : i < xs.size
  · rw [Array.getElem?_append_left hi]
  · rw [Array.getElem?_append_right (Nat.le_of_not_lt hi), Array.getElem?_replicate,
      Array.getElem?_eq_none (Nat.le_of_not_lt hi)]
    split
    · rfl
    · rfl

@[simp] theorem node?_spend (g : Graph) (n m : Nat) (id : NodeId) : (g.spend n m).node? id = g.node? id :=
  join_getElem?_append_replicate g.nodes n id.index

@[simp] theorem value?_spend (g : Graph) (n m : Nat) (v : ValueId) : (g.spend n m).value? v = g.value? v :=
  join_getElem?_append_replicate g.values m v.index

@[simp] theorem type?_spend (g : Graph) (n m : Nat) (v : ValueId) : (g.spend n m).type? v = g.type? v := by
  rw [type?, type?, value?_spend]

@[simp] theorem producer?_spend (g : Graph) (n m : Nat) (v : ValueId) : (g.spend n m).producer? v = g.producer? v := by
  rw [producer?, producer?, producerId?, producerId?, value?_spend]
  exact congrArg _ (funext (node?_spend g n m))

@[simp] theorem nodeSlots_spend (g : Graph) (n m : Nat) : (g.spend n m).nodeSlots = g.nodeSlots + n := by
  simp [spend, nodeSlots]

@[simp] theorem valueSlots_spend (g : Graph) (n m : Nat) : (g.spend n m).valueSlots = g.valueSlots + m := by
  simp [spend, valueSlots]

/-- **Spent slots have no edges.** -/
theorem sameEdges_spend (g : Graph) (n m : Nat) : SameEdges g (g.spend n m) :=
  ⟨rfl, rfl, fun id => by rw [node?_spend], fun v => by rw [value?_spend],
    fun v => by rw [usesOf, usesOf, value?_spend]⟩

theorem spend_zero (g : Graph) : g.spend 0 0 = g := by simp [spend]

/-! ## Discarding from the newest down -/

/-- The second graph is the first without the nodes from a mark on. -/
structure CutAt (h k : Graph) (mark : Nat) : Prop where
  frame : SameFrame h k
  node?_eq : ∀ id, k.node? id = if id.index < mark then h.node? id else none
  value?_eq : ∀ v, k.value? v =
    (h.value? v).bind (fun val => if val.producer.index < mark then some (val.usedBelow mark) else none)

/-- What is needed to cut a graph at a mark: nothing below it depends on anything above it. -/
structure Cuttable (h : Graph) (mark : Nat) : Prop where
  results_old : ∀ v ∈ h.results, ∀ val, h.value? v = some val → val.producer.index < mark
  parameters_old : ∀ v ∈ h.parameters, ∀ val, h.value? v = some val → val.producer.index < mark
  new_later : ∀ {a b : NodeId}, h.DependsOn a b → mark ≤ b.index → b.index < a.index

theorem usedBelow_of_live {h : Graph} (hh : h.WellFormed) {v : ValueId} {val : Value} (hv : h.value? v = some val) :
    val.usedBelow h.nodeSlots = val := by
  have : val.uses.filter (fun u => u.node.index < h.nodeSlots) = val.uses := by
    refine List.filter_eq_self.2 (fun u hu => ?_)
    have hlt := ((hh.mem_uses hv u).1 hu).lt_nodeSlots
    simpa using hlt
  simp only [Value.usedBelow, this]

theorem cutAt_nodeSlots {h : Graph} (hh : h.WellFormed) : CutAt h h h.nodeSlots := by
  refine ⟨.refl h, fun id => ?_, fun v => ?_⟩
  · split
    · rfl
    · rename_i hlt
      cases hn : h.node? id with
      | none => rfl
      | some n => exact absurd (node?_lt hn) hlt
  · cases hv : h.value? v with
    | none => rfl
    | some val =>
      obtain ⟨n, hn, -⟩ := hh.produced hv
      rw [Option.bind_some, if_pos (node?_lt hn), usedBelow_of_live hh hv]

section

variable {h k : Graph} {mark c : Nat}

theorem CutAt.skip (hh : h.WellFormed) (hcut : CutAt h k (c + 1)) (hn : h.node? ⟨c⟩ = none) : CutAt h k c := by
  -- no node has the number, so no producer and no reader of a value has it
  have hne : ∀ {id : NodeId} {n : Node}, h.node? id = some n → id.index ≠ c := fun {id n} hid he => by
    obtain rfl : id = ⟨c⟩ := NodeId.ext he
    rw [hn] at hid
    cases hid
  refine ⟨hcut.frame, fun id => ?_, fun v => ?_⟩
  · rw [hcut.node?_eq]
    cases hid : h.node? id with
    | none => simp
    | some n =>
      have := hne hid
      simp only [show id.index < c + 1 ↔ id.index < c by omega]
  · rw [hcut.value?_eq]
    cases hv : h.value? v with
    | none => rfl
    | some val =>
      obtain ⟨n, hp, -⟩ := hh.produced hv
      have hp := hne hp
      have huses : val.uses.filter (fun u => u.node.index < c + 1) = val.uses.filter (fun u => u.node.index < c) := by
        refine List.filter_congr (fun u hu => ?_)
        obtain ⟨m, hm, -⟩ := (hh.mem_uses hv u).1 hu
        have := hne hm
        simp only [show u.node.index < c + 1 ↔ u.node.index < c by omega]
      simp only [Option.bind_some, show val.producer.index < c + 1 ↔ val.producer.index < c by omega,
        Value.usedBelow, huses]

section

variable {n : Node} (hh : h.WellFormed) (hc : Cuttable h mark) (hmark : mark ≤ c) (hcut : CutAt h k (c + 1))
  (hn : h.node? ⟨c⟩ = some n)

include hh hc hmark hcut hn

/-- The newest node that is left is read by nobody. -/
theorem CutAt.outputs_unused : n.outputs.all k.isUnused = true := by
  refine List.all_eq_true.2 (fun v hv => isUnused_iff.2 ?_)
  obtain ⟨val, hval, hp⟩ := hh.output_live' hn hv
  constructor
  · intro hr
    have hold := hc.results_old v (hcut.frame.results ▸ hr) val hval
    rw [hp] at hold
    exact absurd hold (Nat.not_lt.2 hmark)
  · have hkv : k.value? v = some (val.usedBelow (c + 1)) := by
      rw [hcut.value?_eq, hval, Option.bind_some, if_pos (by rw [hp]; exact Nat.lt_succ_self c)]
    rw [usesOf_eq hkv]
    refine List.filter_eq_nil_iff.2 (fun u hu => ?_)
    have hdep : h.DependsOn u.node ⟨c⟩ := hp ▸ ((hh.mem_uses hval u).1 hu).dependsOn hval
    have hlater : c < u.node.index := hc.new_later hdep hmark
    simp only [decide_eq_true_eq]
    omega

theorem CutAt.parameters_kept : k.parameters.filter (fun v => !n.outputs.contains v) = h.parameters := by
  rw [hcut.frame.parameters]
  refine List.filter_eq_self.2 (fun v hv => ?_)
  have hmem : v ∉ n.outputs := fun hmem => by
    obtain ⟨val, hval, hp⟩ := hh.output_live' hn hmem
    have hold := hc.parameters_old v hv val hval
    rw [hp] at hold
    exact absurd hold (Nat.not_lt.2 hmark)
  simpa using hmem

omit hc hmark in
theorem CutAt.value?_takeOut (v : ValueId) : (k.takeOut ⟨c⟩ n).value? v =
    (h.value? v).bind (fun val => if val.producer.index < c then some (val.usedBelow c) else none) := by
  have hinputs : ∀ v val, k.value? v = some val → ∀ u ∈ val.uses, u.node = ⟨c⟩ → v ∈ n.inputs := by
    intro v val hv u hu hid
    rw [hcut.value?_eq] at hv
    obtain ⟨old, hold, hif⟩ := Option.bind_eq_some_iff.1 hv
    split at hif
    · obtain rfl := Option.some.inj hif
      exact hh.mem_inputs_of_use hn v old hold u (List.mem_filter.1 hu).1 hid
    · cases hif
  rw [Graph.value?_takeOut hinputs, hcut.value?_eq]
  cases hv : h.value? v with
  | none => simp
  | some val =>
    rw [Option.bind_some, Option.bind_some]
    have hout : v ∈ n.outputs ↔ val.producer.index = c :=
      (hh.mem_outputs_iff hn hv).trans ⟨congrArg NodeId.index, NodeId.ext⟩
    by_cases hp : val.producer.index < c
    · have hmem : v ∉ n.outputs := fun hmem => Nat.ne_of_lt hp (hout.1 hmem)
      have huses : (val.usedBelow (c + 1)).uses.filter (fun u => u.node ≠ ⟨c⟩) = (val.usedBelow c).uses := by
        simp only [Value.usedBelow, List.filter_filter]
        refine List.filter_congr (fun u _ => ?_)
        rw [← Bool.decide_and]
        refine decide_eq_decide.2 ?_
        have hnode : u.node = ⟨c⟩ ↔ u.node.index = c := NodeId.index_inj.symm
        rw [Ne, hnode]
        omega
      rw [if_neg hmem, if_pos (Nat.lt_succ_of_lt hp), if_pos hp, Option.map_some, Value.withoutNode, huses]
      rfl
    · rw [if_neg hp]
      split
      · rfl
      · rename_i hmem
        have hne : val.producer.index ≠ c := fun he => hmem (hout.2 he)
        rw [if_neg (by omega)]
        rfl

/-- **The newest node that is left can be removed.** -/
theorem CutAt.remove : CutAt h (k.remove ⟨c⟩) c := by
  have hkn : k.node? ⟨c⟩ = some n := by rw [hcut.node?_eq, if_pos (Nat.lt_succ_self c), hn]
  rw [remove_eq hkn (hcut.outputs_unused hh hc hmark hn)]
  refine ⟨⟨?_, ?_, ?_, ?_, ?_, ?_⟩, fun id => ?_, hcut.value?_takeOut hh hn⟩
  · rw [name_takeOut, hcut.frame.name]
  · rw [registry_takeOut, hcut.frame.registry]
  · rw [parameters_takeOut, hcut.parameters_kept hh hc hmark hn]
  · rw [results_takeOut, hcut.frame.results]
  · rw [nodeSlots_takeOut, hcut.frame.nodeSlots]
  · rw [valueSlots_takeOut, hcut.frame.valueSlots]
  · rw [node?_takeOut, hcut.node?_eq]
    by_cases hid : id.index = c
    · obtain rfl : id = ⟨c⟩ := NodeId.ext hid
      simp
    · have hne : (⟨c⟩ : NodeId) ≠ id := fun he => hid (he ▸ rfl)
      rw [if_neg hne]
      simp only [show id.index < c + 1 ↔ id.index < c by omega]

end

theorem cutAt_foldl_remove (hh : h.WellFormed) (hc : Cuttable h mark) : ∀ (count : Nat) (k : Graph),
    CutAt h k (mark + count) →
      CutAt h
        ((((List.range' mark count).map NodeId.mk).filter (fun id => (h.node? id).isSome)).reverse.foldl remove k) mark
  | 0, _, hcut => hcut
  | count + 1, k, hcut => by
    rw [List.range'_concat, List.map_append, List.filter_append, List.reverse_append, List.foldl_append, Nat.one_mul]
    simp only [List.map_cons, List.map_nil, List.filter_cons, List.filter_nil]
    cases hn : h.node? ⟨mark + count⟩ with
    | none => exact cutAt_foldl_remove hh hc count k (hcut.skip hh hn)
    | some n => exact cutAt_foldl_remove hh hc count _ (CutAt.remove hh hc (Nat.le_add_right _ _) hcut hn)

/-- **Discarding the nodes from a mark on cuts the graph there.** -/
theorem cutAt_discard (hh : h.WellFormed) (hc : Cuttable h mark) (hmark : mark ≤ h.nodeSlots) :
    CutAt h (h.discard (h.nodesFrom mark)) mark := by
  refine cutAt_foldl_remove hh hc (h.nodeSlots - mark) h ?_
  rw [Nat.add_sub_cancel' hmark]
  exact cutAt_nodeSlots hh

end

/-! ## Going back -/

/-- **Below its newer nodes the second graph is the first.** -/
structure Atop (g h : Graph) : Prop where
  name : h.name = g.name
  registry : h.registry = g.registry
  parameters : h.parameters = g.parameters
  results : h.results = g.results
  nodeSlots_le : g.nodeSlots ≤ h.nodeSlots
  valueSlots_le : g.valueSlots ≤ h.valueSlots
  node?_old : ∀ {id : NodeId}, id.index < g.nodeSlots → h.node? id = g.node? id
  value?_old : ∀ {v : ValueId}, v.index < g.valueSlots → (h.value? v).map (Value.usedBelow g.nodeSlots) = g.value? v
  producer_new : ∀ {v : ValueId} {val : Value}, h.value? v = some val → g.valueSlots ≤ v.index →
    g.nodeSlots ≤ val.producer.index
  new_later : ∀ {a b : NodeId}, h.DependsOn a b → g.nodeSlots ≤ b.index → b.index < a.index

section

variable {g h : Graph}

theorem Extends.atop (hgh : Extends g h) (hg : g.WellFormed) (hh : h.WellFormed) : Atop g h := by
  refine ⟨hgh.name, hgh.registry, hgh.parameters, hgh.results, hgh.nodeSlots_le, hgh.valueSlots_le, hgh.node?_old,
    fun {v} hv => ?_, hgh.nodeSlots_le_producer hg hh, fun {a b} hab hb => ?_⟩
  · obtain ⟨more, hmore, hval⟩ := hgh.value?_old hv
    rw [hval]
    cases hold : g.value? v with
    | none => rfl
    | some val =>
      have hnone : more.filter (fun u => u.node.index < g.nodeSlots) = [] := by
        refine List.filter_eq_nil_iff.2 (fun u hu => ?_)
        have := hmore u hu
        simpa using this
      have hall := congrArg Value.uses (usedBelow_of_live hg hold)
      simp only [Value.usedBelow] at hall
      simp only [Option.map_some, Value.usedBelow, List.filter_append, hnone, List.append_nil, hall]
  · by_cases ha : g.nodeSlots ≤ a.index
    · exact hgh.new_later ha hab
    · -- an old node reads old values only
      obtain ⟨n, v, val, hn, hv, hval, rfl⟩ := dependsOn_iff.1 hab
      rw [hgh.node?_old (Nat.lt_of_not_le ha)] at hn
      obtain ⟨old, hold⟩ := Option.isSome_iff_exists.1 (hg.input_live hn hv)
      obtain ⟨more, -, hval'⟩ := hgh.value?_of_value? hold
      obtain rfl := Option.some.inj (hval'.symm.trans hval)
      obtain ⟨p, hp, -⟩ := hg.produced hold
      exact absurd (node?_lt hp) (Nat.not_lt.2 hb)

namespace Atop

theorem producer_old (hgh : Atop g h) (hg : g.WellFormed) {v : ValueId} {val : Value} (hv : h.value? v = some val)
    (hlt : v.index < g.valueSlots) : val.producer.index < g.nodeSlots := by
  have hold := hgh.value?_old hlt
  rw [hv] at hold
  obtain ⟨n, hn, -⟩ := hg.produced hold.symm
  exact node?_lt hn

theorem cuttable (hgh : Atop g h) (hg : g.WellFormed) : Cuttable h g.nodeSlots := by
  have hlive : ∀ v, (g.value? v).isSome = true → ∀ val, h.value? v = some val → val.producer.index < g.nodeSlots := by
    intro v hv val hval
    obtain ⟨old, hold⟩ := Option.isSome_iff_exists.1 hv
    exact hgh.producer_old hg hval (value?_lt hold)
  exact ⟨fun v hv => hlive v (hg.result_live v (hgh.results ▸ hv)),
    fun v hv => hlive v (hg.parameter_live v (hgh.parameters ▸ hv)), hgh.new_later⟩

/-- **Discarding the newer nodes gives back the graph**, with their slots spent. -/
theorem discard_eq (hgh : Atop g h) (hg : g.WellFormed) (hh : h.WellFormed) : h.discard (h.nodesFrom g.nodeSlots) =
    g.spend (h.nodeSlots - g.nodeSlots) (h.valueSlots - g.valueSlots) := by
  have hcut := cutAt_discard hh (hgh.cuttable hg) hgh.nodeSlots_le
  have hframe := hcut.frame
  refine eq_of_lookups ⟨?_, ?_, ?_, ?_, ?_, ?_⟩ (fun id => ?_) (fun v => ?_)
  · exact hframe.name.trans hgh.name
  · exact hframe.registry.trans hgh.registry
  · exact hframe.parameters.trans hgh.parameters
  · exact hframe.results.trans hgh.results
  · rw [hframe.nodeSlots, nodeSlots_spend, Nat.add_sub_cancel' hgh.nodeSlots_le]
  · rw [hframe.valueSlots, valueSlots_spend, Nat.add_sub_cancel' hgh.valueSlots_le]
  · rw [hcut.node?_eq, node?_spend]
    split
    · rename_i hlt
      exact hgh.node?_old hlt
    · rename_i hlt
      cases hn : g.node? id with
      | none => rfl
      | some n => exact absurd (node?_lt hn) hlt
  · rw [hcut.value?_eq, value?_spend]
    by_cases hlt : v.index < g.valueSlots
    · rw [← hgh.value?_old hlt]
      cases hv : h.value? v with
      | none => rfl
      | some val => rw [Option.bind_some, if_pos (hgh.producer_old hg hv hlt), Option.map_some]
    · have hdead : g.value? v = none := by
        cases hv : g.value? v with
        | none => rfl
        | some val => exact absurd (value?_lt hv) hlt
      rw [hdead]
      cases hv : h.value? v with
      | none => rfl
      | some val =>
        have hp := hgh.producer_new hv (Nat.le_of_not_lt hlt)
        rw [Option.bind_some, if_neg (Nat.not_lt.2 hp)]

theorem mem_nodesFrom {mark : Nat} {id : NodeId} :
    id ∈ h.nodesFrom mark ↔ mark ≤ id.index ∧ (h.node? id).isSome = true := by
  simp only [nodesFrom, List.mem_filter, List.mem_map, List.mem_range'_1]
  constructor
  · rintro ⟨⟨i, hi, rfl⟩, hn⟩
    exact ⟨hi.1, hn⟩
  · rintro ⟨hi, hn⟩
    obtain ⟨n, hid⟩ := Option.isSome_iff_exists.1 hn
    have := node?_lt hid
    exact ⟨⟨id.index, by omega, rfl⟩, hn⟩

/-- Moved and moved back, the old uses of the source are in their old order. -/
theorem usedBelow_moved (hh : h.WellFormed) {mark : Nat} {v : ValueId} {val : Value} (hv : h.value? v = some val) :
    Value.usedBelow mark { val with uses := h.keptUses v (h.nodesFrom mark) ++ h.movedUses v (h.nodesFrom mark) } =
      val.usedBelow mark := by
  have hkept : (h.keptUses v (h.nodesFrom mark)).filter (fun u => u.node.index < mark) = [] := by
    refine List.filter_eq_nil_iff.2 (fun u hu => ?_)
    have := (mem_nodesFrom.1 ((mem_keptUses hh).1 hu).2).1
    simpa using this
  have hmoved : (h.movedUses v (h.nodesFrom mark)).filter (fun u => u.node.index < mark) =
      val.uses.filter (fun u => u.node.index < mark) := by
    rw [movedUses, usesOf_eq hv, List.filter_filter]
    refine List.filter_congr (fun u _ => ?_)
    by_cases hlt : u.node.index < mark
    · have : u.node ∉ h.nodesFrom mark := fun hmem => absurd (mem_nodesFrom.1 hmem).1 (Nat.not_le.2 hlt)
      simp [hlt, this]
    · simp [hlt]
  simp only [Value.usedBelow, List.filter_append, hkept, hmoved, List.nil_append]

/-- **A redirection that keeps the uses of the newer nodes can be undone.** -/
theorem undoRedirect (hgh : Atop g h) (hh : h.WellFormed) {source target : ValueId} (hne : source ≠ target) :
    Atop g ((h.redirect source target (h.nodesFrom g.nodeSlots)).2.undoRedirect
      (h.redirect source target (h.nodesFrom g.nodeSlots)).1) := by
  have hframe : SameFrame h ((h.redirect source target (h.nodesFrom g.nodeSlots)).2.undoRedirect
      (h.redirect source target (h.nodesFrom g.nodeSlots)).1) := sameFrame_undoRedirect
  have hedges : SameEdges h ((h.redirect source target (h.nodesFrom g.nodeSlots)).2.undoRedirect
      (h.redirect source target (h.nodesFrom g.nodeSlots)).1) := sameEdges_undoRedirect hh hne
  refine ⟨hframe.name.trans hgh.name, hframe.registry.trans hgh.registry, hframe.parameters.trans hgh.parameters,
    hframe.results.trans hgh.results, hframe.nodeSlots ▸ hgh.nodeSlots_le, hframe.valueSlots ▸ hgh.valueSlots_le,
    fun {id} hid => ?_, fun {v} hv => ?_, fun {v val} hv hnew => ?_,
    fun hab hb => hgh.new_later (hedges.dependsOn hab) hb⟩
  · rw [node?_undoRedirect hh, hgh.node?_old hid]
  · rw [value?_undoRedirect hh hne, ← hgh.value?_old hv]
    split
    · cases hval : h.value? v with
      | none => rfl
      | some val =>
        rename_i hs
        subst hs
        rw [Option.map_some, Option.map_some, Option.map_some, usedBelow_moved hh hval]
    · rfl
  · obtain ⟨old, hold, hp, -, -⟩ := hedges.value_of hv
    rw [hp]
    exact hgh.producer_new hold hnew

theorem nodesFrom_congr {g h : Graph} (hslots : h.nodeSlots = g.nodeSlots) (hnode : ∀ id, h.node? id = g.node? id)
    (mark : Nat) : h.nodesFrom mark = g.nodesFrom mark := by
  simp only [nodesFrom, hslots, hnode]

/-- **Discarding the newer nodes gives back the graph also after a redirection was undone.** -/
theorem discard_undoRedirect (hgh : Atop g h) (hg : g.WellFormed) (hh : h.WellFormed) {source target : ValueId}
    (hne : source ≠ target) {keep : List NodeId} (hkeep : keep = h.nodesFrom g.nodeSlots) :
    ((h.redirect source target keep).2.undoRedirect (h.redirect source target keep).1).discard keep =
      g.spend (h.nodeSlots - g.nodeSlots) (h.valueSlots - g.valueSlots) := by
  subst hkeep
  have hframe : SameFrame h ((h.redirect source target (h.nodesFrom g.nodeSlots)).2.undoRedirect
      (h.redirect source target (h.nodesFrom g.nodeSlots)).1) := sameFrame_undoRedirect
  have hdiscard := (hgh.undoRedirect hh hne).discard_eq hg ((sameEdges_undoRedirect hh hne).wellFormed hh)
  rwa [nodesFrom_congr hframe.nodeSlots (node?_undoRedirect hh), hframe.nodeSlots, hframe.valueSlots] at hdiscard

end Atop

end

end Graph
end TensorGraph
