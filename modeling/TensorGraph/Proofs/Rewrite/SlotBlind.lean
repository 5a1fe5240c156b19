import TensorGraph.Proofs.Graph.RenamedSteps
import TensorGraph.Proofs.Pattern.Answered
import TensorGraph.Proofs.Rewrite.Apply
/-!
# SlotBlind — rules that do not notice which numbers were used up

An attempt that comes to nothing still spends slots, so the next one starts from a graph that differs
in the numbers it will give out.  A rule is blind to this if its predicates give the same answers
after slots were spent, and its replacement the same answer up to the numbers of what it added.  Then
it is applied at a value of the one graph if and only if it is at the same value of the other: every
check of the driver is the same check on a renamed graph (`appliesAt_spend`).
-/
namespace TensorGraph

open TensorGraph.Graph

/-! ## Spent slots as a renaming -/

/-- The numbers from the next free ones on move up, by as many slots as were spent. -/
def Graph.shift (g : Graph) (n m : Nat) : Renaming where
  node i := if i < g.nodeSlots then i else i + n
  value i := if i < g.valueSlots then i else i + m
  node_strictMono i j hij := by
    simp only
    split <;> split <;> omega
  value_strictMono i j hij := by
    simp only
    split <;> split <;> omega

namespace Graph

variable {g h : Graph}

theorem onNode_shift {id : NodeId} (hid : id.index < g.nodeSlots) (n m : Nat) : (g.shift n m).onNode id = id :=
  NodeId.ext (if_pos hid)

theorem onValue_shift {v : ValueId} (hv : v.index < g.valueSlots) (n m : Nat) : (g.shift n m).onValue v = v :=
  ValueId.ext (if_pos hv)

theorem onValue_shift_of_live {v : ValueId} (hv : (g.value? v).isSome = true) (n m : Nat) :
    (g.shift n m).onValue v = v := by
  obtain ⟨val, hval⟩ := Option.isSome_iff_exists.1 hv
  exact onValue_shift (value?_lt hval) n m

theorem map_onValue_shift {vs : List ValueId} (hvs : ∀ v ∈ vs, (g.value? v).isSome = true) (n m : Nat) :
    vs.map (g.shift n m).onValue = vs :=
  (List.map_congr_left (fun v hv => onValue_shift_of_live (hvs v hv) n m)).trans (List.map_id vs)

theorem nodeOf_shift (hg : g.WellFormed) {id : NodeId} {node : Node} (hn : g.node? id = some node) (n m : Nat) :
    (g.shift n m).nodeOf node = node := by
  have hin := map_onValue_shift (fun v hv => hg.input_live hn hv) n m
  have hout : node.outputs.map (g.shift n m).onValue = node.outputs := map_onValue_shift (fun v hv => by
    obtain ⟨val, hval, -⟩ := hg.output_live' hn hv
    rw [hval]; rfl) n m
  unfold Renaming.nodeOf
  rw [hin, hout]

theorem valueOf_shift (hg : g.WellFormed) {v : ValueId} {val : Value} (hv : g.value? v = some val) (n m : Nat) :
    (g.shift n m).valueOf val = val := by
  obtain ⟨node, hn, -⟩ := hg.produced hv
  have huses : val.uses.map (g.shift n m).onUse = val.uses := by
    refine (List.map_congr_left (fun u hu => ?_)).trans (List.map_id _)
    unfold Renaming.onUse
    rw [onNode_shift ((hg.mem_uses hv u).1 hu).lt_nodeSlots]
    rfl
  unfold Renaming.valueOf
  rw [onNode_shift (node?_lt hn), huses]

/-- **A graph with spent slots is the graph, renamed.** -/
theorem renamed_spend (hg : g.WellFormed) (n m : Nat) : Renamed (g.shift n m) g (g.spend n m) where
  registry := rfl
  results := (map_onValue_shift hg.result_live n m).symm
  node? id := by
    rw [node?_spend]
    cases hn : g.node? id with
    | some node => rw [onNode_shift (node?_lt hn), hn, Option.map_some, nodeOf_shift hg hn]
    | none =>
      by_cases hid : id.index < g.nodeSlots
      · rw [onNode_shift hid, hn]
        rfl
      · -- a number that was not given out moves to another such number
        have hout : ¬ ((g.shift n m).onNode id).index < g.nodeSlots := fun hlt =>
          hid (Nat.lt_of_le_of_lt ((g.shift n m).node_strictMono.le_apply) hlt)
        exact Option.eq_none_iff_forall_ne_some.2 (fun node hnode => hout (node?_lt hnode))
  value? v := by
    rw [value?_spend]
    cases hv : g.value? v with
    | some val => rw [onValue_shift (value?_lt hv), hv, Option.map_some, valueOf_shift hg hv]
    | none =>
      by_cases hlt : v.index < g.valueSlots
      · rw [onValue_shift hlt, hv]
        rfl
      · have hout : ¬ ((g.shift n m).onValue v).index < g.valueSlots := fun hlt' =>
          hlt (Nat.lt_of_le_of_lt ((g.shift n m).value_strictMono.le_apply) hlt')
        exact Option.eq_none_iff_forall_ne_some.2 (fun val hval => hout (value?_lt hval))
  node_old id hid := by
    rw [node?_spend] at hid
    obtain ⟨node, hn⟩ := Option.isSome_iff_exists.1 hid
    exact ⟨id, onNode_shift (node?_lt hn) n m⟩
  nodeSlots k := by
    rw [nodeSlots_spend]
    show (if g.nodeSlots + k < g.nodeSlots then _ else _) = _
    rw [if_neg (by omega)]
    omega
  valueSlots k := by
    rw [valueSlots_spend]
    show (if g.valueSlots + k < g.valueSlots then _ else _) = _
    rw [if_neg (by omega)]
    omega

/-! ## The checks of the driver -/

/-- The driver puts the value in the place of the root, in the graph that a rule has left. -/
def Passes (g : Graph) (root : Value) (rootId new : ValueId) (created : List NodeId) : Prop :=
  new ≠ rootId ∧ g.replacementFault? root rootId new created = none ∧
    ∃ updated, (g.redirect rootId new created).2.propagate ((g.movedUses rootId created).map Use.node) = .ok updated

namespace Renamed

variable {s : Renaming} {created created' : List NodeId}

theorem mem_nodesFrom_iff (hgh : Renamed s g h) {mark mark' : Nat} (hmark : s.node mark = mark') (id : NodeId) :
    s.onNode id ∈ h.nodesFrom mark' ↔ id ∈ g.nodesFrom mark := by
  rw [Atop.mem_nodesFrom, Atop.mem_nodesFrom, hgh.node?, Option.isSome_map, ← hmark]
  exact and_congr_left' s.node_strictMono.le_iff_le

theorem replacementFault?_eq_none_iff (hgh : Renamed s g h) (hcreated : ∀ id, s.onNode id ∈ created' ↔ id ∈ created)
    (root : Value) (rootId new : ValueId) :
    h.replacementFault? root (s.onValue rootId) (s.onValue new) created' = none ↔
      g.replacementFault? root rootId new created = none := by
  have hreaders : h.readersOutside (s.onValue rootId) created' = (g.readersOutside rootId created).map s.onNode := by
    rw [readersOutside_eq, readersOutside_eq, hgh.movedUses rootId hcreated, List.map_map, List.map_map]
    rfl
  unfold replacementFault?
  rw [hgh.type?, hreaders, hgh.dependsOnAny]
  cases g.type? new with
  | none => simp
  | some type => rfl

/-- **A replacement passes the checks if and only if it does under new numbers.** -/
theorem passes_iff (hgh : Renamed s g h) (hcreated : ∀ id, s.onNode id ∈ created' ↔ id ∈ created) (root : Value)
    (rootId new : ValueId) :
    h.Passes root (s.onValue rootId) (s.onValue new) created' ↔ g.Passes root rootId new created := by
  have hprop := (hgh.redirect rootId new hcreated).propagate ((g.movedUses rootId created).map Use.node)
  have hnodes : (h.movedUses (s.onValue rootId) created').map Use.node =
      ((g.movedUses rootId created).map Use.node).map s.onNode := by
    rw [hgh.movedUses rootId hcreated, List.map_map, List.map_map]
    rfl
  unfold Passes
  rw [hnodes]
  exact and_congr (not_congr s.onValue_inj)
    (and_congr (hgh.replacementFault?_eq_none_iff hcreated root rootId new) hprop.ok_iff)

end Renamed
end Graph

/-! ## Rules -/

/-- The answers are the same, and so are the graphs they were given with, under new numbers. -/
def Renaming.SameAnswer (s : Renaming) :
    Except RewriteError ValueId × Graph → Except RewriteError ValueId × Graph → Prop
  | (.ok v, g), (.ok w, h) => w = s.onValue v ∧ Renamed s g h
  | (.error _, _), (.error _, _) => True
  | _, _ => False

namespace Renaming.SameAnswer

variable {s : Renaming} {x y : Except RewriteError ValueId × Graph}

theorem of_ok {v : ValueId} {g : Graph} (h : s.SameAnswer (.ok v, g) y) :
    ∃ k, y = (.ok (s.onValue v), k) ∧ Renamed s g k := by
  obtain ⟨answer, k⟩ := y
  cases answer with
  | error e => exact h.elim
  | ok w =>
    obtain ⟨rfl, hgk⟩ := h
    exact ⟨k, rfl, hgk⟩

theorem of_ok_right {w : ValueId} {k : Graph} (h : s.SameAnswer x (.ok w, k)) :
    ∃ v g, x = (.ok v, g) ∧ w = s.onValue v ∧ Renamed s g k := by
  obtain ⟨answer, g⟩ := x
  cases answer with
  | error e => exact h.elim
  | ok v => exact ⟨v, g, rfl, h⟩

end Renaming.SameAnswer

/-- The predicates that guard nodes of the pattern. -/
def Pattern.predicates (p : Pattern) : List Predicate :=
  p.nodes.toList.filterMap fun
    | .guard _ predicate => some predicate
    | _ => none

theorem Pattern.mem_predicates {p : Pattern} {id inner : PatternId} {predicate : Predicate}
    (h : p.node? id = some (.guard inner predicate)) : predicate ∈ p.predicates :=
  List.mem_filterMap.2 ⟨_, Array.mem_toList_iff.2 (Array.mem_of_getElem? h), rfl⟩

/-- **The rule does not notice which numbers were used up.** -/
structure Rule.SlotBlind (rule : Rule) : Prop where
  holds : ∀ predicate ∈ rule.pattern.predicates, ∀ (g : Graph) (n m : Nat) (v : ValueId),
    predicate.holds (g.spend n m) v = predicate.holds g v
  replacement : ∀ {g : Graph} {root : ValueId} {found : Match}, g.WellFormed →
    rule.pattern.matchValue? g root = some found → ∀ n m : Nat,
      (g.shift n m).SameAnswer ((rule.replacement found).run.run g) ((rule.replacement found).run.run (g.spend n m))

namespace Rule

variable {rule : Rule} {g : Graph} {v : ValueId}

/-- Applying the rule at the value replaces it. -/
def AppliesAt (rule : Rule) (g : Graph) (v : ValueId) : Prop := ∃ new, (rule.applyAt g v).1 = .applied new

theorem applyAt_snd_of_not_appliesAt (hg : g.WellFormed) (h : ¬ rule.AppliesAt g v) :
    ∃ n m, (rule.applyAt g v).2 = g.spend n m := applyAt_snd_of_not_applied hg (fun new hnew => h ⟨new, hnew⟩)

/-- **What a rule matches does not depend on spent slots.** -/
theorem matchValue?_spend {b : PatternBuilder} {start : PatternId} (hbuilt : b.build start = .ok rule.pattern)
    (hblind : rule.SlotBlind) (hg : g.WellFormed) (n m : Nat) (v : ValueId) :
    rule.pattern.matchValue? (g.spend n m) v = rule.pattern.matchValue? g v := by
  obtain ⟨height, hground⟩ := PatternBuilder.grounded_of_build hbuilt
  have hsight : rule.pattern.SameSight g (g.spend n m) :=
    ⟨rfl, g.node?_spend n m, g.value?_spend n m, fun hguard v => hblind.holds _ (Pattern.mem_predicates hguard) g n m v⟩
  exact Pattern.matchValue?_congr hground hg hsight (by simp) v

theorem appliesAt_iff : rule.AppliesAt g v ↔ ∃ found root new grown,
    rule.pattern.matchValue? g v = some found ∧ g.value? v = some root ∧
      (rule.replacement found).run.run g = (.ok new, grown) ∧
      grown.Passes root v new (grown.nodesFrom g.nodeSlots) := by
  constructor
  · rintro ⟨new, hnew⟩
    obtain ⟨found, root, grown, updated, hs, -⟩ := applyAt_eq_applied_iff.1 (Prod.ext hnew rfl)
    exact ⟨found, root, new, grown, hs.matched, hs.root_live, hs.built, hs.ne, hs.no_fault, updated, hs.propagated⟩
  · rintro ⟨found, root, new, grown, hfound, hroot, hrun, hne, hfault, updated, hprop⟩
    have hs : rule.Spliced g v found root new grown updated := ⟨hfound, hroot, hrun, hne, hfault, hprop⟩
    exact ⟨new, congrArg Prod.fst hs.applyAt_eq⟩

/-- **Whether a rule is applied does not depend on spent slots.** -/
theorem appliesAt_spend {b : PatternBuilder} {start : PatternId} (hbuilt : b.build start = .ok rule.pattern)
    (hblind : rule.SlotBlind) (hg : g.WellFormed) (n m : Nat) (v : ValueId) :
    rule.AppliesAt (g.spend n m) v ↔ rule.AppliesAt g v := by
  have hpasses : ∀ {root : Value} {new : ValueId} {grown grown' : Graph}, g.value? v = some root →
      Renamed (g.shift n m) grown grown' → (grown'.Passes root v ((g.shift n m).onValue new)
        (grown'.nodesFrom (g.spend n m).nodeSlots) ↔ grown.Passes root v new (grown.nodesFrom g.nodeSlots)) := by
    intro root new grown grown' hroot hgrown
    have h := hgrown.passes_iff (hgrown.mem_nodesFrom_iff (renamed_spend hg n m).node_nodeSlots) root v new
    rwa [onValue_shift (value?_lt hroot)] at h
  rw [appliesAt_iff, appliesAt_iff]
  constructor
  · rintro ⟨found, root, new', grown', hfound, hroot, hrun', hpass⟩
    rw [matchValue?_spend hbuilt hblind hg] at hfound
    rw [value?_spend] at hroot
    obtain ⟨new, grown, hrun, rfl, hgrown⟩ := (hrun' ▸ hblind.replacement hg hfound n m).of_ok_right
    exact ⟨found, root, new, grown, hfound, hroot, hrun, (hpasses hroot hgrown).1 hpass⟩
  · rintro ⟨found, root, new, grown, hfound, hroot, hrun, hpass⟩
    obtain ⟨grown', hrun', hgrown⟩ := (hrun ▸ hblind.replacement hg hfound n m).of_ok
    refine ⟨found, root, _, grown', ?_, ?_, hrun', (hpasses hroot hgrown).2 hpass⟩
    · rw [matchValue?_spend hbuilt hblind hg]
      exact hfound
    · rw [value?_spend]
      exact hroot

end Rule
end TensorGraph
