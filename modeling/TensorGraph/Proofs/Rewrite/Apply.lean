import TensorGraph.Proofs.Graph.Retype
import TensorGraph.Proofs.Rewrite.Discard
/-!
# Application — what a rule that was applied has passed

`Spliced` lists what the driver had in hand and checked when it applied a rule; everything that
is said of applied rules is read off it.  `applyAt_eq_applied_iff` unpacks an application into it.  In
every other case the driver takes back what the rule added (`applyAt_snd_of_not_applied`).
-/
namespace TensorGraph

open TensorGraph.Graph
open Relation (ReflTransGen)

/-- **An application in all its parts**: the match `m` at `root`, the graph `grown` that the rule left with the
replacement `new` in it, and the graph `updated` after the readers were moved and the types brought up to date. -/
structure Rule.Spliced (rule : Rule) (g : Graph) (rootId : ValueId) (m : Match) (root : Value) (new : ValueId)
    (grown updated : Graph) : Prop where
  matched : rule.pattern.matchValue? g rootId = some m
  root_live : g.value? rootId = some root
  built : (rule.replacement m).run.run g = (.ok new, grown)
  ne : new ≠ rootId
  no_fault : grown.replacementFault? root rootId new (grown.nodesFrom g.nodeSlots) = none
  propagated : (grown.redirect rootId new (grown.nodesFrom g.nodeSlots)).2.propagate
    ((grown.movedUses rootId (grown.nodesFrom g.nodeSlots)).map Use.node) = .ok updated

/-- **A rule splices a replacement in**: it has one at the root that passes every check, and what is left is the graph
with the readers moved, the types brought up to date and the dead nodes taken out. -/
def Rule.Splices (rule : Rule) (g : Graph) (rootId new : ValueId) (final : Graph) : Prop :=
  ∃ m root grown updated, rule.Spliced g rootId m root new grown updated ∧
    final = (updated.removeDead (root.producer :: grown.nodesFrom g.nodeSlots)).1

namespace Graph

theorem replacementFault?_eq_none {g : Graph} {root : Value} {rootId new : ValueId} {created : List NodeId}
    (h : g.replacementFault? root rootId new created = none) :
    (∃ type, g.type? new = some type ∧ type.compatible root.type = true ∧ root.type.relaxes type = true) ∧
      g.dependsOnAny new (g.readersOutside rootId created) = false := by
  unfold replacementFault? at h
  split at h
  · cases h
  rename_i type htype
  split at h
  · cases h
  rename_i hcompat
  split at h
  · cases h
  rename_i hrelax
  split at h
  · cases h
  rename_i hcycle
  exact ⟨⟨type, htype, by simpa using hcompat, by simpa using hrelax⟩, by simpa using hcycle⟩

theorem readersOutside_eq (g : Graph) (v : ValueId) (created : List NodeId) :
    g.readersOutside v created = (g.movedUses v created).map Use.node := by
  rw [readersOutside, movedUses, List.filter_map]
  rfl

/-- The check looks for a path from the target to a node with a use that is moved. -/
theorem dependsOnAny_readersOutside_iff {g : Graph} (hg : g.WellFormed) {source target : ValueId} {keep : List NodeId} :
    g.dependsOnAny target (g.readersOutside source keep) = true ↔ ∃ p, g.producerId? target = some p ∧
      ∃ a ∈ (g.movedUses source keep).map Use.node, ReflTransGen g.DependsOn p a := by
  rw [readersOutside_eq]
  refine dependsOnAny_iff (fun a ha => ?_)
  obtain ⟨u, hu, rfl⟩ := List.mem_map.1 ha
  exact ((mem_movedUses hg).1 hu).1.lt_nodeSlots

/-- A splice goes through if the types behind it can be brought up to date. -/
theorem splice_eq_applied_iff {g final : Graph} {root : Value} {rootId new answer : ValueId} {created : List NodeId} :
    g.splice root rootId new created = (.applied answer, final) ↔ new = answer ∧ ∃ updated,
      (g.redirect rootId new created).2.propagate ((g.movedUses rootId created).map Use.node) = .ok updated ∧
        final = (updated.removeDead (root.producer :: created)).1 := by
  unfold splice
  simp only
  rw [redirect_fst_uses]
  cases (g.redirect rootId new created).2.propagate ((g.movedUses rootId created).map Use.node) with
  | ok updated => simp [eq_comm]
  | error cause => simp

/-- **A splice either goes through or is taken back.** -/
theorem splice_cases {g grown : Graph} (hg : g.WellFormed) (hgrown : grown.WellFormed) (hgg : Extends g grown)
    (root : Value) {rootId new : ValueId} (hne : new ≠ rootId) :
    (∃ updated, (grown.redirect rootId new (grown.nodesFrom g.nodeSlots)).2.propagate
        ((grown.movedUses rootId (grown.nodesFrom g.nodeSlots)).map Use.node) = .ok updated ∧
      grown.splice root rootId new (grown.nodesFrom g.nodeSlots) =
        (.applied new, (updated.removeDead (root.producer :: grown.nodesFrom g.nodeSlots)).1)) ∨
    (∃ cause, (grown.splice root rootId new (grown.nodesFrom g.nodeSlots)) =
      (.rejected (.consumerRejected cause),
        g.spend (grown.nodeSlots - g.nodeSlots) (grown.valueSlots - g.valueSlots))) := by
  have huses := redirect_fst_uses grown rootId new (grown.nodesFrom g.nodeSlots)
  unfold splice
  simp only
  rw [huses]
  cases hprop : (grown.redirect rootId new (grown.nodesFrom g.nodeSlots)).2.propagate
      ((grown.movedUses rootId (grown.nodesFrom g.nodeSlots)).map Use.node) with
  | ok updated => exact Or.inl ⟨updated, rfl, rfl⟩
  | error cause =>
    refine Or.inr ⟨cause, ?_⟩
    exact congrArg (Prod.mk _) (((hgg.atop hg hgrown).discard_undoRedirect hg hgrown hne.symm rfl))

end Graph

namespace Rule

variable {rule : Rule} {g : Graph} {rootId : ValueId}

/-! ## What follows from the checks -/

namespace Spliced

variable {m : Match} {root : Value} {new : ValueId} {grown updated : Graph}

theorem grown_of (h : rule.Spliced g rootId m root new grown updated) : Grown g grown := grown_of_run h.built

theorem grown_wellFormed (h : rule.Spliced g rootId m root new grown updated) (hg : g.WellFormed) : grown.WellFormed :=
  h.grown_of.wellFormed hg

theorem new_live (h : rule.Spliced g rootId m root new grown updated) : (grown.value? new).isSome = true := by
  obtain ⟨⟨type, htype, -, -⟩, -⟩ := replacementFault?_eq_none h.no_fault
  obtain ⟨val, hval, -⟩ := Option.map_eq_some_iff.1 htype
  rw [hval]
  rfl

/-- The replacement depends on no reader that is moved. -/
theorem no_path (h : rule.Spliced g rootId m root new grown updated) (hg : g.WellFormed) {p : NodeId}
    (hp : grown.producerId? new = some p) :
    ∀ a ∈ (grown.movedUses rootId (grown.nodesFrom g.nodeSlots)).map Use.node, ¬ ReflTransGen grown.DependsOn p a := by
  intro a ha hpath
  have hany := (replacementFault?_eq_none h.no_fault).2
  exact Bool.eq_false_iff.1 hany ((dependsOnAny_readersOutside_iff (h.grown_wellFormed hg)).2 ⟨p, hp, a, ha, hpath⟩)

theorem moved_wellFormed (h : rule.Spliced g rootId m root new grown updated) (hg : g.WellFormed) :
    (grown.redirect rootId new (grown.nodesFrom g.nodeSlots)).2.WellFormed :=
  wellFormed_redirect (h.grown_wellFormed hg) h.ne.symm h.new_live (fun _ hp => h.no_path hg hp)

theorem retyped (h : rule.Spliced g rootId m root new grown updated) :
    Retyped (grown.redirect rootId new (grown.nodesFrom g.nodeSlots)).2 updated := propagate_retyped h.propagated

theorem updated_wellFormed (h : rule.Spliced g rootId m root new grown updated) (hg : g.WellFormed) :
    updated.WellFormed := h.retyped.wellFormed (h.moved_wellFormed hg)

end Spliced

/-! ## The outcomes -/

/-- A replacement with which nothing is wrong is spliced in. -/
theorem applyAt_eq_splice {m : Match} {root : Value} {new : ValueId} {grown : Graph}
    (hm : rule.pattern.matchValue? g rootId = some m) (hroot : g.value? rootId = some root)
    (hrun : (rule.replacement m).run.run g = (.ok new, grown)) (hne : new ≠ rootId)
    (hfault : grown.replacementFault? root rootId new (grown.nodesFrom g.nodeSlots) = none) :
    rule.applyAt g rootId = grown.splice root rootId new (grown.nodesFrom g.nodeSlots) := by
  unfold applyAt
  rw [hm, hroot]
  simp only [hrun, if_neg hne, hfault]

theorem Spliced.applyAt_eq {m : Match} {root : Value} {new : ValueId} {grown updated : Graph}
    (h : rule.Spliced g rootId m root new grown updated) : rule.applyAt g rootId =
      (.applied new, (updated.removeDead (root.producer :: grown.nodesFrom g.nodeSlots)).1) := by
  rw [applyAt_eq_splice h.matched h.root_live h.built h.ne h.no_fault]
  exact splice_eq_applied_iff.2 ⟨rfl, updated, h.propagated, rfl⟩

/-- **An applied rule**: everything that it passed, and what is left. -/
theorem applyAt_eq_applied_iff {new : ValueId} {final : Graph} :
    rule.applyAt g rootId = (.applied new, final) ↔ rule.Splices g rootId new final := by
  constructor
  · intro h
    unfold applyAt at h
    split at h
    · rename_i m root hm hroot
      obtain ⟨answer, grown, hrun⟩ : ∃ answer grown, (rule.replacement m).run.run g = (answer, grown) := ⟨_, _, rfl⟩
      simp only [hrun] at h
      cases answer with
      | error e => cases e <;> cases h
      | ok new' =>
        simp only at h
        split at h
        · cases h
        rename_i hne
        split at h
        · cases h
        rename_i hfault
        obtain ⟨rfl, updated, hprop, hfinal⟩ := splice_eq_applied_iff.1 h
        exact ⟨m, root, grown, updated, ⟨hm, hroot, hrun, hne, hfault, hprop⟩, hfinal⟩
    · cases h
  · rintro ⟨m, root, grown, updated, hs, rfl⟩
    exact hs.applyAt_eq

/-- **A rule that was not applied has only spent slots.** -/
theorem applyAt_snd_of_not_applied (hg : g.WellFormed) (h : ∀ new, (rule.applyAt g rootId).1 ≠ .applied new) :
    ∃ n m, (rule.applyAt g rootId).2 = g.spend n m := by
  unfold applyAt at h ⊢
  split
  · rename_i m root hm hroot
    rw [hm, hroot] at h
    obtain ⟨answer, grown, hrun⟩ : ∃ answer grown, (rule.replacement m).run.run g = (answer, grown) := ⟨_, _, rfl⟩
    have hgg : Grown g grown := grown_of_run hrun
    have hgrown := hgg.wellFormed hg
    have hdiscard := ((hgg.extends hg).atop hg hgrown).discard_eq hg hgrown
    simp only [hrun] at h ⊢
    cases answer with
    | error e =>
      cases e with
      | declined => exact ⟨_, _, hdiscard⟩
      | invalid cause => exact ⟨_, _, hdiscard⟩
    | ok new =>
      simp only at h ⊢
      split
      · exact ⟨_, _, hdiscard⟩
      rename_i hne
      rw [if_neg hne] at h
      split
      · exact ⟨_, _, hdiscard⟩
      rename_i hfault
      rw [hfault] at h
      -- the only exit after edges were moved
      rcases splice_cases hg hgrown (hgg.extends hg) root hne with ⟨updated, -, heq⟩ | ⟨cause, heq⟩
      · exact absurd (congrArg Prod.fst heq) (h new)
      · exact ⟨_, _, congrArg Prod.snd heq⟩
  · exact ⟨0, 0, (spend_zero g).symm⟩

/-- **The two ways in which an application ends**: slots were spent, or the root was replaced. -/
theorem applyAt_cases (hg : g.WellFormed) {P : Graph → Prop} (hspend : ∀ n m, P (g.spend n m))
    (hsplice : ∀ m root new grown updated, rule.Spliced g rootId m root new grown updated →
      P (updated.removeDead (root.producer :: grown.nodesFrom g.nodeSlots)).1) : P (rule.applyAt g rootId).2 := by
  cases hres : rule.applyAt g rootId with
  | mk outcome final =>
    by_cases hout : ∃ new, outcome = .applied new
    · obtain ⟨new, rfl⟩ := hout
      obtain ⟨m, root, grown, updated, hs, rfl⟩ := applyAt_eq_applied_iff.1 hres
      exact hsplice m root new grown updated hs
    · have hnot : ∀ new, (rule.applyAt g rootId).1 ≠ .applied new := fun new h => hout ⟨new, by rw [← h, hres]⟩
      obtain ⟨n, m, heq⟩ := applyAt_snd_of_not_applied hg hnot
      rw [hres] at heq
      exact heq ▸ hspend n m

/-- **Applying a rule keeps a graph well formed**, whatever comes of it. -/
theorem wellFormed_applyAt (hg : g.WellFormed) : (rule.applyAt g rootId).2.WellFormed :=
  applyAt_cases hg (fun n m => (sameEdges_spend g n m).wellFormed hg)
    (fun _ _ _ _ _ hs => wellFormed_removeDead (hs.updated_wellFormed hg) _)

end Rule
end TensorGraph
