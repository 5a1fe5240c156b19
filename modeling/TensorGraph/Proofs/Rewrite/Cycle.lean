import TensorGraph.Proofs.Rewrite.Specific
/-!
# Cycle — what the cycle check refuses

The check looks for a path from the replacement to a reader that would be moved.  The first such
reader on a path is reached through nodes whose inputs stay as they are, those that keep reading the
root among them, so this much of the path is still there after the redirection, which adds the step
back to the replacement.  Where there is no path no cycle arises (`acyclic_redirect`).
-/
namespace TensorGraph

open TensorGraph.Graph
open Relation (ReflTransGen TransGen)

namespace Graph

variable {g : Graph} {source target : ValueId} {keep : List NodeId}

/-- A node whose inputs stay depends on what it depended on. -/
theorem dependsOn_redirect_of (h : g.WellFormed) (hne : source ≠ target) {a b : NodeId} (hab : g.DependsOn a b)
    (ha : a ∉ (g.movedUses source keep).map Use.node) : (g.redirect source target keep).2.DependsOn a b := by
  obtain ⟨n, v, val, hn, hv, hval, rfl⟩ := dependsOn_iff.1 hab
  obtain ⟨i, hread⟩ := reads_of_mem_inputs hn hv
  obtain ⟨new, hnew, hp, -⟩ : ∃ new, (g.redirect source target keep).2.value? v = some new ∧
      new.producer = val.producer ∧ new.index = val.index := value?_redirect_of hne hval
  have hstays : (g.redirect source target keep).2.Reads ⟨a, i⟩ v := by
    refine (reads_redirect h).2 (Or.inl ⟨hread, fun hs => ?_⟩)
    by_contra hkeep
    exact ha (List.mem_map.2 ⟨⟨a, i⟩, (mem_movedUses h).2 ⟨hs ▸ hread, hkeep⟩, rfl⟩)
  exact hp ▸ hstays.dependsOn hnew

/-- A node with a use that is moved depends on the producer of the target. -/
theorem dependsOn_redirect_moved (h : g.WellFormed) (hne : source ≠ target) {a p : NodeId}
    (ha : a ∈ (g.movedUses source keep).map Use.node) (hp : g.producerId? target = some p) :
    (g.redirect source target keep).2.DependsOn a p := by
  obtain ⟨u, hu, rfl⟩ := List.mem_map.1 ha
  obtain ⟨val, hval, rfl⟩ := Option.map_eq_some_iff.1 hp
  obtain ⟨new, hnew, hproducer, -⟩ : ∃ new, (g.redirect source target keep).2.value? target = some new ∧
      new.producer = val.producer ∧ new.index = val.index := value?_redirect_of hne hval
  obtain ⟨hread, hkeep⟩ := (mem_movedUses h).1 hu
  have hmoved : (g.redirect source target keep).2.Reads u target := (reads_redirect h).2 (Or.inr ⟨rfl, hread, hkeep⟩)
  exact hproducer ▸ hmoved.dependsOn hnew

/-- **A path from the target to a node whose inputs change becomes a cycle.** -/
theorem not_acyclic_redirect (h : g.WellFormed) (hne : source ≠ target) {a p : NodeId}
    (hp : g.producerId? target = some p) (ha : a ∈ (g.movedUses source keep).map Use.node)
    (hpath : ReflTransGen g.DependsOn p a) : ¬ (g.redirect source target keep).2.Acyclic := by
  intro hacyclic
  obtain ⟨c, hc, hfirst⟩ := exists_first hpath ha
  have hstays : ReflTransGen (g.redirect source target keep).2.DependsOn p c :=
    hfirst.lift id (fun _ _ hxy => dependsOn_redirect_of h hne hxy.1 hxy.2)
  exact hacyclic c (TransGen.head' (dependsOn_redirect_moved h hne hc hp) hstays)

/-- **The check is for the cycles that a redirection would close**, whatever nodes it leaves out. -/
theorem dependsOnAny_iff_cyclic (h : g.WellFormed) (hne : target ≠ source) :
    g.dependsOnAny target (g.readersOutside source keep) = true ↔ ¬ (g.redirect source target keep).2.Acyclic := by
  rw [dependsOnAny_readersOutside_iff h]
  constructor
  · rintro ⟨p, hp, a, ha, hpath⟩
    exact not_acyclic_redirect h hne.symm hp ha hpath
  · intro hcyclic
    by_contra hnone
    exact hcyclic (acyclic_redirect h hne.symm (fun p hp a ha hpath => hnone ⟨p, hp, a, ha, hpath⟩))

end Graph

namespace Rule

variable {rule : Rule} {g : Graph} {rootId : ValueId}

/-- The rule matches the root and builds a replacement for it, of a type that may stand for the root's. -/
def Offers (rule : Rule) (g : Graph) (rootId new : ValueId) (grown : Graph) : Prop :=
  ∃ m root type, rule.pattern.matchValue? g rootId = some m ∧ g.value? rootId = some root ∧
    (rule.replacement m).run.run g = (.ok new, grown) ∧ new ≠ rootId ∧ grown.type? new = some type ∧
    type.compatible root.type = true ∧ root.type.relaxes type = true

theorem replacementFault?_wouldCreateCycle {root : Value} {new : ValueId} {created : List NodeId} :
    g.replacementFault? root rootId new created = some .wouldCreateCycle ↔
      ∃ type, g.type? new = some type ∧ type.compatible root.type = true ∧ root.type.relaxes type = true ∧
        g.dependsOnAny new (g.readersOutside rootId created) = true := by
  unfold replacementFault?
  split
  · rename_i htype
    simp [htype]
  · rename_i type htype
    cases hcompat : type.compatible root.type <;> cases hrelax : root.type.relaxes type <;>
      simp [htype, hcompat, hrelax]

/-- The check for cycles is the only place to be refused for one. -/
theorem applyAt_eq_wouldCreateCycle (hg : g.WellFormed) : (rule.applyAt g rootId).1 = .rejected .wouldCreateCycle ↔
    ∃ m root new grown, rule.pattern.matchValue? g rootId = some m ∧ g.value? rootId = some root ∧
      (rule.replacement m).run.run g = (.ok new, grown) ∧ new ≠ rootId ∧
      grown.replacementFault? root rootId new (grown.nodesFrom g.nodeSlots) = some .wouldCreateCycle := by
  unfold applyAt
  cases hm : rule.pattern.matchValue? g rootId with
  | none => simp
  | some m =>
    cases hroot : g.value? rootId with
    | none => simp
    | some root =>
      obtain ⟨answer, grown, hrun⟩ : ∃ answer grown, (rule.replacement m).run.run g = (answer, grown) := ⟨_, _, rfl⟩
      have hgg : Grown g grown := grown_of_run hrun
      cases answer with
      | error e => cases e <;> simp [hrun]
      | ok new =>
        by_cases hne : new = rootId
        · simp [hrun, hne]
        · cases hfault : grown.replacementFault? root rootId new (grown.nodesFrom g.nodeSlots) with
          | some reason => simp [hrun, hne, hfault]
          | none =>
            rcases splice_cases hg (hgg.wellFormed hg) (hgg.extends hg) root hne with ⟨_, -, heq⟩ | ⟨_, heq⟩
            · simp [hrun, hne, hfault, heq]
            · simp [hrun, hne, hfault, heq]

/-- **A rule is refused for a cycle where its replacement would close one**, and nowhere else. -/
theorem applyAt_wouldCreateCycle_iff (hg : g.WellFormed) : (rule.applyAt g rootId).1 = .rejected .wouldCreateCycle ↔
    ∃ new grown, rule.Offers g rootId new grown ∧
      ¬ (grown.redirect rootId new (grown.nodesFrom g.nodeSlots)).2.Acyclic := by
  rw [applyAt_eq_wouldCreateCycle hg]
  constructor
  · rintro ⟨m, root, new, grown, hm, hroot, hrun, hne, hfault⟩
    obtain ⟨type, htype, hcompat, hrelax, hcycle⟩ := replacementFault?_wouldCreateCycle.1 hfault
    have hgrown := (grown_of_run hrun).wellFormed hg
    exact ⟨new, grown, ⟨m, root, type, hm, hroot, hrun, hne, htype, hcompat, hrelax⟩,
      (dependsOnAny_iff_cyclic hgrown hne).1 hcycle⟩
  · rintro ⟨new, grown, ⟨m, root, type, hm, hroot, hrun, hne, htype, hcompat, hrelax⟩, hcyclic⟩
    have hgrown := (grown_of_run hrun).wellFormed hg
    exact ⟨m, root, new, grown, hm, hroot, hrun, hne, replacementFault?_wouldCreateCycle.2
      ⟨type, htype, hcompat, hrelax, (dependsOnAny_iff_cyclic hgrown hne).2 hcyclic⟩⟩

/-- **The check for cycles is exact.**  Whatever nodes keep reading the root, it finds a path exactly if the redirection
would leave a cycle; and a rule is refused for a cycle exactly if it has a replacement that could stand for the root but
for the cycle that it would close. -/
theorem cycle_check_exact {g : Graph} (hg : g.WellFormed) :
    (∀ (root new : ValueId) (created : List NodeId), (g.value? root).isSome = true → (g.value? new).isSome = true →
      new ≠ root → (g.dependsOnAny new (g.readersOutside root created) = true ↔
        ¬ (g.redirect root new created).2.Acyclic)) ∧
    (∀ (rule : Rule) (root : ValueId), (rule.applyAt g root).1 = .rejected .wouldCreateCycle ↔
      ∃ new grown, rule.Offers g root new grown ∧ ¬ (grown.redirect root new (grown.nodesFrom g.nodeSlots)).2.Acyclic) :=
  ⟨fun _ _ _ _ _ hne => dependsOnAny_iff_cyclic hg hne, fun _ _ => applyAt_wouldCreateCycle_iff hg⟩

/-- An absolute value of a sigmoid of a rectified vector. -/
def stacked : Graph :=
  [Edit.addParameter none ⟨.f32, .ranked [.fixed 3]⟩, .addValue none (.unary .relu) [⟨0⟩],
    .addValue none (.unary .sigmoid) [⟨1⟩], .addValue none (.unary .abs) [⟨2⟩], .setResults [⟨3⟩]].foldl Edit.apply (.empty .full)

/-- The absolute value cannot stand for the rectified vector that it comes from, unless the sigmoid keeps reading that. -/
theorem cycle_check_exact_stacked : stacked.WellFormed ∧ ((substitute ⟨3⟩).applyAt stacked ⟨1⟩).1 = .rejected .wouldCreateCycle ∧
    (∃ new grown, (substitute ⟨3⟩).Offers stacked ⟨1⟩ new grown ∧
      ¬ (grown.redirect ⟨1⟩ new (grown.nodesFrom stacked.nodeSlots)).2.Acyclic) ∧
    ¬ (stacked.redirect ⟨1⟩ ⟨3⟩ []).2.Acyclic ∧ (stacked.redirect ⟨1⟩ ⟨3⟩ [⟨2⟩]).2.Acyclic := by
  have hg : stacked.WellFormed := wellFormed_edits _ (wellFormed_empty _)
  obtain ⟨hgraph, hrule⟩ := cycle_check_exact hg
  have hrefused : ((substitute ⟨3⟩).applyAt stacked ⟨1⟩).1 = .rejected .wouldCreateCycle := by decide +kernel
  have hmoved := hgraph ⟨1⟩ ⟨3⟩ [] (by decide +kernel) (by decide +kernel) (by decide)
  have hkept := hgraph ⟨1⟩ ⟨3⟩ [⟨2⟩] (by decide +kernel) (by decide +kernel) (by decide)
  exact ⟨hg, hrefused, (hrule _ _).1 hrefused, hmoved.1 (by decide +kernel),
    not_not.1 (fun hcyclic => absurd (hkept.2 hcyclic) (by decide +kernel))⟩

end Rule
end TensorGraph
