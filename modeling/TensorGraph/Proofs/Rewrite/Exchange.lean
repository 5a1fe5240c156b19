import TensorGraph.Proofs.Graph.Revalidate
import TensorGraph.Proofs.Information.Join
import TensorGraph.Proofs.Rewrite.Cycle
import TensorGraph.Proofs.Rewrite.Frame
import TensorGraph.Proofs.Rewrite.Laws
import TensorGraph.Proofs.Rewrite.Specific
/-!
# Exchange — replacements of the type of the root

If the replacement has the type of the root and comes from what the root comes from, the checks of the
driver are passed, and only a reader may refuse it.  A reader can do so, or change its type, only if more
is known of the replacement before the graph runs, as of a constant.  Otherwise all nodes are typed as
before, so the propagation finds nothing to do and the rule is applied.  Afterwards nobody reads the root,
and its producer goes if it has no other output.
-/
namespace TensorGraph

open TensorGraph.Graph
open Relation (ReflTransGen TransGen)

namespace Graph

variable {g : Graph}

/-! ## Readers that are moved to a value of the same type -/

section Redirect

variable {source target : ValueId} {keep : List NodeId}

theorem registry_redirect : (g.redirect source target keep).2.registry = g.registry :=
  (sameFrame_moveUses g source target (g.movedUses source keep)).registry

theorem nodeSlots_redirect : (g.redirect source target keep).2.nodeSlots = g.nodeSlots :=
  (sameFrame_moveUses g source target (g.movedUses source keep)).nodeSlots

theorem valueSlots_redirect : (g.redirect source target keep).2.valueSlots = g.valueSlots :=
  (sameFrame_moveUses g source target (g.movedUses source keep)).valueSlots

theorem map_map_swap {α : Type} {f : ValueId → α} (h : f target = f source) (vs : List ValueId) :
    (vs.map (swap source target)).map f = vs.map f := by
  rw [List.map_map]
  refine List.map_congr_left (fun v _ => ?_)
  rcases swap_cases source target v with hv | ⟨rfl, hv⟩
  · exact congrArg f hv
  · exact (congrArg f hv).trans h

/-- **What is known of a value stays so** if readers are moved to a value of the same type. -/
theorem knownValue?_redirect_of_type (hg : g.WellFormed) (hne : source ≠ target) (htype : g.type? target = g.type? source)
    (v : ValueId) : (g.redirect source target keep).2.knownValue? v = g.knownValue? v := by
  cases hv : g.value? v with
  | none =>
    rw [knownValue?, knownValue?, knownValueUnder?, knownValueUnder?, producer?, producer?, producerId?_redirect hne,
      producerId?, hv]
    rfl
  | some val =>
    obtain ⟨p, hnode, -⟩ := hg.produced hv
    have hp : g.producer? v = some p := by rw [producer?_eq hv, hnode]
    have hmoved : (g.redirect source target keep).2.producer? v = some
        { p with inputs := if val.producer ∈ keep then p.inputs else p.inputs.map (swap source target) } := by
      rw [producer?, producerId?_redirect hne, producerId?_eq_some hv, Option.bind_some, node?_redirect_of hg hnode]
    -- a shape depends on the type of its input only, and a constant has none
    have hinput : ∀ w : ValueId, g.type? (swap source target w) = g.type? w := fun w =>
      List.cons.inj (map_map_swap htype [w]) |>.1
    rw [knownValue?, knownValue?, knownValueUnder?, knownValueUnder?, hmoved, hp]
    obtain ⟨name, op, inputs, outputs⟩ := p
    cases op with
    | shapeOf output =>
      cases inputs with
      | nil => by_cases hk : val.producer ∈ keep <;> simp [hk]
      | cons x xs =>
        by_cases hk : val.producer ∈ keep
        · simp [hk, type?_redirect hne]
        · simp [hk, type?_redirect hne, hinput]
    | _ => rfl

/-- **Nodes stay typed** if readers are moved to a value of which the same is known. -/
theorem typeConsistent_redirect (hg : g.TypeConsistent) (hne : source ≠ target)
    (hwf : (g.redirect source target keep).2.WellFormed) (htype : g.type? target = g.type? source)
    (hknown : g.knownValue? target = g.knownValue? source) : (g.redirect source target keep).2.TypeConsistent where
  wellFormed := hwf
  typed {id n} hn := by
    obtain ⟨old, hold, rfl⟩ := node?_of_redirect hg.wellFormed hn
    obtain ⟨ins, outs, hin, hvalid, hout⟩ := typed_iff.1 (hg.typed hold)
    have htypes : (g.redirect source target keep).2.type? = g.type? := funext (type?_redirect hne)
    have hvalues : (g.redirect source target keep).2.knownValue? = g.knownValue? :=
      funext (knownValue?_redirect_of_type hg.wellFormed hne htype)
    rw [typed_iff, htypes, hvalues]
    refine ⟨ins, outs, ?_, ?_, hout⟩
    · split
      · exact hin
      · rw [map_map_swap htype, hin]
    · split
      · exact hvalid
      · rw [map_map_swap hknown, hvalid]

end Redirect

/-! ## Nodes and their outputs -/

/-- A node has one output, unless it is a split. -/
theorem TypeConsistent.exists_output (hg : g.TypeConsistent) {id : NodeId} {n : Node} (hn : g.node? id = some n)
    (hsplit : n.op.type ≠ .split) : ∃ v, n.outputs = [v] ∧ g.producer? v = some n := by
  obtain ⟨ins, outs, -, hvalid, hcached⟩ := typed_iff.1 (hg.typed hn)
  obtain ⟨v, hout⟩ : ∃ v, n.outputs = [v] := by
    refine List.length_eq_one_iff.1 ?_
    rw [← Op.length_of_validate hsplit hvalid, ← List.length_map g.type?, hcached, List.length_map]
  obtain ⟨val, hval, hproducer⟩ := hg.wellFormed.output_live' hn (by simp [hout] : v ∈ n.outputs)
  exact ⟨v, hout, by rw [producer?_eq hval, hproducer, hn]⟩

/-- The producer of a value was its producer before, if it is at the place of a node of the same outputs. -/
theorem exists_old_producer {h : Graph} (hg : g.WellFormed) (hh : h.WellFormed) {v : ValueId} {n : Node}
    (hn : h.producer? v = some n) {P : Node → Prop}
    (hnode : ∀ {id}, h.node? id = some n → ∃ old, g.node? id = some old ∧ n.outputs = old.outputs ∧ P old) :
    ∃ old, g.producer? v = some old ∧ P old := by
  obtain ⟨val, hval, hlast⟩ := producer?_eq_some hn
  obtain ⟨old, hold, hout, hP⟩ := hnode hlast
  obtain ⟨val', hval', hproducer⟩ := hg.output_live' hold (hout ▸ hh.mem_outputs hval hlast)
  exact ⟨old, by rw [producer?_eq hval', hproducer, hold], hP⟩

/-- The type of an output that is the only one. -/
theorem TypeConsistent.single_output (hg : g.TypeConsistent) {v : ValueId} {n : Node} (hn : g.producer? v = some n)
    (hsplit : n.op.type ≠ .split) : n.outputs = [v] ∧ ∃ ins t, n.inputs.map g.type? = ins.map some ∧
      n.op.validate ins (n.inputs.map g.knownValue?) = .ok [t] ∧ g.type? v = some t := by
  obtain ⟨val, hval, hnode⟩ := producer?_eq_some hn
  have hmem := hg.wellFormed.mem_outputs hval hnode
  obtain ⟨w, hout, -⟩ := hg.exists_output hnode hsplit
  obtain rfl : v = w := by simpa [hout] using hmem
  obtain ⟨ins, outs, hin, hvalid, hcached⟩ := typed_iff.1 (hg.typed hnode)
  obtain ⟨t, rfl⟩ := List.length_eq_one_iff.1 (Op.length_of_validate hsplit hvalid)
  exact ⟨hout, ins, t, hin, hvalid, type?_of_single hcached hmem⟩

/-! ## No cycle -/

/-- **A replacement that depends on old nodes through the inputs of the root only** depends on no reader of the root. -/
theorem dependsOnAny_eq_false {g grown : Graph} (hg : g.WellFormed) (hgg : Grown g grown) {rootId new : ValueId} {n : Node}
    (hn : g.producer? rootId = some n)
    (hinputs : ∀ {p a : NodeId}, grown.producerId? new = some p → a.index < g.nodeSlots → ReflTransGen grown.DependsOn p a →
      ∃ x ∈ n.inputs, ∃ b, g.producerId? x = some b ∧ ReflTransGen g.DependsOn b a) :
    grown.dependsOnAny new (grown.readersOutside rootId (grown.nodesFrom g.nodeSlots)) = false := by
  have hgrown := hgg.wellFormed hg
  refine Bool.eq_false_iff.2 (fun hany => ?_)
  obtain ⟨p, hp, a, ha, hpath⟩ := (dependsOnAny_readersOutside_iff hgrown).1 hany
  obtain ⟨u, hu, rfl⟩ := List.mem_map.1 ha
  obtain ⟨hread, hkept⟩ := (mem_movedUses hgrown).1 hu
  have hold : u.node.index < g.nodeSlots := Nat.lt_of_not_le (fun hle => hkept (hread.mem_nodesFrom_iff.2 hle))
  obtain ⟨x, hx, b, hb, hback⟩ := hinputs hp hold hpath
  obtain ⟨root, hroot, hnode⟩ := producer?_eq_some hn
  obtain ⟨val, hval, rfl⟩ := Option.map_eq_some_iff.1 hb
  have hread : g.Reads u rootId := by
    rwa [Reads, (hgg.extends hg).node?_old hold] at hread
  -- from an input of the root to a reader of the root, to the root, and back
  exact hg.acyclic val.producer ((TransGen.tail' hback (hread.dependsOn hroot)).tail
    (dependsOn_iff.2 ⟨n, x, val, hnode, hx, hval, rfl⟩))

end Graph

namespace Rule

variable {rule : Rule} {g : Graph} {rootId new : ValueId} {m : Match} {root : Value} {grown updated : Graph}

/-! ## What comes of an application -/

/-- **The rule has a replacement of the type of the root**, which depends on no reader of the root. -/
structure Exchanges (rule : Rule) (g : Graph) (rootId : ValueId) (m : Match) (root : Value) (new : ValueId)
    (grown : Graph) : Prop where
  matched : rule.pattern.matchValue? g rootId = some m
  root_live : g.value? rootId = some root
  built : (rule.replacement m).run.run g = (.ok new, grown)
  ne : new ≠ rootId
  type : grown.type? new = some root.type
  independent : grown.dependsOnAny new (grown.readersOutside rootId (grown.nodesFrom g.nodeSlots)) = false

namespace Exchanges

variable (h : rule.Exchanges g rootId m root new grown)

include h

theorem no_fault : grown.replacementFault? root rootId new (grown.nodesFrom g.nodeSlots) = none := by
  simp [replacementFault?, h.type, h.independent, TensorType.compatible_self]

theorem applyAt_eq : rule.applyAt g rootId = grown.splice root rootId new (grown.nodesFrom g.nodeSlots) :=
  applyAt_eq_splice h.matched h.root_live h.built h.ne h.no_fault

/-- **Only a reader can refuse the replacement.** -/
theorem applyAt_cases (hg : g.WellFormed) :
    (∃ updated, rule.Spliced g rootId m root new grown updated ∧ rule.applyAt g rootId =
      (.applied new, (updated.removeDead (root.producer :: grown.nodesFrom g.nodeSlots)).1)) ∨
    ∃ cause, (rule.applyAt g rootId).1 = .rejected (.consumerRejected cause) := by
  have hgg : Grown g grown := grown_of_run h.built
  rw [h.applyAt_eq]
  rcases splice_cases hg (hgg.wellFormed hg) (hgg.extends hg) root h.ne with ⟨updated, hprop, heq⟩ | ⟨cause, heq⟩
  · exact Or.inl ⟨updated, ⟨h.matched, h.root_live, h.built, h.ne, h.no_fault, hprop⟩, heq⟩
  · exact Or.inr ⟨cause, congrArg Prod.fst heq⟩

/-- **No reader refuses it, and no type changes**, if the value of neither is known before the graph runs. -/
theorem spliced (hg : g.TypeConsistent) (hknown : grown.knownValue? new = grown.knownValue? rootId) :
    rule.Spliced g rootId m root new grown (grown.redirect rootId new (grown.nodesFrom g.nodeSlots)).2 := by
  have hgg : Grown g grown := grown_of_run h.built
  have hgrown := hgg.typeConsistent hg
  have hroot : grown.type? rootId = some root.type :=
    (hgg.extends hg.wellFormed).type? (by rw [type?, h.root_live]; rfl)
  have hlive : (grown.value? new).isSome = true := by
    obtain ⟨val, hval, -⟩ := Option.map_eq_some_iff.1 h.type
    rw [hval]
    rfl
  have hwf : (grown.redirect rootId new (grown.nodesFrom g.nodeSlots)).2.WellFormed :=
    wellFormed_redirect hgrown.wellFormed h.ne.symm hlive (fun p hp a ha hpath => Bool.eq_false_iff.1 h.independent
      ((dependsOnAny_readersOutside_iff hgrown.wellFormed).2 ⟨p, hp, a, ha, hpath⟩))
  exact ⟨h.matched, h.root_live, h.built, h.ne, h.no_fault, propagate_of_typeConsistent
    (typeConsistent_redirect hgrown h.ne.symm hwf (h.type.trans hroot.symm) hknown) _⟩

end Exchanges

section Gone

variable (h : rule.Spliced g rootId m root new grown updated) (hg : g.WellFormed) {n : Node}
  (hn : g.producer? rootId = some n) (hkind : n.op.type ≠ .parameter) (hout : n.outputs = [rootId])
  (hunread : ∀ u, grown.Reads u rootId → u.node.index < g.nodeSlots)

include h hg hn hkind hout hunread

/-- **The producer of the root is gone**, if it has no other output and no node was added that reads it. -/
theorem Spliced.root_producer_gone :
    (updated.removeDead (root.producer :: grown.nodesFrom g.nodeSlots)).1.node? root.producer = none := by
  have hupdated := h.updated_wellFormed hg
  have hfinal := collected_removeDead hupdated (root.producer :: grown.nodesFrom g.nodeSlots)
  have hw := without_removeDead hupdated (root.producer :: grown.nodesFrom g.nodeSlots)
  obtain ⟨val, hval, hnode⟩ := producer?_eq_some hn
  obtain rfl := Option.some.inj (h.root_live.symm.trans hval)
  by_contra hleft
  obtain ⟨n', hn'⟩ := Option.ne_none_iff_exists'.1 hleft
  obtain rfl := Option.some.inj ((h.node?_updated hg hnode).symm.trans (hw.node?_eq_some.1 hn').2)
  refine hfinal.alive root.producer List.mem_cons_self ⟨_, hn', (isDead_iff hfinal.wellFormed hn').2 ⟨hkind, ?_⟩⟩
  intro v hv
  obtain rfl : v = rootId := by simpa [hout] using hv
  refine ⟨fun hresult => ?_, fun u hread => ?_⟩
  · rw [hw.results, h.results_updated hg] at hresult
    obtain ⟨w, -, hw⟩ := List.mem_map.1 hresult
    rcases swap_cases v new w with hs | ⟨-, hs⟩
    · have hmoved : swap v new w = new := if_pos (hs.symm.trans hw)
      exact h.ne (hmoved.symm.trans hw)
    · exact h.ne (hs.symm.trans hw)
  · rcases (h.reads_updated hg).1 (hfinal.thinned.reads hread) with ⟨hread, hkept⟩ | ⟨heq, -⟩
    · exact Nat.not_le.2 (hunread u hread) (Atop.mem_nodesFrom.1 (hkept rfl)).1
    · exact h.ne heq.symm

/-- **The root is gone with its producer.** -/
theorem Spliced.root_gone :
    (updated.removeDead (root.producer :: grown.nodesFrom g.nodeSlots)).1.value? rootId = none := by
  have hupdated := h.updated_wellFormed hg
  have hw := without_removeDead hupdated (root.producer :: grown.nodesFrom g.nodeSlots)
  by_contra hleft
  obtain ⟨val, hval⟩ := Option.ne_none_iff_exists'.1 hleft
  obtain ⟨n', hn', -⟩ := (wellFormed_removeDead hupdated _).produced hval
  obtain ⟨now, hnow, -, rfl⟩ := hw.value?_eq_some.1 hval
  obtain ⟨now', hnow', hproducer⟩ := h.value?_updated hg h.root_live
  obtain rfl := Option.some.inj (hnow.symm.trans hnow')
  rw [show (now.withoutNodes _).producer = root.producer from hproducer,
    h.root_producer_gone hg hn hkind hout hunread] at hn'
  cases hn'

end Gone

end Rule
end TensorGraph
