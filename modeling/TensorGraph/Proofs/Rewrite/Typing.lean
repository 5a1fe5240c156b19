import TensorGraph.Proofs.Graph.Visits
import TensorGraph.Proofs.Rewrite.Edit
/-!
# Typing of rewrites

When the readers of a root are moved, the nodes whose types may be out of date are those readers
and what reads a shape among them.  The propagation of an application starts from the readers, so
after it all types are up to date; dead nodes are taken out after that, and an application that
comes to nothing changes nothing.
-/
namespace TensorGraph

open TensorGraph.Graph

namespace Graph

variable {g : Graph}

/-! ## After a redirection -/

section Redirect

variable {source target : ValueId} {keep : List NodeId}

theorem producerId?_redirect (hne : source ≠ target) (v : ValueId) :
    (g.redirect source target keep).2.producerId? v = g.producerId? v := by
  rw [producerId?, producerId?, value?_redirect hne]
  split
  · rw [Option.map_map]
    rfl
  · split
    · rw [Option.map_map]
      rfl
    · rfl

theorem node?_redirect_of_not_moved (hg : g.WellFormed) {id : NodeId}
    (hid : id ∉ (g.movedUses source keep).map Use.node) :
    (g.redirect source target keep).2.node? id = g.node? id := by
  by_cases hk : id ∈ keep
  · exact node?_redirect_kept hk
  rw [node?_redirect hg hk]
  cases hn : g.node? id with
  | none => rfl
  | some n =>
    have hin : n.inputs.map (swap source target) = n.inputs := by
      refine (List.map_congr_left (fun v hv => ?_)).trans (List.map_id n.inputs)
      refine swap_of_ne (fun hs => hid ?_)
      obtain ⟨i, hreads⟩ := reads_of_mem_inputs hn (hs ▸ hv)
      exact List.mem_map.2 ⟨⟨id, i⟩, (mem_movedUses hg).2 ⟨hreads, hk⟩, rfl⟩
    rw [Option.map_some, hin]

theorem knownValue?_eq_none {v : ValueId} (h : ∀ p, g.producer? v = some p → p.op.hasKnownValue = false) :
    g.knownValue? v = none := by
  unfold knownValue? knownValueUnder?
  cases hp : g.producer? v with
  | none => rfl
  | some p =>
    have hop := h p hp
    simp only
    split
    · rename_i c _ hc
      rw [hc] at hop
      cases hop
    · rename_i output input rest hc _
      rw [hc] at hop
      cases hop
    · rfl

/-- A value stays known, and as what, unless the uses of its producer are moved. -/
theorem knownValue?_redirect (hg : g.WellFormed) (hne : source ≠ target) {v : ValueId}
    (hunmoved : ∀ p s, g.producerId? v = some p → g.node? p = some s → s.op.hasKnownValue = true →
      p ∉ (g.movedUses source keep).map Use.node) :
    (g.redirect source target keep).2.knownValue? v = g.knownValue? v := by
  have hprod : (g.redirect source target keep).2.producerId? v = g.producerId? v := producerId?_redirect hne v
  cases hp : g.producerId? v with
  | none =>
    have hnone : g.producer? v = none := by rw [producer?, hp, Option.bind_none]
    have hnone' : (g.redirect source target keep).2.producer? v = none := by
      rw [producer?, hprod, hp, Option.bind_none]
    rw [knownValue?_eq_none (fun p h => by rw [hnone'] at h; cases h),
      knownValue?_eq_none (fun p h => by rw [hnone] at h; cases h)]
  | some p =>
    obtain ⟨val, hval, rfl⟩ := Option.map_eq_some_iff.1 hp
    obtain ⟨s, hs, -⟩ := hg.produced hval
    have hold : g.producer? v = some s := by rw [producer?_eq hval, hs]
    have hnew : (g.redirect source target keep).2.producer? v =
        some { s with inputs := if val.producer ∈ keep then s.inputs else s.inputs.map (swap source target) } := by
      rw [producer?, hprod, hp, Option.bind_some, node?_redirect_of hg hs]
    cases hknown : s.op.hasKnownValue with
    | true =>
      refine knownValue?_congr ?_ (fun _ _ _ _ _ _ _ => type?_redirect hne _)
      rw [hold, producer?, hprod, hp, Option.bind_some, node?_redirect_of_not_moved hg (hunmoved _ s hp hs hknown), hs]
    | false =>
      rw [knownValue?_eq_none (fun p h => by rw [hnew] at h; exact Option.some.inj h ▸ hknown),
        knownValue?_eq_none (fun p h => by rw [hold] at h; exact Option.some.inj h ▸ hknown)]

/-- **A node whose uses are not moved stays typed, or it reads the known value of one whose uses are.** -/
theorem typed_redirect (hg : g.WellFormed) (hne : source ≠ target) {n : Node} (htyped : g.Typed n) :
    (g.redirect source target keep).2.Typed n ∨ ∃ v ∈ n.inputs, ∃ p s,
      (g.redirect source target keep).2.producerId? v = some p ∧
      (g.redirect source target keep).2.node? p = some s ∧ s.op.hasKnownValue = true ∧
      p ∈ (g.movedUses source keep).map Use.node := by
  by_cases hmoved : ∃ v ∈ n.inputs, ∃ p s, g.producerId? v = some p ∧ g.node? p = some s ∧
      s.op.hasKnownValue = true ∧ p ∈ (g.movedUses source keep).map Use.node
  · obtain ⟨v, hv, p, s, hp, hs, hknown, hin⟩ := hmoved
    exact Or.inr ⟨v, hv, p, _, by rw [producerId?_redirect hne, hp], node?_redirect_of hg hs, hknown, hin⟩
  · refine Or.inl (htyped.congr (fun v _ => type?_redirect hne v) (fun v hv => knownValue?_redirect hg hne ?_)
      (fun v _ => type?_redirect hne v))
    exact fun p s hp hs hknown hin => hmoved ⟨v, hv, p, s, hp, hs, hknown, hin⟩

end Redirect

/-! ## Edits -/

theorem typeConsistent_spend (hg : g.TypeConsistent) (n m : Nat) : (g.spend n m).TypeConsistent :=
  hg.of_lookups ((sameEdges_spend g n m).wellFormed hg.wellFormed) (g.node?_spend n m) (g.value?_spend n m)

theorem typeConsistent_inferAll (hg : g.WellFormed) {h : Graph} (hinf : g.inferAll = .ok h) : h.TypeConsistent := by
  refine typeConsistent_propagate hg (fun id hid => mem_nodeIds.1 hid) (fun {id n} hn hid => ?_) hinf
  exact absurd (mem_nodeIds.2 (by rw [hn]; rfl)) hid

theorem typeConsistent_revalidate (hg : g.TypeConsistent) {id : NodeId} {h : Graph} (hrev : g.revalidate id = .ok h) :
    h.TypeConsistent := by
  obtain ⟨hlive, hprop⟩ := revalidate_eq_ok hrev
  refine typeConsistent_propagate hg.wellFormed (fun j hj => ?_) (fun hn _ => Or.inl (hg.typed hn)) hprop
  rw [List.mem_singleton.1 hj]
  exact hlive

end Graph

namespace Rule

variable {rule : Rule} {g : Graph} {rootId : ValueId}

/-- **After the propagation of an application all types are up to date.** -/
theorem Spliced.typeConsistent {m : Match} {root : Value} {new : ValueId} {grown updated : Graph}
    (h : rule.Spliced g rootId m root new grown updated) (hg : g.TypeConsistent) : updated.TypeConsistent := by
  have hgrown := h.grown_of.typeConsistent hg
  refine typeConsistent_propagate (h.moved_wellFormed hg.wellFormed) (fun id hid => ?_) (fun {id n} hn hid => ?_)
    h.propagated
  · obtain ⟨u, hu, rfl⟩ := List.mem_map.1 hid
    obtain ⟨n, hn⟩ := ((mem_movedUses hgrown.wellFormed).1 hu).1.exists_node
    rw [node?_redirect_of hgrown.wellFormed hn]
    rfl
  · rw [node?_redirect_of_not_moved hgrown.wellFormed hid] at hn
    exact typed_redirect hgrown.wellFormed h.ne.symm (hgrown.typed hn)

/-- **Applying a rule keeps the types up to date**, whatever comes of it. -/
theorem typeConsistent_applyAt (hg : g.TypeConsistent) : (rule.applyAt g rootId).2.TypeConsistent :=
  applyAt_cases hg.wellFormed (typeConsistent_spend hg)
    (fun _ _ _ _ _ hs => typeConsistent_removeDead (hs.typeConsistent hg) _)

end Rule

namespace Graph

variable {g : Graph}

theorem typeConsistent_follow (pass : Pass) (hg : g.TypeConsistent) (log : List (Rule × ValueId)) :
    (pass.follow g log).graph.TypeConsistent := by
  have hall : ∀ e ∈ log, e.1 ∈ log.map Prod.fst := fun e he => List.mem_map_of_mem he
  refine PassRun.follow_induct (P := fun s => s.graph.TypeConsistent) ?_ log _ hall hg
  intro s rule root _ hs
  rw [PassRun.graph_applyRule]
  exact Rule.typeConsistent_applyAt hs

/-- **Every operation but the assignment of an operation keeps the types up to date.** -/
theorem typeConsistent_edit (hg : g.TypeConsistent) :
    ∀ e : Edit, (∀ id op, e ≠ .setOp id op) → (e.apply g).TypeConsistent
  | .addParameter _ _, _ => kept_induct hg (fun h hadd => by
    obtain ⟨id, v, k, hins, rfl⟩ := addParameter_eq_ok hadd
    exact (typeConsistent_insert hg hins).of_lookups (wellFormed_addParameter hg.wellFormed hadd) (fun _ => rfl)
      (fun _ => rfl))
  | .addConstant _ _, _ => kept_induct hg (fun h hadd => by
    obtain ⟨id, v, hins⟩ := addValue_eq_ok hadd
    exact typeConsistent_insert hg hins)
  | .addValue _ _ _, _ => kept_induct hg (fun h hadd => by
    obtain ⟨id, v, hins⟩ := addValue_eq_ok hadd
    exact typeConsistent_insert hg hins)
  | .setResults _, _ => kept_induct hg (fun h hset => by
    obtain ⟨-, rfl⟩ := setResults_eq_ok hset
    exact hg.of_lookups (wellFormed_setResults hg.wellFormed hset) (fun _ => rfl) (fun _ => rfl))
  | .setOp id op, hne => absurd rfl (hne id op)
  | .revalidate _, _ => kept_induct hg (fun _ => typeConsistent_revalidate hg)
  | .inferAll, _ => kept_induct hg (fun _ => typeConsistent_inferAll hg.wellFormed)
  | .prune, _ => typeConsistent_prune hg
  | .run pass, _ => by
    obtain ⟨log, -, heq, -⟩ := pass.run_eq_follow g
    show (pass.run g).2.TypeConsistent
    rw [heq]
    exact typeConsistent_follow pass hg log

theorem typeConsistent_edits : ∀ (edits : List Edit) {g : Graph}, (∀ e ∈ edits, ∀ id op, e ≠ .setOp id op) →
    g.TypeConsistent → (edits.foldl Edit.apply g).TypeConsistent
  | [], _, _, hg => hg
  | e :: edits, _, hne, hg =>
    typeConsistent_edits edits (fun e' he' => hne e' (List.mem_cons_of_mem e he'))
      (typeConsistent_edit hg e (hne e List.mem_cons_self))

theorem typeConsistent_empty (registry : Registry) : (empty registry).TypeConsistent :=
  ⟨wellFormed_empty registry, fun {id n} hn => by
    have hnone : (empty registry).node? id = none := rfl
    rw [hnone] at hn
    cases hn⟩

open Propagation (Runs InRun)

/-- **Types that are up to date stay so**: after a run and at every point of it, after a single application whatever
comes of it, and after an addition, a choice of results and a pruning.  Inferring all types brings them up to date,
or is refused and leaves the graph alone: whatever a propagation starts from, the graph is untouched in all states that
its loop comes through, the one where it is refused among them, and types are written when the loop is at its end. -/
theorem types_up_to_date (g : Graph) :
    (g.TypeConsistent →
      (∀ pass : Pass, (pass.run g).2.TypeConsistent ∧
        ∃ log : List (Rule × ValueId), (∀ e ∈ log, e.1 ∈ pass.rules) ∧ (pass.run g).2 = (pass.follow g log).graph ∧
          ∀ k, (pass.follow g (log.take k)).graph.TypeConsistent) ∧
      (∀ (rule : Rule) (root : ValueId), (rule.applyAt g root).2.TypeConsistent) ∧
      (∀ name op inputs, ((Edit.addValue name op inputs).apply g).TypeConsistent) ∧
      (∀ results, ((Edit.setResults results).apply g).TypeConsistent) ∧
      (Edit.prune.apply g).TypeConsistent) ∧
    (g.WellFormed →
      (∀ h, g.inferAll = .ok h → h.TypeConsistent) ∧
      (∀ error, g.inferAll = .error error → Edit.inferAll.apply g = g) ∧
      ∀ seeds, ∃ trace result, Runs g (g.start seeds) trace result ∧ (∀ p, InRun trace result p → p.graph = g) ∧
        g.propagate seeds = result.map Propagation.commit) := by
  refine ⟨fun hg => ⟨fun pass => ⟨?_, ?_⟩, fun rule root => Rule.typeConsistent_applyAt hg, ?_, ?_, ?_⟩,
    fun hg => ⟨fun h => typeConsistent_inferAll hg, fun error herror => ?_, fun seeds => ?_⟩⟩
  · exact typeConsistent_edit hg (.run pass) (fun _ _ h => nomatch h)
  · obtain ⟨log, hlog, heq, -⟩ := pass.run_eq_follow g
    exact ⟨log, hlog, heq, fun k => typeConsistent_follow pass hg (log.take k)⟩
  · exact fun name op inputs => typeConsistent_edit hg (.addValue name op inputs) (fun _ _ h => nomatch h)
  · exact fun results => typeConsistent_edit hg (.setResults results) (fun _ _ h => nomatch h)
  · exact typeConsistent_edit hg .prune (fun _ _ h => nomatch h)
  · show Edit.kept g g.inferAll = g
    rw [herror]
    rfl
  · obtain ⟨trace, hruns, -⟩ := exists_runs_propagation hg seeds
    exact ⟨trace, _, hruns, fun p hp => ((hruns.ascending hg (ascending_start hg seeds)).1 p hp).graph_eq, rfl⟩

/-- A chain of operations on a vector of unknown size. -/
def vague : Graph :=
  [Edit.addParameter none ⟨.i32, .ranked [.dynamic]⟩, .addValue none (.unary .negative) [⟨0⟩],
    .addValue none (.unary .abs) [⟨1⟩], .addValue none (.shapeOf .i64) [⟨2⟩],
    .setResults [⟨2⟩, ⟨3⟩]].foldl Edit.apply (.empty .full)

/-- Replace negations by a vector of known size. -/
def sharpening : Pass where
  name := "Sharpening"
  rules := [⟨"Sharpen", ⟨#[.any, .op [.unary .negative] [⟨0⟩] false], ⟨1⟩⟩,
    fun _ => Construction.orInvalid (Construction.addValue none (.constant ⟨.i32 [1, 2], [2]⟩) [])⟩]
  options := .default

/-- The size that the replacement has is known downstream after the run. -/
theorem types_up_to_date_sharpening : vague.TypeConsistent ∧ vague.WellFormed ∧
    (sharpening.run vague).1.applied = 1 ∧ vague.type? ⟨2⟩ = some ⟨.i32, .ranked [.dynamic]⟩ ∧
    (sharpening.run vague).2.type? ⟨2⟩ = some ⟨.i32, .ranked [.fixed 2]⟩ ∧
    (sharpening.run vague).2.TypeConsistent ∧ ∃ h, vague.inferAll = .ok h ∧ h.TypeConsistent := by
  have hg : vague.TypeConsistent := by
    refine typeConsistent_edits _ (fun e he id op => ?_) (typeConsistent_empty .full)
    rintro rfl
    simp at he
  obtain ⟨hrewrites, hinfer⟩ := types_up_to_date vague
  refine ⟨hg, hg.wellFormed, by decide +kernel, by decide +kernel, by decide +kernel,
    ((hrewrites hg).1 sharpening).1, ?_⟩
  have hok : vague.inferAll.isOk = true := by decide +kernel
  cases hall : vague.inferAll with
  | error e =>
    rw [hall] at hok
    cases hok
  | ok h => exact ⟨h, rfl, (hinfer hg.wellFormed).1 h hall⟩

end Graph
end TensorGraph
