import TensorGraph.Proofs.Op.Permutation
import TensorGraph.Proofs.Rewrite.Exchange
import TensorGraph.Proofs.Rewrite.Sweep
/-!
# Elimination — a pass that drops every identity that its readers let go

An identity has the type of its input, so its input can take its place unless a reader refuses, and
a reader can refuse only because more is known of the input.  The graph only shrinks: a node goes with each
application, and nodes that stay do what they did, to as many inputs.  So the pass ends, and what it has left
alone was refused at every attempt.
-/
namespace TensorGraph

open TensorGraph.Graph

/-! ## Identities keep the type -/

namespace Infer

variable {x t : TensorType}

theorem eq_of_transpose_identity {order : Option (List Nat)} {axes? : Option (List Int)} {rank : Nat}
    (h : transpose order x none axes? = .ok t) (hrank : x.rank? = some rank)
    (horder : order = some (List.range rank) ∨ order = none ∧ rank ≤ 1) : t = x := by
  obtain ⟨e, s⟩ := x
  obtain ⟨ds, rfl, rfl⟩ : ∃ ds, s = .ranked ds ∧ ds.length = rank := by
    cases s with
    | unknown => cases hrank
    | ranked ds => exact ⟨ds, rfl, Option.some.inj hrank⟩
  rcases horder with rfl | ⟨rfl, hshort⟩
  · have h : permute ⟨e, .ranked ds⟩ (List.range ds.length) = .ok t := h
    exact (Except.ok.inj ((permute_range e ds).symm.trans h)).symm
  · -- up to rank 1 the reversed order is no other
    have hreverse := permute_reverse_range e ds
    rw [reverse_range_eq_iff.2 hshort, permute_range] at hreverse
    exact (Except.ok.inj h).symm.trans (Except.ok.inj hreverse).symm

end Infer

/-- **The operation gives back an input of the first type as an output of the second.** -/
def Op.GivesBack (op : Op) (tx t : TensorType) : Prop :=
  op = .convert tx.element ∨
  (∃ order rank, op = .transpose order ∧ tx.rank? = some rank ∧
    (order = some (List.range rank) ∨ order = none ∧ rank ≤ 1)) ∨
  ∃ target copyZeros, op = .reshape target copyZeros ∧ tx.shape.isStatic = true ∧ t.shape = tx.shape

theorem Rule.isIdentity_iff {op : Op} {tx t : TensorType} : isIdentity op tx t = true ↔ op.GivesBack tx t := by
  cases op with
  | convert target => simp [isIdentity, Op.GivesBack]
  | transpose order =>
    cases hrank : tx.rank? with
    | none => simp [isIdentity, Op.GivesBack, hrank]
    | some rank => simp [isIdentity, Op.GivesBack, hrank, Infer.isIdentityOrder_iff]
  | reshape target copyZeros => simp [isIdentity, Op.GivesBack]
  | _ => simp [isIdentity, Op.GivesBack]

/-- The operations among which there are identities. -/
def Op.rearranges (op : Op) : Bool := [OpType.convert, .transpose, .reshape].contains op.type

theorem Op.GivesBack.rearranges {op : Op} {tx t : TensorType} (h : op.GivesBack tx t) : op.rearranges = true := by
  rcases h with rfl | ⟨_, _, rfl, -⟩ | ⟨_, _, rfl, -⟩ <;> rfl

theorem Op.not_split_of_rearranges {op : Op} (h : op.rearranges = true) : op.type ≠ .split ∧ op.type ≠ .parameter := by
  constructor <;> intro htype <;> rw [rearranges, htype] at h <;> cases h

/-- **An identity has the type of its input.** -/
theorem Op.GivesBack.eq_of_validate {op : Op} {tx t : TensorType} (h : op.GivesBack tx t)
    {values : List (Option ConstantData)} (hvalid : op.validate [tx] values = .ok [t]) : t = tx := by
  have hinfer := inferTypes_of_validate hvalid
  rcases h with rfl | ⟨order, rank, rfl, hrank, horder⟩ | ⟨target, copyZeros, rfl, -, hshape⟩
  · obtain ⟨x, hx, h⟩ := bind_eq_ok.1 hinfer
    obtain ⟨t', ht, h⟩ := single_eq_ok.1 h
    obtain rfl := List.head_eq_of_cons_eq h
    obtain rfl := Except.ok.inj hx
    unfold Infer.convert at ht
    split at ht
    · cases ht
    · exact (Except.ok.inj ht).symm
  · obtain ⟨⟨x, second⟩, hx, h⟩ := bind_eq_ok.1 hinfer
    obtain ⟨t', ht, h⟩ := single_eq_ok.1 h
    obtain rfl := List.head_eq_of_cons_eq h
    obtain ⟨rfl, rfl⟩ := Prod.mk.inj (Except.ok.inj hx)
    exact Infer.eq_of_transpose_identity ht hrank horder
  · obtain ⟨⟨x, second⟩, hx, h⟩ := bind_eq_ok.1 hinfer
    obtain ⟨t', ht, h⟩ := single_eq_ok.1 h
    obtain rfl := List.head_eq_of_cons_eq h
    obtain ⟨rfl, rfl⟩ := Prod.mk.inj (Except.ok.inj hx)
    obtain ⟨helement, -⟩ := Infer.rank?_of_reshapeTo ht
    obtain ⟨e, s⟩ := tx
    obtain ⟨e', s'⟩ := t
    rw [show e' = e from helement, show s' = s from hshape]

namespace Graph

variable {g h k : Graph} {v : ValueId} {n : Node}

/-! ## A graph with fewer nodes -/

theorem nodup_nodeIds (g : Graph) : g.nodeIds.Nodup := nodup_of_ascending g.nodeIds_ascending

/-- The nodes that convert, transpose or reshape. -/
def rearrangements (g : Graph) : List NodeId := g.nodeIds.filter (fun id => (g.node? id).any (fun n => n.op.rearranges))

/-- **What is left does what it did**, to as many inputs. -/
structure Shrunk (g h : Graph) : Prop where
  node : ∀ {id : NodeId} {n : Node}, h.node? id = some n → ∃ old, g.node? id = some old ∧ n.op = old.op ∧
    n.outputs = old.outputs ∧ n.inputs.length = old.inputs.length

namespace Shrunk

theorem refl (g : Graph) : Shrunk g g := ⟨fun hn => ⟨_, hn, rfl, rfl, rfl⟩⟩

theorem trans (hgh : Shrunk g h) (hhk : Shrunk h k) : Shrunk g k where
  node hn := by
    obtain ⟨mid, hmid, hop, hout, hin⟩ := hhk.node hn
    obtain ⟨old, hold, hop', hout', hin'⟩ := hgh.node hmid
    exact ⟨old, hold, hop.trans hop', hout.trans hout', hin.trans hin'⟩

theorem spend (g : Graph) (n m : Nat) : Shrunk g (g.spend n m) where
  node {id node} hn := by
    rw [node?_spend] at hn
    exact ⟨node, hn, rfl, rfl, rfl⟩

/-- A value that is left has the producer that it had. -/
theorem producer? (hgh : Shrunk g h) (hg : g.WellFormed) (hh : h.WellFormed) (hn : h.producer? v = some n) :
    ∃ old, g.producer? v = some old ∧ n.op = old.op ∧ n.inputs.length = old.inputs.length := by
  refine exists_old_producer hg hh hn (fun hnode => ?_)
  obtain ⟨old, hold, hop, hout, hin⟩ := hgh.node hnode
  exact ⟨old, hold, hout, hop, hin⟩

theorem live (hgh : Shrunk g h) (hg : g.WellFormed) (hh : h.WellFormed) (hv : (h.value? v).isSome = true) :
    (g.value? v).isSome = true := by
  obtain ⟨val, hval⟩ := Option.isSome_iff_exists.1 hv
  obtain ⟨n, hn, -⟩ := hh.produced hval
  obtain ⟨old, hold, -⟩ := hgh.producer? hg hh (by rw [producer?_eq hval, hn])
  obtain ⟨val', hval', -⟩ := producer?_eq_some hold
  rw [hval']
  rfl

theorem nodeIds_subset (hgh : Shrunk g h) : h.nodeIds ⊆ g.nodeIds := fun id hid => by
  obtain ⟨n, hn⟩ := Option.isSome_iff_exists.1 (mem_nodeIds.1 hid)
  obtain ⟨old, hold, -⟩ := hgh.node hn
  exact mem_nodeIds.2 (by rw [hold]; rfl)

theorem rearrangements_subset (hgh : Shrunk g h) : h.rearrangements ⊆ g.rearrangements := fun id hid => by
  obtain ⟨hid, hop⟩ := List.mem_filter.1 hid
  obtain ⟨n, hn⟩ := Option.isSome_iff_exists.1 (mem_nodeIds.1 hid)
  obtain ⟨old, hold, hsame, -⟩ := hgh.node hn
  rw [hn, Option.any_some, hsame] at hop
  exact List.mem_filter.2 ⟨hgh.nodeIds_subset hid, by rw [hold]; exact hop⟩

theorem length_le (hgh : Shrunk g h) : h.rearrangements.length ≤ g.rearrangements.length :=
  ((h.nodup_nodeIds.filter _).subperm hgh.rearrangements_subset).length_le

end Shrunk

theorem length_lt_of_subset {l l' : List NodeId} (hl : l.Nodup) (hsub : l ⊆ l') {id : NodeId} (hid : id ∈ l')
    (hgone : id ∉ l) : l.length < l'.length :=
  ((List.nodup_cons.2 ⟨hgone, hl⟩).subperm (List.cons_subset.2 ⟨hid, hsub⟩)).length_le

/-- **Fewer nodes are left if one is gone**, and fewer of those that rearrange if it is one of them. -/
theorem Shrunk.length_lt (hgh : Shrunk g h) {id : NodeId} (hn : g.node? id = some n) (hgone : h.node? id = none) :
    h.nodeCount < g.nodeCount ∧ (n.op.rearranges = true → h.rearrangements.length < g.rearrangements.length) := by
  have hid : id ∈ g.nodeIds := mem_nodeIds.2 (by rw [hn]; rfl)
  have hid' : id ∉ h.nodeIds := fun hid => by
    have hlive := mem_nodeIds.1 hid
    rw [hgone] at hlive
    cases hlive
  refine ⟨length_lt_of_subset h.nodup_nodeIds hgh.nodeIds_subset hid hid', fun hop => ?_⟩
  exact length_lt_of_subset (h.nodup_nodeIds.filter _) hgh.rearrangements_subset
    (List.mem_filter.2 ⟨hid, by rw [hn]; exact hop⟩) (fun hid => hid' (List.mem_filter.1 hid).1)

end Graph

namespace Rule

variable {g h : Graph} {v x new : ValueId} {m : Match} {n : Node}

/-! ## What an attempt comes to -/

/-- **The pattern matches what a node of one input produces**, if the node rearranges. -/
theorem identityPattern_matches_iff (hg : g.WellFormed) : (identityPattern.matchValue? g v).isSome = true ↔
    ∃ n, g.producer? v = some n ∧ n.op.rearranges = true ∧ n.inputs.length = 1 := by
  constructor
  · intro h
    obtain ⟨m, hm⟩ := Option.isSome_iff_exists.1 h
    obtain ⟨b, hfound, -⟩ := Pattern.matchValue?_eq_some hm
    obtain ⟨n, x, hn, htype, hin, -⟩ := Pattern.attempt_op_one (q := ⟨1⟩) rfl ⟨⟨0⟩, rfl, rfl⟩ rfl hfound
    exact ⟨n, hn, List.contains_iff_mem.2 htype, by rw [hin]; rfl⟩
  · rintro ⟨n, hn, htype, hlen⟩
    obtain ⟨x, hin⟩ := List.length_eq_one_iff.1 hlen
    obtain ⟨val, hval, hnode⟩ := producer?_eq_some hn
    have hlive : (g.value? x).isSome = true := hg.input_live hnode (by simp [hin])
    obtain ⟨fuel, hfuel⟩ : ∃ fuel, identityPattern.matchBound g = fuel + 3 :=
      ⟨identityPattern.matchBound g - 3, by
        have hbound := identityPattern.size_lt_matchBound g
        have hsize : identityPattern.nodes.size = 3 := rfl
        omega⟩
    have hlabel : identityPattern.attempt g (fuel + 2) ⟨1⟩ x .empty = .found ⟨[("input", x)], []⟩ := by
      rw [Pattern.attempt, show identityPattern.node? ⟨1⟩ = some (.label "input" ⟨0⟩) from rfl]
      simp only [Pattern.attempt_any_of_live (show identityPattern.node? ⟨0⟩ = some .any from rfl) hlive]
      rfl
    have htype' : [OpType.convert, .transpose, .reshape].contains n.op.type = true := htype
    rw [Pattern.matchValue?, hfuel, Pattern.attempt, show identityPattern.node? identityPattern.root =
      some (.op [.convert, .transpose, .reshape] [⟨1⟩] false) from rfl]
    simp only [producerId?_eq_some hval, hnode, htype', hin, Pattern.countFits, Pattern.matchInputs, Attempt.all, hlabel,
      Attempt.andThen]
    rfl

/-- A value that is left is matched if it was matched before. -/
theorem identityPattern_matches_of_shrunk (hgh : Shrunk g h) (hg : g.WellFormed) (hh : h.WellFormed)
    (hv : (h.value? v).isSome = true) (hm : (identityPattern.matchValue? g v).isSome = true) :
    (identityPattern.matchValue? h v).isSome = true := by
  obtain ⟨val, hval⟩ := Option.isSome_iff_exists.1 hv
  obtain ⟨n, hn, -⟩ := hh.produced hval
  have hproducer : h.producer? v = some n := by rw [producer?_eq hval, hn]
  obtain ⟨old, hold, hop, hin⟩ := hgh.producer? hg hh hproducer
  obtain ⟨old', hold', htype, hlen⟩ := (identityPattern_matches_iff hg).1 hm
  obtain rfl := Option.some.inj (hold.symm.trans hold')
  exact (identityPattern_matches_iff hh).2 ⟨n, hproducer, by rw [hop, htype], by rw [hin, hlen]⟩

theorem run_currentGraph_bind {α : Type} (f : Graph → Attempted RewriteError α) :
    (currentGraph >>= f).run.run g = (f g).run.run g := Construction.run_attempted_bind currentGraph f g

theorem run_skipIdentity_eq {tx t : TensorType} (hx : m.get? "input" = some x) (hn : g.producer? m.root = some n)
    (htx : g.type? x = some tx) (ht : g.type? m.root = some t) : (skipIdentity m).run.run g =
      (if isIdentity n.op tx t then .ok x else .error .declined, g) := by
  have hlabel : (labelled m "input").run.run g = (.ok x, g) := run_labelled_eq_ok.2 ⟨hx, rfl⟩
  refine (Construction.run_attempted_bind (labelled m "input") _ g).trans ?_
  rw [hlabel]
  refine (run_currentGraph_bind _).trans ?_
  simp only [hn, htx, ht]
  by_cases h : isIdentity n.op tx t = true
  · simp only [h, if_true]
    rfl
  · simp only [h]
    rfl

/-- **An identity can be replaced by its input.** -/
theorem exchanges_of_givesBack (hg : g.TypeConsistent) (hn : g.producer? v = some n) (hin : n.inputs = [x])
    {tx t : TensorType} (htx : g.type? x = some tx) (ht : g.type? v = some t) (hgives : n.op.GivesBack tx t) :
    ∃ m root, Pass.elimination.Exchanges g v m root x g := by
  obtain ⟨m, hm⟩ := Option.isSome_iff_exists.1
    ((identityPattern_matches_iff hg.wellFormed).2 ⟨n, hn, hgives.rearranges, by rw [hin]; rfl⟩)
  obtain ⟨n', x', hn', hin', hx⟩ := input_of_match hm
  obtain rfl := Option.some.inj (hn.symm.trans hn')
  obtain rfl : x = x' := by simpa [hin] using hin'
  have hroot : m.root = v := (Pattern.derives_of_matchValue? hm).1
  obtain ⟨root, hlive, hnode⟩ := producer?_eq_some hn
  obtain ⟨-, ins, t', htypes, hvalid, ht'⟩ := hg.single_output hn (Op.not_split_of_rearranges hgives.rearranges).1
  obtain rfl := Option.some.inj (ht.symm.trans ht')
  rw [hin, List.map_singleton, htx] at htypes
  obtain ⟨tx', rfl, htx'⟩ := List.map_eq_singleton_iff.1 htypes.symm
  obtain rfl := Option.some.inj htx'
  obtain rfl := hgives.eq_of_validate hvalid
  have htype : t = root.type := by
    rw [type?, hlive] at ht
    exact (Option.some.inj ht).symm
  refine ⟨m, root, hm, hlive, ?_, ?_, by rw [htx, htype], ?_⟩
  · refine (run_skipIdentity_eq hx (hroot.symm ▸ hn) htx (hroot.symm ▸ ht)).trans ?_
    rw [if_pos (isIdentity_iff.2 hgives)]
  · -- the node does not read its own output
    rintro rfl
    exact hg.wellFormed.acyclic root.producer (.single (dependsOn_iff.2 ⟨n, x, root, hnode, by simp [hin], hlive, rfl⟩))
  · exact dependsOnAny_eq_false hg.wellFormed .refl hn
      (fun {p a} hp _ hpath => ⟨x, by simp [hin], p, hp, hpath⟩)

/-- **What is matched is replaced, or declined, or refused by a reader.** -/
theorem applyAt_elimination_cases (hg : g.TypeConsistent) (hm : (identityPattern.matchValue? g v).isSome = true) :
    Pass.elimination.AppliesAt g v ∨ (Pass.elimination.applyAt g v).1 = .declined ∨
      ∃ cause, (Pass.elimination.applyAt g v).1 = .rejected (.consumerRejected cause) := by
  obtain ⟨m, hm⟩ := Option.isSome_iff_exists.1 hm
  obtain ⟨n, x, hn, hin, hx⟩ := input_of_match hm
  have hroot : m.root = v := (Pattern.derives_of_matchValue? hm).1
  obtain ⟨root, hlive, hnode⟩ := producer?_eq_some hn
  have ht : g.type? v = some root.type := by rw [type?, hlive]; rfl
  obtain ⟨val, hval⟩ := Option.isSome_iff_exists.1 (hg.wellFormed.input_live hnode (by simp [hin] : x ∈ n.inputs))
  have htx : g.type? x = some val.type := by rw [type?, hval]; rfl
  have hrun := run_skipIdentity_eq hx (hroot.symm ▸ hn) htx (hroot.symm ▸ ht)
  by_cases hgives : n.op.GivesBack val.type root.type
  · obtain ⟨m', root', hexchange⟩ := exchanges_of_givesBack hg hn hin htx ht hgives
    rcases hexchange.applyAt_cases hg.wellFormed with ⟨updated, -, heq⟩ | hrefused
    · exact Or.inl ⟨x, congrArg Prod.fst heq⟩
    · exact Or.inr (Or.inr hrefused)
  · rw [if_neg (mt isIdentity_iff.1 hgives)] at hrun
    refine Or.inr (Or.inl ?_)
    unfold applyAt
    rw [show Pass.elimination.pattern.matchValue? g v = some m from hm, hlive]
    simp only [show (Pass.elimination.replacement m).run.run g = _ from hrun]

/-- A replacement that was there before adds nothing. -/
theorem Spliced.shrunk {rule : Rule} {root : Value} {updated : Graph} (h : rule.Spliced g v m root x g updated)
    (hg : g.WellFormed) : Shrunk g (updated.removeDead (root.producer :: g.nodesFrom g.nodeSlots)).1 := by
  have hw := without_removeDead (h.updated_wellFormed hg) (root.producer :: g.nodesFrom g.nodeSlots)
  refine ⟨fun {id n} hn => ?_⟩
  have hmoved := (hw.node?_eq_some.1 hn).2
  rw [h.retyped.node?_eq] at hmoved
  obtain ⟨old, hold, rfl⟩ := node?_of_redirect hg hmoved
  refine ⟨old, hold, rfl, rfl, ?_⟩
  split
  · rfl
  · exact List.length_map _

/-- **An application leaves fewer nodes, and adds none.** -/
theorem shrunk_of_applied (hg : g.TypeConsistent) {final : Graph}
    (h : Pass.elimination.applyAt g v = (.applied new, final)) : Shrunk g final ∧ final.nodeSlots = g.nodeSlots ∧
      final.nodeCount < g.nodeCount ∧ final.rearrangements.length < g.rearrangements.length := by
  obtain ⟨m, root, grown, updated, hs, rfl⟩ := applyAt_eq_applied_iff.1 h
  obtain ⟨n, tx, t, -, hn, -, -, hidentity, rfl⟩ := run_skipIdentity hs.built
  rw [(Pattern.derives_of_matchValue? hs.matched).1] at hn
  have hop := (isIdentity_iff.1 hidentity).rearranges
  obtain ⟨hsplit, hparameter⟩ := Op.not_split_of_rearranges hop
  have hgone := hs.root_producer_gone hg.wellFormed hn hparameter (hg.single_output hn hsplit).1
    (fun _ => Reads.lt_nodeSlots)
  obtain ⟨val, hval, hnode⟩ := producer?_eq_some hn
  obtain rfl := Option.some.inj (hs.root_live.symm.trans hval)
  have hw := without_removeDead (hs.updated_wellFormed hg.wellFormed) (root.producer :: g.nodesFrom g.nodeSlots)
  have hshrunk := hs.shrunk hg.wellFormed
  obtain ⟨hcount, hfewer⟩ := hshrunk.length_lt hnode hgone
  exact ⟨hshrunk, hw.nodeSlots.trans (hs.retyped.frame.nodeSlots.trans nodeSlots_redirect), hcount, hfewer hop⟩

theorem shrunk_applyAt (hg : g.TypeConsistent) (v : ValueId) : Shrunk g (Pass.elimination.applyAt g v).2 := by
  by_cases happlies : Pass.elimination.AppliesAt g v
  · obtain ⟨new, hnew⟩ := happlies
    exact (shrunk_of_applied hg (Prod.ext hnew rfl)).1
  · obtain ⟨k, l, hspent⟩ := applyAt_snd_of_not_appliesAt hg.wellFormed happlies
    rw [hspent]
    exact .spend g k l

end Rule

/-! ## The pass -/

/-- **What holds throughout a pass of eliminations** that started with this graph. -/
structure PassRun.Eliminates (g : Graph) (s : PassRun) : Prop where
  failure : s.failure = none
  typed : s.graph.TypeConsistent
  bounded : s.graph.rearrangements.length + s.applied ≤ g.rearrangements.length
  refused : ∀ e ∈ s.rejected, (s.graph.value? e.root).isSome = true →
    e.rule = Pass.elimination.name ∧ ∃ cause, e.reason = .consumerRejected cause

namespace PassRun

variable {g first : Graph} {s t : PassRun} {verify : Bool} {v : ValueId}

theorem Eliminates.start (hg : g.TypeConsistent) : (PassRun.start g).Eliminates g where
  failure := rfl
  typed := hg
  bounded := Nat.le_of_eq (Nat.add_zero _)
  refused _ he := absurd he List.not_mem_nil

/-- **An attempt at a value that was matched at the start of the sweep keeps that.** -/
theorem Eliminates.step (hs : s.Eliminates g) (hfirst : first.WellFormed) (hshrunk : Shrunk first s.graph)
    (hmatch : (Rule.identityPattern.matchValue? s.graph v).isSome = true ∨
      (Rule.identityPattern.matchValue? first v).isSome = true) :
    (s.applyRule verify Pass.elimination v).Eliminates g := by
  have hwf := hs.typed.wellFormed
  have hafter := Rule.shrunk_applyAt hs.typed v
  have htyped : (Pass.elimination.applyAt s.graph v).2.TypeConsistent := Rule.typeConsistent_applyAt hs.typed
  rw [← graph_applyRule verify] at hafter htyped
  refine ⟨failure_applyRule_of_wellFormed hwf hs.failure, htyped, ?_, fun e he hlive => ?_⟩
  · have hbefore := hs.bounded
    by_cases happlies : Pass.elimination.AppliesAt s.graph v
    · rw [applied_applyRule happlies, graph_applyRule]
      obtain ⟨new, hnew⟩ := happlies
      obtain ⟨-, -, -, hfewer⟩ := Rule.shrunk_of_applied hs.typed (Prod.ext hnew rfl)
      exact Nat.le_trans (Nat.succ_add_eq_add_succ .. ▸ Nat.add_le_add_right hfewer _) hbefore
    · rw [(idle_applyRule hwf happlies).applied]
      exact Nat.le_trans (Nat.add_le_add_right hafter.length_le _) hbefore
  · have hbefore := hafter.live hwf htyped.wellFormed hlive
    rcases mem_rejected_applyRule he with he | ⟨reason, hreason, rfl⟩
    · exact hs.refused e he hbefore
    · have hm := hmatch.elim id (Rule.identityPattern_matches_of_shrunk hshrunk hfirst hwf hbefore)
      rcases Rule.applyAt_elimination_cases hs.typed hm with ⟨new, hnew⟩ | hdeclined | ⟨cause, hcause⟩
      · rw [hnew] at hreason
        cases hreason
      · rw [hdeclined] at hreason
        cases hreason
      · rw [hcause] at hreason
        exact ⟨rfl, cause, (Outcome.rejected.inj hreason).symm⟩

theorem Eliminates.tries {vs : List ValueId} (hs : s.Eliminates g)
    (h : Tries verify Pass.elimination s.graph vs s t) : t.Eliminates g :=
  (h.induct (P := fun u => u.Eliminates g ∧ Shrunk s.graph u.graph) (fun u v hmatch hu => by
    refine ⟨hu.1.step hs.typed.wellFormed hu.2 hmatch, hu.2.trans ?_⟩
    rw [graph_applyRule]
    exact Rule.shrunk_applyAt hu.1.typed v) ⟨hs, .refl _⟩).1

end PassRun

namespace Pass

variable {pass : Pass} {g : Graph} {s t : PassRun}

section Sweeps

variable (hrules : pass.rules = [elimination])

include hrules

theorem eliminates_sweep (hs : s.Eliminates g) : (pass.sweep s).Eliminates g ∧ s.applied ≤ (pass.sweep s).applied := by
  obtain ⟨vs, htries, -⟩ := tries_sweep hrules hs.typed.wellFormed hs.failure
  exact ⟨hs.tries htries, htries.applied_le hs.typed.wellFormed⟩

/-- **A sweep that applied nothing was refused at every identity.** -/
theorem refused_of_idle_sweep (hpass : pass.SlotBlind) (hs : s.Eliminates g) (hidle : (pass.sweep s).applied = s.applied)
    {v x : ValueId} {n : Node} (hn : (pass.sweep s).graph.producer? v = some n) (hin : n.inputs = [x]) {tx t : TensorType}
    (htx : (pass.sweep s).graph.type? x = some tx) (ht : (pass.sweep s).graph.type? v = some t)
    (hgives : n.op.GivesBack tx t) : ∃ e ∈ (pass.sweep s).rejected, e.rule = elimination.name ∧ e.root = v ∧
      ∃ cause, e.reason = .consumerRejected cause := by
  have hwf := hs.typed.wellFormed
  have hlast := (eliminates_sweep hrules hs).1
  have hm := (Rule.identityPattern_matches_iff hlast.typed.wellFormed).2 ⟨n, hn, hgives.rearranges, by rw [hin]; rfl⟩
  obtain ⟨u, hu, hnot, hkept⟩ := tried_of_idle_sweep hrules hpass hwf hs.failure hidle hm
  obtain ⟨k, l, hfinal⟩ := (idle_sweep hpass hwf (exhausted_of_sweep hpass hwf hs.failure hidle)).graph
  obtain ⟨k', l', hgraph⟩ := hu.graph
  rw [hfinal, producer?_spend] at hn
  rw [hfinal, type?_spend] at htx ht
  -- it is the same identity in the graph in which it was tried
  have htyped : u.graph.TypeConsistent := hgraph ▸ typeConsistent_spend hs.typed k' l'
  obtain ⟨m, root, hexchange⟩ := Rule.exchanges_of_givesBack htyped (by rw [hgraph, producer?_spend, hn]) hin
    (by rw [hgraph, type?_spend, htx]) (by rw [hgraph, type?_spend, ht]) hgives
  rcases hexchange.applyAt_cases htyped.wellFormed with ⟨updated, -, heq⟩ | ⟨cause, hcause⟩
  · exact absurd ⟨x, congrArg Prod.fst heq⟩ hnot
  · obtain ⟨e, he, hrule, hroot⟩ := PassRun.exists_mem_rejected_applyRule hcause
    exact ⟨e, hkept he, hrule, hroot, (hlast.refused e (hkept he) (hroot ▸ Pattern.live_of_matchValue? hm)).2⟩

end Sweeps

theorem elimination_of_built {rule : Rule} (h : Rule.identityElimination = .ok rule) : rule = elimination :=
  Rule.ofSketch_eq_ok h

/-- **The pass of eliminations ends with no identity that its readers let go**, in either mode, if it may sweep more often
than there are nodes to remove.  Every application leaves fewer nodes and adds none, and each identity that is left has
an entry that says which reader refused its input. -/
theorem eliminated_of_run (hg : g.TypeConsistent) {rule : Rule} (hrule : Rule.identityElimination = .ok rule)
    (hrules : pass.rules = [rule]) (hcap : g.rearrangements.length < pass.options.maxIterations) :
    (pass.run g).1.status = .converged ∧
    (∃ log : List (Rule × ValueId), (∀ e ∈ log, e.1 = rule) ∧ (pass.run g).2 = (pass.follow g log).graph ∧
      (pass.run g).1.applied = (pass.follow g log).applied ∧
      ∀ k e, log[k]? = some e → e.1.AppliesAt (pass.follow g (log.take k)).graph e.2 →
        (pass.follow g (log.take (k + 1))).graph.nodeCount < (pass.follow g (log.take k)).graph.nodeCount ∧
        (pass.follow g (log.take (k + 1))).graph.nodeIds ⊆ (pass.follow g (log.take k)).graph.nodeIds ∧
        (pass.follow g (log.take (k + 1))).graph.nodeSlots = (pass.follow g (log.take k)).graph.nodeSlots) ∧
    ∀ id n x v tx t, (pass.run g).2.node? id = some n → n.inputs = [x] → v ∈ n.outputs →
      (pass.run g).2.type? x = some tx → (pass.run g).2.type? v = some t → n.op.GivesBack tx t →
      ∃ e ∈ (pass.run g).1.rejected, e.rule = rule.name ∧ e.root = v ∧ ∃ cause, e.reason = .consumerRejected cause := by
  have hpass : pass.SlotBlind := slotBlind_of_builtIn (fun r hr => by
    obtain rfl := List.mem_singleton.1 (hrules ▸ hr)
    simp [hrule])
  obtain rfl := elimination_of_built hrule
  have hsweep : ∀ s, PassRun.Eliminates g s → PassRun.Eliminates g (pass.sweep s) ∧ (pass.sweep s).failure = none :=
    fun s hs => ⟨(eliminates_sweep hrules hs).1, (eliminates_sweep hrules hs).1.failure⟩
  have hstart : PassRun.Eliminates g (.start g) := .start hg
  have hconverged : (pass.run g).1.status = .converged :=
    converged_of_bounded hsweep (fun s hs => Nat.le_trans (Nat.le_add_left _ _) hs.bounded)
      (fun s hs => (eliminates_sweep hrules hs).2) hstart hcap
  refine ⟨hconverged, ?_, fun id n x v tx t hn hin hv htx ht hgives => ?_⟩
  · obtain ⟨log, hlog, hfinal, happlied, -⟩ := pass.run_eq_follow g
    have hrule : ∀ e ∈ log, e.1 = elimination := fun e he => List.mem_singleton.1 (hrules ▸ hlog e he)
    refine ⟨log, hrule, hfinal, happlied, fun k e he happlies => ?_⟩
    have hstep : (pass.follow g (log.take (k + 1))).graph = (e.1.applyAt (pass.follow g (log.take k)).graph e.2).2 := by
      rw [List.take_add_one, he]
      exact graph_follow_concat pass g (log.take k) e
    rw [hrule e (List.mem_of_getElem? he)] at happlies hstep
    obtain ⟨new, hnew⟩ := happlies
    obtain ⟨hshrunk, hslots, hcount, -⟩ := Rule.shrunk_of_applied (typeConsistent_follow pass hg (log.take k))
      (Prod.ext hnew hstep.symm)
    exact ⟨hcount, hshrunk.nodeIds_subset, hslots⟩
  · obtain ⟨s, hs, hidle, hlast⟩ := exists_last_sweep hsweep hstart hconverged
    rw [show (pass.run g).2 = (pass.sweep s).graph from congrArg PassRun.graph hlast] at hn htx ht
    rw [show (pass.run g).1.rejected = (pass.sweep s).rejected from congrArg PassRun.rejected hlast]
    obtain ⟨val, hval, hproducer⟩ := (hsweep s hs).1.typed.wellFormed.output_live' hn hv
    exact refused_of_idle_sweep hrules hpass hs hidle (by rw [producer?_eq hval, hproducer, hn]) hin htx ht hgives

/-- Six numbers are arranged as four, which shows only when the sizes are read without the conversion between. -/
def hiddenSizes : Graph :=
  [Edit.addParameter none ⟨.f32, .ranked [.fixed 2, .fixed 3]⟩, .addConstant none ⟨.i64 [4], [1]⟩,
    .addValue none (.convert .i64) [⟨1⟩], .addValue none (.reshape [] false) [⟨0⟩, ⟨2⟩],
    .addValue none (.transpose none) [⟨3⟩], .setResults [⟨4⟩]].foldl Edit.apply (.empty .full)

def eliminating : Pass := ⟨"Eliminating", [elimination], ⟨4, .firstMatch, true⟩⟩

/-- The transposition of the vector goes, and the conversion stays because the reshape would notice. -/
theorem eliminated_of_run_hiddenSizes : hiddenSizes.TypeConsistent ∧ Rule.identityElimination = .ok elimination ∧
    hiddenSizes.rearrangements.length < eliminating.options.maxIterations ∧
    (eliminating.run hiddenSizes).1.status = .converged ∧ (eliminating.run hiddenSizes).1.applied = 1 ∧
    (eliminating.run hiddenSizes).2.nodeIds = [⟨0⟩, ⟨1⟩, ⟨2⟩, ⟨3⟩] ∧
    (Op.convert .i64).GivesBack ⟨.i64, .ranked [.fixed 1]⟩ ⟨.i64, .ranked [.fixed 1]⟩ ∧
    ∃ e ∈ (eliminating.run hiddenSizes).1.rejected, e.rule = elimination.name ∧ e.root = ⟨2⟩ ∧
      ∃ cause, e.reason = .consumerRejected cause := by
  have htyped : hiddenSizes.TypeConsistent := typeConsistent_edits _ (by simp) (typeConsistent_empty _)
  have hbuilt : Rule.identityElimination = .ok elimination :=
    Rule.ofSketch_of_build (PatternBuilder.build_eq_ok.2 ⟨rfl, by decide +kernel, by decide +kernel⟩)
  have hcap : hiddenSizes.rearrangements.length < eliminating.options.maxIterations := by decide +kernel
  obtain ⟨hstatus, -, hrefused⟩ := eliminated_of_run htyped hbuilt (rfl : eliminating.rules = [elimination]) hcap
  exact ⟨htyped, hbuilt, hcap, hstatus, by decide +kernel, by decide +kernel, Or.inl rfl,
    hrefused ⟨2⟩ ⟨none, .convert .i64, [⟨1⟩], [⟨2⟩]⟩ ⟨1⟩ ⟨2⟩ ⟨.i64, .ranked [.fixed 1]⟩ ⟨.i64, .ranked [.fixed 1]⟩
      (by decide +kernel) rfl List.mem_cons_self (by decide +kernel) (by decide +kernel) (Or.inl rfl)⟩

end Pass
end TensorGraph
