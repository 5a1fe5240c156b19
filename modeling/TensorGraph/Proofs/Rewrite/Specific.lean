import TensorGraph.Proofs.Graph.Known
import TensorGraph.Proofs.Rewrite.Typing
import TensorGraph.Rewrite.Rules
/-!
# Rewrites do not weaken types

An application moves the readers of a root to the replacement, infers their types again and takes
out what is dead (`MovedFrom`).  Along the dependencies of the graph that is left, at least as much
is known of every value as before, if it is so of the replacement beside the root.  The driver
asks this of the two types.  It does not ask it of known values: where the root has one and the
replacement has not, what reads a shape there may lose the shape.
-/
namespace TensorGraph

open TensorGraph.Graph

namespace Graph

variable {g h : Graph} {source target : ValueId}

/-! ## What is known of what was there before -/

theorem Extends.type? (hgh : Extends g h) {v : ValueId} {t : TensorType} (ht : g.type? v = some t) :
    h.type? v = some t := by
  obtain ⟨val, hval, rfl⟩ := Option.map_eq_some_iff.1 ht
  obtain ⟨more, -, hval'⟩ := hgh.value?_of_value? hval
  rw [Graph.type?, hval']
  rfl

theorem Extends.knownValue? (hgh : Extends g h) (hg : g.WellFormed) {v : ValueId} (hv : (g.value? v).isSome = true) :
    h.knownValue? v = g.knownValue? v := by
  obtain ⟨val, hval⟩ := Option.isSome_iff_exists.1 hv
  obtain ⟨n, hn, -⟩ := hg.produced hval
  obtain ⟨more, -, hval'⟩ := hgh.value?_of_value? hval
  have hold : g.producer? v = some n := (producer?_eq hval).trans hn
  refine knownValue?_congr ?_ (fun p input rest output hp _ hin => ?_)
  · rw [hold, producer?_eq hval', hgh.node?_of_node? hn]
  · obtain rfl := Option.some.inj (hold.symm.trans hp)
    obtain ⟨wal, hwal⟩ := Option.isSome_iff_exists.1 (hg.input_live hn (hin ▸ List.mem_cons_self))
    have ht : g.type? input = some wal.type := by rw [Graph.type?, hwal, Option.map_some]
    rw [ht, hgh.type? ht]

/-! ## Moved readers -/

/-- In `h` inputs and results may read `target` where they read `source` in `g`; nodes may be
missing, and the types may be others. -/
structure MovedFrom (g : Graph) (source target : ValueId) (h : Graph) : Prop where
  node : ∀ {id : NodeId} {n' : Node}, h.node? id = some n' → ∃ n, g.node? id = some n ∧ n'.op = n.op ∧
    n'.outputs = n.outputs ∧ List.Forall₂ (fun v w => w = v ∨ v = source ∧ w = target) n.inputs n'.inputs
  producer : ∀ {v : ValueId} {id : NodeId}, h.producerId? v = some id → g.producerId? v = some id
  results : h.results = g.results.map (swap source target)

theorem swap_cases (source target v : ValueId) : swap source target v = v ∨ v = source ∧ swap source target v = target := by
  unfold swap
  split
  · exact Or.inr ⟨by assumption, rfl⟩
  · exact Or.inl rfl

theorem movedFrom_redirect (hg : g.WellFormed) (hne : source ≠ target) (keep : List NodeId) :
    MovedFrom g source target (g.redirect source target keep).2 where
  node hn' := by
    obtain ⟨n, hn, rfl⟩ := node?_of_redirect hg hn'
    refine ⟨n, hn, rfl, rfl, ?_⟩
    dsimp only
    split
    · exact List.forall₂_same.2 (fun _ _ => Or.inl rfl)
    · exact List.forall₂_map_right_iff.2 (List.forall₂_same.2 (fun v _ => swap_cases source target v))
  producer {v id} hp := by rwa [producerId?_redirect hne] at hp
  results := results_redirect

theorem KnowsMore.of_target (hk : g.KnowsMore target h target)
    (htype : ∃ t t', g.type? source = some t ∧ g.type? target = some t' ∧ t.relaxes t' = true)
    (hvalue : ∀ d, g.knownValue? source = some d → (h.value? target).isSome = true → h.knownValue? target = some d) :
    g.KnowsMore source h target := by
  obtain ⟨t, t', ht, ht', hrel⟩ := htype
  obtain ⟨u, u', hu, hu', hrel'⟩ := hk.type
  obtain rfl := Option.some.inj (ht'.symm.trans hu)
  refine ⟨⟨t, u', ht, hu', TensorType.relaxes_trans hrel hrel'⟩, fun d hd => hvalue d hd ?_⟩
  obtain ⟨val, hval, -⟩ := Option.map_eq_some_iff.1 hu'
  rw [hval]
  rfl

namespace MovedFrom

theorem retyped (hm : MovedFrom g source target h) {k : Graph} (hk : Retyped h k) : MovedFrom g source target k where
  node {id n'} hn' := by
    rw [hk.node?_eq] at hn'
    exact hm.node hn'
  producer {v id} hp := by
    rw [hk.producerId?] at hp
    exact hm.producer hp
  results := hk.frame.results.trans hm.results

theorem takeOut (hm : MovedFrom g source target h) (hh : h.WellFormed) {id : NodeId} {n : Node} (hn : h.node? id = some n) :
    MovedFrom g source target (h.takeOut id n) where
  node hn' := hm.node (node?_of_takeOut hn').2
  producer hp := by
    obtain ⟨val, hval, rfl⟩ := Option.map_eq_some_iff.1 hp
    obtain ⟨-, old, hold, rfl⟩ := value?_of_takeOut hh hn hval
    have hp : h.producerId? _ = some old.producer := producerId?_eq_some hold
    exact hm.producer hp
  results := (h.results_takeOut id n).trans hm.results

theorem removeDead (hm : MovedFrom g source target h) (hh : h.WellFormed) (candidates : List NodeId) :
    MovedFrom g source target (h.removeDead candidates).1 := by
  have hboth := removeDead_induct (P := fun k => k.WellFormed ∧ MovedFrom g source target k) (fun k id n hk hn hun =>
    ⟨wellFormed_takeOut hk.1 hn hun, hk.2.takeOut hk.1 hn⟩) candidates ⟨hh, hm⟩
  exact hboth.2

section

variable (hm : MovedFrom g source target h) (hg : g.TypeConsistent) (hh : h.TypeConsistent) (hfit : h.OrdersFit)
  (htype : ∃ t t', g.type? source = some t ∧ g.type? target = some t' ∧ t.relaxes t' = true)
  (hvalue : ∀ d, g.knownValue? source = some d → (h.value? target).isSome = true → h.knownValue? target = some d)

include hm hg hh hfit htype hvalue

/-- **If at least as much is known of the target as of the source, so it is of every value.** -/
theorem knowsMore {v : ValueId} (hv : (h.value? v).isSome = true) : g.KnowsMore v h v := by
  obtain ⟨val, hval⟩ := Option.isSome_iff_exists.1 hv
  -- by induction along the dependencies of the later graph, where the inputs are those that are read last
  induction hid : val.producer using hh.wellFormed.acyclic.wellFounded.induction generalizing v val with
  | _ id ih =>
    subst hid
    obtain ⟨n', hn', -⟩ := hh.wellFormed.produced hval
    obtain ⟨n, hn, hop, hout, hins⟩ := hm.node hn'
    have hproducer : g.producer? v = some n := by
      rw [producer?, hm.producer (producerId?_eq_some hval), Option.bind_some, hn]
    have hproducer' : h.producer? v = some n' := by rw [producer?_eq hval, hn']
    refine knowsMore_output hg hh hfit hproducer hproducer' hop hout ?_
    have hall : ∀ w ∈ n'.inputs, g.KnowsMore w h w := by
      intro w hw
      have hlive := hh.wellFormed.input_live hn' hw
      obtain ⟨wal, hwal⟩ := Option.isSome_iff_exists.1 hlive
      exact ih wal.producer (dependsOn_iff.2 ⟨n', w, wal, hn', hw, hwal, rfl⟩) hlive wal hwal rfl
    refine (List.Forall₂.imp ?_ ((List.forall₂_and_left _ _).2 ⟨hall, hins.flip⟩)).flip
    rintro w u ⟨hw, rfl | ⟨rfl, rfl⟩⟩
    · exact hw
    · exact hw.of_target htype hvalue

/-- What is known of the results, position by position. -/
theorem knowsMore_results : List.Forall₂ (fun v w => g.KnowsMore v h w) g.results h.results := by
  have hall : ∀ v ∈ g.results, g.KnowsMore v h (swap source target v) := by
    intro v hv
    have hlive := hh.wellFormed.result_live (swap source target v) (hm.results ▸ List.mem_map_of_mem hv)
    have hmore := hm.knowsMore hg hh hfit htype hvalue hlive
    rcases swap_cases source target v with hs | ⟨rfl, hs⟩
    · rwa [hs] at hmore ⊢
    · rw [hs] at hmore ⊢
      exact hmore.of_target htype hvalue
  rw [hm.results]
  exact List.forall₂_map_right_iff.2 (List.forall₂_same.2 hall)

end

end MovedFrom

end Graph

namespace Rule

variable {rule : Rule} {g : Graph} {rootId : ValueId}

theorem Spliced.movedFrom {m : Match} {root : Value} {new : ValueId} {grown updated : Graph}
    (h : rule.Spliced g rootId m root new grown updated) (hg : g.WellFormed) (candidates : List NodeId) :
    MovedFrom grown rootId new (updated.removeDead candidates).1 :=
  ((movedFrom_redirect (h.grown_wellFormed hg) h.ne.symm _).retyped h.retyped).removeDead (h.updated_wellFormed hg) _

end Rule

namespace Graph

variable {g : Graph}

/-- **An application that keeps what is known of the root weakens no type.**  A value that is there before and after
has the type that it had, or a more specific one, and so has each result; provided that the replacement is known to
have the value that the root was known to have, and that no order of unknown value belies the rank. -/
theorem relaxes_of_applyAt (hg : g.TypeConsistent) {rule : Rule} {root new : ValueId} {final : Graph}
    (h : rule.applyAt g root = (.applied new, final))
    (hvalue : ∀ d, g.knownValue? root = some d → (final.value? new).isSome = true → final.knownValue? new = some d)
    (horders : final.OrdersFit) :
    (∀ v t t', g.type? v = some t → final.type? v = some t' → t.relaxes t' = true) ∧
    List.Forall₂ (fun v w => ∃ t t', g.type? v = some t ∧ final.type? w = some t' ∧ t.relaxes t' = true)
      g.results final.results := by
  have hw := hg.wellFormed
  obtain ⟨m, val, grown, updated, hs, rfl⟩ := Rule.applyAt_eq_applied_iff.1 h
  have hext : Extends g grown := hs.grown_of.extends hw
  have hgrown := hs.grown_of.typeConsistent hg
  have hfinal := typeConsistent_removeDead (hs.typeConsistent hg) (val.producer :: grown.nodesFrom g.nodeSlots)
  have hmoved := hs.movedFrom hw (val.producer :: grown.nodesFrom g.nodeSlots)
  generalize (updated.removeDead (val.producer :: grown.nodesFrom g.nodeSlots)).1 = final at *
  have htype : ∃ t t', grown.type? root = some t ∧ grown.type? new = some t' ∧ t.relaxes t' = true := by
    obtain ⟨⟨t, ht, -, hrel⟩, -⟩ := replacementFault?_eq_none hs.no_fault
    refine ⟨val.type, t, hext.type? ?_, ht, hrel⟩
    rw [type?, hs.root_live, Option.map_some]
  rw [← hext.knownValue? hw (by rw [hs.root_live]; rfl)] at hvalue
  refine ⟨fun v t t' ht ht' => ?_, ?_⟩
  · have hlive : (final.value? v).isSome = true := by
      obtain ⟨val', hval', -⟩ := Option.map_eq_some_iff.1 ht'
      rw [hval']
      rfl
    obtain ⟨u, u', hu, hu', hrel⟩ := (hmoved.knowsMore hgrown hfinal horders htype hvalue hlive).type
    obtain rfl := Option.some.inj ((hext.type? ht).symm.trans hu)
    obtain rfl := Option.some.inj (ht'.symm.trans hu')
    exact hrel
  · have hmore := hmoved.knowsMore_results hgrown hfinal horders htype hvalue
    rw [hext.results] at hmore
    refine ((List.forall₂_and_left _ _).2 ⟨hw.result_live, hmore⟩).imp (fun v w hboth => ?_)
    obtain ⟨hv, hvw⟩ := hboth
    obtain ⟨val', hval'⟩ := Option.isSome_iff_exists.1 hv
    have ht : g.type? v = some val'.type := by rw [type?, hval', Option.map_some]
    obtain ⟨u, u', hu, hu', hrel⟩ := hvw.type
    obtain rfl := Option.some.inj ((hext.type? ht).symm.trans hu)
    exact ⟨_, u', ht, hu', hrel⟩

/-- A reshaping to the shape of an input, and a transposition by an order that is not known. -/
def measured : Graph :=
  [Edit.addParameter none ⟨.f32, .ofSizes [2, 3]⟩, .addValue none (.shapeOf .i64) [⟨0⟩],
    .addParameter none ⟨.i64, .ofSizes [2]⟩, .addParameter none ⟨.f32, .ofSizes [6]⟩,
    .addValue none (.reshape [] false) [⟨3⟩, ⟨1⟩], .addValue none (.transpose none) [⟨4⟩, ⟨2⟩],
    .setResults [⟨5⟩, ⟨4⟩]].foldl Edit.apply (.empty .full)

theorem typeConsistent_measured : measured.TypeConsistent := by
  refine typeConsistent_edits _ (fun e he id op => ?_) (typeConsistent_empty .full)
  rintro rfl
  simp at he

/-- Replace what is known by a constant. -/
def foldKnown : Rule where
  name := "FoldKnown"
  pattern := ⟨#[.any], ⟨0⟩⟩
  replacement m := do
    let g ← Rule.currentGraph
    match g.knownValue? m.root with
    | some d => Construction.orInvalid (Construction.addValue none (.constant ⟨d, [d.size]⟩) [])
    | none => throw .declined

/-- Replace any value by this one. -/
def substitute (v : ValueId) : Rule := ⟨"Substitute", ⟨#[.any], ⟨0⟩⟩, fun _ => return v⟩

/-- The shape becomes a constant, and its readers keep their types. -/
theorem relaxes_of_applyAt_foldKnown : measured.TypeConsistent ∧ ∃ final,
    foldKnown.applyAt measured ⟨1⟩ = (.applied ⟨6⟩, final) ∧ measured.knownValue? ⟨1⟩ = some (.i64 [2, 3]) ∧
    final.knownValue? ⟨6⟩ = some (.i64 [2, 3]) ∧ final.OrdersFit ∧
    (∀ v t t', measured.type? v = some t → final.type? v = some t' → t.relaxes t' = true) := by
  have houtcome : (foldKnown.applyAt measured ⟨1⟩).1 = .applied ⟨6⟩ := by decide +kernel
  have happly : foldKnown.applyAt measured ⟨1⟩ = (.applied ⟨6⟩, (foldKnown.applyAt measured ⟨1⟩).2) :=
    Prod.ext houtcome rfl
  have hbefore : measured.knownValue? ⟨1⟩ = some (.i64 [2, 3]) := by decide +kernel
  have hafter : (foldKnown.applyAt measured ⟨1⟩).2.knownValue? ⟨6⟩ = some (.i64 [2, 3]) := by decide +kernel
  have horders : (foldKnown.applyAt measured ⟨1⟩).2.OrdersFit := by decide +kernel
  have hkept := relaxes_of_applyAt typeConsistent_measured happly
    (fun d hd _ => hafter.trans (hbefore.symm.trans hd)) horders
  exact ⟨typeConsistent_measured, _, happly, hbefore, hafter, horders, hkept.1⟩

/-- **A replacement of the same type, but of unknown value, takes the shape from a reshaping**: the driver compares
the types of the root and the replacement only. -/
theorem not_relaxes_of_applyAt_substitute : measured.TypeConsistent ∧ ∃ final,
    (substitute ⟨2⟩).applyAt measured ⟨1⟩ = (.applied ⟨2⟩, final) ∧ final.OrdersFit ∧
    measured.type? ⟨1⟩ = measured.type? ⟨2⟩ ∧ measured.type? ⟨4⟩ = some ⟨.f32, .ofSizes [2, 3]⟩ ∧
    final.type? ⟨4⟩ = some ⟨.f32, .ofRank 2⟩ ∧
    ¬ ∀ v t t', measured.type? v = some t → final.type? v = some t' → t.relaxes t' = true := by
  have houtcome : ((substitute ⟨2⟩).applyAt measured ⟨1⟩).1 = .applied ⟨2⟩ := by decide +kernel
  have hbefore : measured.type? ⟨4⟩ = some ⟨.f32, .ofSizes [2, 3]⟩ := by decide +kernel
  have hafter : ((substitute ⟨2⟩).applyAt measured ⟨1⟩).2.type? ⟨4⟩ = some ⟨.f32, .ofRank 2⟩ := by decide +kernel
  refine ⟨typeConsistent_measured, _, Prod.ext houtcome rfl, by decide +kernel, by decide +kernel, hbefore, hafter,
    fun hkept => ?_⟩
  exact absurd (hkept _ _ _ hbefore hafter) (by decide)

end Graph
end TensorGraph
