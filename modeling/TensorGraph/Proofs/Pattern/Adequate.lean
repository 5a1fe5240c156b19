import TensorGraph.Proofs.Pattern.Derivation
import TensorGraph.Proofs.Rewrite.Edit
/-!
# Adequate — a match is a derivation, and without labels a derivation is a match

A match of a built pattern comes from a derivation in which exactly its labels and its nodes occur.
The other way round a match is found wherever there is a derivation, if none of them binds a label
twice; in particular if the pattern has no labels.
-/
namespace TensorGraph

theorem nodup_eraseDups {α : Type} [BEq α] [LawfulBEq α] : ∀ l : List α, l.eraseDups.Nodup
  | [] => List.nodup_nil
  | a :: l => by
    rw [List.eraseDups_cons]
    refine List.nodup_cons.2 ⟨fun ha => ?_, nodup_eraseDups _⟩
    simp at ha
termination_by l => l.length
decreasing_by exact Nat.lt_succ_of_le (List.length_filter_le _ l)

namespace Pattern

open TensorGraph.Graph

variable {p : Pattern} {g : Graph} {B : String → ValueId → Prop} {v : ValueId}

/-- No derivation of the root binds a label twice. -/
def BindsOnce (p : Pattern) (g : Graph) (v : ValueId) : Prop :=
  ∀ labels nodes, p.Derives g Unchecked p.root v labels nodes → labels.Nodup

/-- The root refers to no label. -/
def Unlabelled (p : Pattern) : Prop := ∀ id name inner, p.Reachable id → p.node? id ≠ some (.label name inner)

mutual

theorem Derives.labels_eq_nil (hp : p.Unlabelled) {id : PatternId} {v : ValueId} {labels : List String}
    {nodes : List NodeId} (hid : p.Reachable id) : Derives p g B id v labels nodes → labels = []
  | .any _ _ => rfl
  | .op hnode _ _ _ _ hall => hall.labels_eq_nil hp (fun _ hq => hid.child hnode hq)
  | .swapped hnode _ _ _ _ _ hall =>
    hall.labels_eq_nil hp (fun _ hq => hid.child hnode ((List.Perm.swap _ _ []).mem_iff.1 hq))
  | .label hnode _ _ => absurd hnode (hp _ _ _ hid)
  | .either hnode hq h => h.labels_eq_nil hp (hid.child hnode hq)
  | .branch hnode h => h.labels_eq_nil hp (hid.child hnode List.mem_cons_self)
  | .guard hnode _ h => h.labels_eq_nil hp (hid.child hnode List.mem_cons_self)

theorem DerivesAll.labels_eq_nil (hp : p.Unlabelled) {qs : List PatternId} {xs : List ValueId} {labels : List String}
    {nodes : List NodeId} (hqs : ∀ q ∈ qs, p.Reachable q) : DerivesAll p g B qs xs labels nodes → labels = []
  | .done => rfl
  | .next h hall => by
    rw [h.labels_eq_nil hp (hqs _ List.mem_cons_self),
      hall.labels_eq_nil hp (fun q hq => hqs q (List.mem_cons_of_mem _ hq)), List.append_nil]

end

theorem Unlabelled.bindsOnce (hp : p.Unlabelled) (g : Graph) (v : ValueId) : p.BindsOnce g v := fun labels nodes h => by
  rw [h.labels_eq_nil hp .refl]
  exact List.nodup_nil

/-- **Where no derivation binds a label twice, a derivation leads to a match.** -/
theorem isSome_of_derives {height : PatternId → Nat} (hp : p.Grounded height) (hg : g.WellFormed)
    (honce : p.BindsOnce g v) {labels : List String} {nodes : List NodeId}
    (h : p.Derives g B p.root v labels nodes) : (p.matchValue? g v).isSome = true := by
  unfold matchValue?
  cases hattempt : p.attempt g (p.matchBound g) p.root v .empty with
  | found b => rfl
  | fails =>
    exact absurd h.unchecked (p.complete_attempt g _ p.root v .empty hattempt
      (fun labels nodes h => ⟨honce labels nodes h, fun _ _ => rfl⟩) labels nodes)
  | cut => exact absurd hattempt (attempt_matchBound_ne_cut hp hg v .empty)

/-- **A match is a derivation under its own labels**, each of them bound once, with exactly its labels and nodes. -/
theorem derives_of_matchValue? {m : Match} (h : p.matchValue? g v = some m) :
    m.root = v ∧ (m.labels.map Prod.fst).Nodup ∧ m.nodes.Nodup ∧ ∃ labels nodes,
      p.Derives g (fun name x => m.get? name = some x) p.root v labels nodes ∧
      (∀ name, name ∈ m.labels.map Prod.fst ↔ name ∈ labels) ∧ ∀ id, id ∈ m.nodes ↔ id ∈ nodes := by
  obtain ⟨b, hb, rfl⟩ := matchValue?_eq_some h
  obtain ⟨labels, nodes, hderives, hgains⟩ := p.sound_attempt g _ p.root v .empty b hb
  refine ⟨rfl, hgains.nodup List.nodup_nil, nodup_eraseDups _, labels, nodes, hderives, fun name => ?_, fun id => ?_⟩
  · rw [hgains.names]
    simp [Bindings.empty]
  · rw [List.mem_eraseDups, hgains.nodes]
    simp [Bindings.empty]

/-- The labels of a match stand for values that are there. -/
theorem live_of_get? {m : Match} (h : p.matchValue? g v = some m) {name : String} {x : ValueId}
    (hx : m.get? name = some x) : (g.value? x).isSome = true := by
  obtain ⟨-, -, -, labels, nodes, hderives, hlabels, -⟩ := derives_of_matchValue? h
  obtain ⟨entry, hentry, -⟩ := Option.map_eq_some_iff.1 hx
  have hname : name ∈ m.labels.map Prod.fst :=
    List.mem_map.2 ⟨entry, List.mem_of_find?_eq_some hentry, by simpa using List.find?_some hentry⟩
  obtain ⟨y, hy, hlive⟩ := hderives.label_live ((hlabels name).1 hname)
  rwa [Option.some.inj (hx.symm.trans hy)]

/-- **The matcher is sound, and complete where there are no labels.** -/
theorem matchValue?_adequate {b : PatternBuilder} {root : PatternId} (hp : b.build root = .ok p) (hg : g.WellFormed)
    (v : ValueId) :
    (∀ m, p.matchValue? g v = some m → (g.value? v).isSome = true ∧ m.root = v ∧ (m.labels.map Prod.fst).Nodup ∧
      m.nodes.Nodup ∧ ∃ labels nodes, p.Derives g (fun name x => m.get? name = some x) p.root v labels nodes ∧
        (∀ name, name ∈ m.labels.map Prod.fst ↔ name ∈ labels) ∧ ∀ id, id ∈ m.nodes ↔ id ∈ nodes) ∧
    (p.Unlabelled → ((p.matchValue? g v).isSome = true ↔ ∃ B labels nodes, p.Derives g B p.root v labels nodes)) := by
  obtain ⟨height, hground⟩ := PatternBuilder.grounded_of_build hp
  refine ⟨fun m hm => ?_, fun hun => ⟨fun hsome => ?_, fun ⟨_, _, _, h⟩ => ?_⟩⟩
  · obtain ⟨hroot, hlabels, hnodes, labels, nodes, hderives, hrest⟩ := derives_of_matchValue? hm
    exact ⟨hderives.live, hroot, hlabels, hnodes, labels, nodes, hderives, hrest⟩
  · obtain ⟨m, hm⟩ := Option.isSome_iff_exists.1 hsome
    obtain ⟨-, -, -, labels, nodes, hderives, -⟩ := derives_of_matchValue? hm
    exact ⟨_, labels, nodes, hderives⟩
  · exact isSome_of_derives hground hg (hun.bindsOnce g v) h

/-- The sum of a negation and a vector. -/
def shifted : Graph :=
  [Edit.addParameter none ⟨.f32, .ranked [.fixed 3]⟩, .addParameter none ⟨.f32, .ranked [.fixed 3]⟩,
    .addValue none (.unary .negative) [⟨0⟩], .addValue none (.binary .add .exact) [⟨2⟩, ⟨1⟩],
    .setResults [⟨3⟩]].foldl Edit.apply (.empty .full)

/-- A sum of an absolute value, or else of anything, and of the negation of what `operand` stands for. -/
def shiftedBuilder (operand : PatternId) : PatternBuilder :=
  ⟨#[.any, .op [.unary .abs] [⟨0⟩] false, .either [⟨1⟩, ⟨0⟩], .op [.unary .negative] [operand] false,
    .op [.binary .add] [⟨2⟩, ⟨3⟩] false, .label "x" ⟨0⟩]⟩

def shiftedPattern (operand : PatternId) : Pattern := ⟨(shiftedBuilder operand).nodes, ⟨4⟩⟩

theorem build_shiftedBuilder : (shiftedBuilder ⟨5⟩).build ⟨4⟩ = .ok (shiftedPattern ⟨5⟩) ∧
    (shiftedBuilder ⟨0⟩).build ⟨4⟩ = .ok (shiftedPattern ⟨0⟩) :=
  ⟨PatternBuilder.build_eq_ok.2 ⟨rfl, by decide +kernel, by decide +kernel⟩,
    PatternBuilder.build_eq_ok.2 ⟨rfl, by decide +kernel, by decide +kernel⟩⟩

theorem unlabelled_shifted : (shiftedPattern ⟨0⟩).Unlabelled := by
  -- the root refers to none but the first five nodes
  have hlt : ∀ id, (shiftedPattern ⟨0⟩).Reachable id → id.index < 5 := fun id hid => by
    induction hid with
    | refl => decide
    | @tail a b _ hab ih =>
      obtain ⟨node, hnode, hb⟩ := hab
      match a, ih with
      | ⟨0⟩, _ | ⟨1⟩, _ | ⟨2⟩, _ | ⟨3⟩, _ | ⟨4⟩, _ =>
        obtain rfl := Option.some.inj hnode
        revert b
        decide
  intro id name inner hid hnode
  match id, hlt id hid with
  | ⟨0⟩, _ | ⟨1⟩, _ | ⟨2⟩, _ | ⟨3⟩, _ | ⟨4⟩, _ => cases hnode

/-- The declared order finds no negation in the vector, so the operands are swapped, and the absolute value that was
tried for the vector leaves nothing behind; without the label there is a match as well. -/
theorem matchValue?_adequate_shifted : shifted.WellFormed ∧
    (shiftedPattern ⟨5⟩).matchValue? shifted ⟨3⟩ = some ⟨⟨3⟩, [("x", ⟨0⟩)], [⟨2⟩, ⟨3⟩]⟩ ∧
    (∃ labels nodes, (shiftedPattern ⟨5⟩).Derives shifted
      (fun name x => Match.get? ⟨⟨3⟩, [("x", ⟨0⟩)], [⟨2⟩, ⟨3⟩]⟩ name = some x) ⟨4⟩ ⟨3⟩ labels nodes ∧
      (∀ name, name ∈ ["x"] ↔ name ∈ labels) ∧ ∀ id, id ∈ [⟨2⟩, ⟨3⟩] ↔ id ∈ nodes) ∧
    (shiftedPattern ⟨0⟩).Unlabelled ∧ ∃ B labels nodes, (shiftedPattern ⟨0⟩).Derives shifted B ⟨4⟩ ⟨3⟩ labels nodes := by
  have hg : shifted.WellFormed := wellFormed_edits _ (wellFormed_empty _)
  have hm : (shiftedPattern ⟨5⟩).matchValue? shifted ⟨3⟩ = some ⟨⟨3⟩, [("x", ⟨0⟩)], [⟨2⟩, ⟨3⟩]⟩ := by decide +kernel
  have hm' : ((shiftedPattern ⟨0⟩).matchValue? shifted ⟨3⟩).isSome = true := by decide +kernel
  obtain ⟨-, -, -, -, hderives⟩ := (matchValue?_adequate build_shiftedBuilder.1 hg ⟨3⟩).1 _ hm
  exact ⟨hg, hm, hderives, unlabelled_shifted,
    ((matchValue?_adequate build_shiftedBuilder.2 hg ⟨3⟩).2 unlabelled_shifted).1 hm'⟩

end Pattern
end TensorGraph
