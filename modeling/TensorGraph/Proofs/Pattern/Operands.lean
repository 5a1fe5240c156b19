import TensorGraph.Proofs.Pattern.Adequate
/-!
# Operands — which order of the operands a match stands by

The inputs of a commutative operation are tried in the declared order, then swapped, and the first
order that succeeds is final.  So a derivation can be missed: the order that succeeds first may bind
a label to a value that the rest of the pattern refuses (`unmatched_doubled`).

Nothing is missed where the matcher has no choice.  `Forced` are the derivations in which, whenever
an order or an alternative is passed over, it has no derivation that agrees with the labels bound so
far.  Neither is anything missed where no derivation binds a label twice.
-/
namespace TensorGraph
namespace Pattern

open TensorGraph.Graph

/-- The pattern nodes have no derivation under bindings that agree on the labels. -/
def Excluded (p : Pattern) (g : Graph) (B : String → Option ValueId) (bound : List String) (qs : List PatternId)
    (xs : List ValueId) : Prop :=
  ∀ B' : String → Option ValueId, (∀ name ∈ bound, B' name = B name) →
    ∀ labels nodes, ¬ p.DerivesAll g (fun name x => B' name = some x) qs xs labels nodes

mutual

/-- **The pattern node holds of the value, and no earlier choice was possible.**  The two lists are the
labels that are bound before and after. -/
inductive Forced (p : Pattern) (g : Graph) (B : String → Option ValueId) :
    PatternId → ValueId → List String → List String → Prop
  | any {id : PatternId} {v : ValueId} {bound : List String} : p.node? id = some .any → (g.value? v).isSome = true →
      Forced p g B id v bound bound
  | op {id : PatternId} {v : ValueId} {types : List OpType} {patterns : List PatternId} {openEnded : Bool}
      {producer : NodeId} {n : Node} {bound bound' : List String} :
      p.node? id = some (.op types patterns openEnded) → g.producerId? v = some producer → g.node? producer = some n →
      n.op.type ∈ types → countFits openEnded patterns.length n.inputs.length = true →
      ForcedAll p g B patterns n.inputs bound bound' → Forced p g B id v bound bound'
  | swapped {id : PatternId} {v : ValueId} {types : List OpType} {q r : PatternId} {openEnded : Bool}
      {producer : NodeId} {n : Node} {bound bound' : List String} :
      p.node? id = some (.op types [q, r] openEnded) → g.producerId? v = some producer → g.node? producer = some n →
      n.op.type ∈ types → countFits openEnded 2 n.inputs.length = true → g.registry.isCommutative n.op.type = true →
      p.Excluded g B bound [q, r] n.inputs → ForcedAll p g B [r, q] n.inputs bound bound' →
      Forced p g B id v bound bound'
  | label {id inner : PatternId} {v : ValueId} {name : String} {bound bound' : List String} :
      p.node? id = some (.label name inner) → Forced p g B inner v bound bound' → B name = some v →
      Forced p g B id v bound (bound' ++ [name])
  | either {id q : PatternId} {v : ValueId} {before after : List PatternId} {bound bound' : List String} :
      p.node? id = some (.either (before ++ q :: after)) → (∀ r ∈ before, p.Excluded g B bound [r] [v]) →
      Forced p g B q v bound bound' → Forced p g B id v bound bound'
  | branch {id q : PatternId} {v : ValueId} {bound bound' : List String} :
      p.node? id = some (.branch (some q)) → Forced p g B q v bound bound' → Forced p g B id v bound bound'
  | guard {id inner : PatternId} {v : ValueId} {predicate : Predicate} {bound bound' : List String} :
      p.node? id = some (.guard inner predicate) → predicate.holds g v = true → Forced p g B inner v bound bound' →
      Forced p g B id v bound bound'

/-- The pattern nodes hold of the values in turn, and no earlier choice was possible. -/
inductive ForcedAll (p : Pattern) (g : Graph) (B : String → Option ValueId) :
    List PatternId → List ValueId → List String → List String → Prop
  | done {xs : List ValueId} {bound : List String} : ForcedAll p g B [] xs bound bound
  | next {q : PatternId} {qs : List PatternId} {x : ValueId} {xs : List ValueId} {bound bound' bound'' : List String} :
      Forced p g B q x bound bound' → ForcedAll p g B qs xs bound' bound'' →
      ForcedAll p g B (q :: qs) (x :: xs) bound bound''

end

variable {p : Pattern} {g : Graph} {B : String → Option ValueId} {bound bound' : List String} {b : Bindings}

mutual

/-- What is forced is a derivation. -/
theorem Forced.derives {id : PatternId} {v : ValueId} {bound bound' : List String} : Forced p g B id v bound bound' →
    ∃ labels nodes, p.Derives g (fun name x => B name = some x) id v labels nodes
  | .any hid hlive => ⟨_, _, .any hid hlive⟩
  | .op hid hproducer hn htype hcount hall =>
    let ⟨_, _, hall⟩ := hall.derives
    ⟨_, _, .op hid hproducer hn htype hcount hall⟩
  | .swapped hid hproducer hn htype hcount hcomm _ hall =>
    let ⟨_, _, hall⟩ := hall.derives
    ⟨_, _, .swapped hid hproducer hn htype hcount hcomm hall⟩
  | .label hid h hv =>
    let ⟨_, _, h⟩ := h.derives
    ⟨_, _, .label hid h hv⟩
  | .either hid _ h =>
    let ⟨_, _, h⟩ := h.derives
    ⟨_, _, .either hid (List.mem_append_right _ List.mem_cons_self) h⟩
  | .branch hid h =>
    let ⟨_, _, h⟩ := h.derives
    ⟨_, _, .branch hid h⟩
  | .guard hid hholds h =>
    let ⟨_, _, h⟩ := h.derives
    ⟨_, _, .guard hid hholds h⟩

theorem ForcedAll.derives {qs : List PatternId} {xs : List ValueId} {bound bound' : List String} :
    ForcedAll p g B qs xs bound bound' → ∃ labels nodes, p.DerivesAll g (fun name x => B name = some x) qs xs labels nodes
  | .done => ⟨_, _, .done⟩
  | .next h hall =>
    let ⟨_, _, h⟩ := h.derives
    let ⟨_, _, hall⟩ := hall.derives
    ⟨_, _, .next h hall⟩

end

/-! ## What is forced is found -/

/-- These labels are bound, as `B` says. -/
structure Agrees (B : String → Option ValueId) (bound : List String) (b : Bindings) : Prop where
  isBound : ∀ name ∈ bound, ∃ x, b.Binds name x
  agrees : ∀ name x, b.Binds name x → name ∈ bound ∧ B name = some x

/-- The attempt ran out of fuel or found bindings as `B` says. -/
def Reaches (B : String → Option ValueId) (bound : List String) (a : Attempt) : Prop :=
  a = .cut ∨ ∃ b, a = .found b ∧ Agrees B bound b

namespace Reaches

theorem andThen {a : Attempt} {next : Bindings → Attempt} (h : Reaches B bound a)
    (hnext : ∀ b, Agrees B bound b → Reaches B bound' (next b)) : Reaches B bound' (a.andThen next) := by
  rcases h with rfl | ⟨b, rfl, hb⟩
  · exact Or.inl rfl
  · exact hnext b hb

theorem orElse {a : Attempt} (h : Reaches B bound a) (next : Unit → Attempt) : Reaches B bound (a.orElse next) := by
  rcases h with rfl | ⟨b, rfl, hb⟩
  · exact Or.inl rfl
  · exact Or.inr ⟨b, rfl, hb⟩

/-- What was tried first came to nothing. -/
theorem orElse_of_not_found {a : Attempt} {next : Unit → Attempt} (ha : ∀ b, a ≠ .found b)
    (h : Reaches B bound (next ())) : Reaches B bound (a.orElse next) := by
  cases a with
  | found b => exact absurd rfl (ha b)
  | fails => exact h
  | cut => exact Or.inl rfl

theorem first {step : PatternId → Bindings → Attempt} {q : PatternId} {after : List PatternId}
    (h : Reaches B bound (step q b)) : ∀ {before : List PatternId}, (∀ r ∈ before, ∀ b', step r b ≠ .found b') →
      Reaches B bound (Attempt.first step (before ++ q :: after) b)
  | [], _ => h.orElse _
  | r :: _, hr => orElse_of_not_found (hr r List.mem_cons_self)
      (h.first (fun s hs => hr s (List.mem_cons_of_mem r hs)))

end Reaches

theorem Agrees.bind? (h : Agrees B bound b) {name : String} {v : ValueId} (hv : B name = some v) :
    Reaches B (bound ++ [name]) (.ofOption (b.bind? name v)) := by
  cases hbind : b.bind? name v with
  | none =>
    -- a label that is bound is bound as `B` says
    unfold Bindings.bind? at hbind
    split at hbind
    · rename_i x hx
      obtain rfl := Option.some.inj ((h.agrees name x hx).2.symm.trans hv)
      simp at hbind
    · cases hbind
  | some b' =>
    obtain ⟨hgains, hbinds⟩ := Bindings.Gains.bind? hbind
    refine Or.inr ⟨b', rfl, fun other hother => ?_, fun other x hx => ?_⟩
    · rcases List.mem_append.1 hother with hother | hother
      · obtain ⟨x, hx⟩ := h.isBound other hother
        exact ⟨x, hgains.kept other x hx⟩
      · exact ⟨v, List.mem_singleton.1 hother ▸ hbinds⟩
    · rcases hgains.binds_or hx with hold | hnew
      · exact ⟨List.mem_append_left _ (h.agrees other x hold).1, (h.agrees other x hold).2⟩
      · obtain rfl := List.mem_singleton.1 hnew
        obtain rfl : v = x := Option.some.inj (hbinds.symm.trans hx)
        exact ⟨List.mem_append_right _ hnew, hv⟩

/-- What is excluded is not found. -/
theorem Excluded.not_found {step : PatternId → ValueId → Bindings → Attempt} {qs : List PatternId} {xs : List ValueId}
    (h : p.Excluded g B bound qs xs) (hb : Agrees B bound b) (hstep : p.Sound g step) (hlen : qs.length ≤ xs.length)
    (b' : Bindings) : Attempt.all step qs xs b ≠ .found b' := by
  intro hfound
  obtain ⟨labels, nodes, hderives, hgains⟩ := hstep.all hlen hfound
  refine h b'.find? (fun name hname => ?_) labels nodes hderives
  obtain ⟨x, hx⟩ := hb.isBound name hname
  exact (hgains.kept name x hx).trans (hb.agrees name x hx).2.symm

theorem reaches_matchInputs {type : OpType} {step : PatternId → ValueId → Bindings → Attempt} {patterns : List PatternId}
    {inputs : List ValueId} (h : Reaches B bound (Attempt.all step patterns inputs b)) :
    Reaches B bound (matchInputs g type step patterns inputs b) := by
  unfold matchInputs
  simp only
  split
  · split
    · exact h.orElse _
    · exact h
  · exact h

mutual

theorem Forced.reaches {id : PatternId} {v : ValueId} {bound bound' : List String} :
    Forced p g B id v bound bound' → ∀ (fuel : Nat) (b : Bindings), Agrees B bound b →
      Reaches B bound' (p.attempt g fuel id v b)
  | _, 0, _, _ => Or.inl rfl
  | .any hid hlive, fuel + 1, b, hb => by
    simp only [attempt, hid, hlive, if_true]
    exact Or.inr ⟨b, rfl, hb⟩
  | .op hid hproducer hn htype hcount hall, fuel + 1, b, hb => by
    simp only [attempt, hid, hproducer, hn, List.contains_iff_mem.2 htype, hcount, Bool.and_self, if_true]
    exact (reaches_matchInputs (hall.reaches fuel b hb)).andThen (fun b hb => Or.inr ⟨_, rfl, hb.isBound, hb.agrees⟩)
  | .swapped hid hproducer hn htype hcount hcomm hexcluded hall, fuel + 1, b, hb => by
    have hdeclared := hexcluded.not_found hb (p.sound_attempt g fuel) (le_of_countFits hcount)
    simp only [attempt, hid, hproducer, hn, List.contains_iff_mem.2 htype, List.length_cons, List.length_nil, hcount,
      Bool.and_self, if_true, matchInputs, hcomm]
    exact (Reaches.orElse_of_not_found hdeclared (hall.reaches fuel b hb)).andThen
      (fun b hb => Or.inr ⟨_, rfl, hb.isBound, hb.agrees⟩)
  | .label hid h hv, fuel + 1, b, hb => by
    simp only [attempt, hid]
    exact (h.reaches fuel b hb).andThen (fun b hb => hb.bind? hv)
  | .either hid hexcluded h, fuel + 1, b, hb => by
    simp only [attempt, hid]
    refine (h.reaches fuel b hb).first (fun r hr b' hfound => ?_)
    refine (hexcluded r hr).not_found hb (p.sound_attempt g fuel) (Nat.le_refl 1) b' ?_
    rw [Attempt.all, hfound]
    rfl
  | .branch hid h, fuel + 1, b, hb => by
    simp only [attempt, hid]
    exact h.reaches fuel b hb
  | .guard hid hholds h, fuel + 1, b, hb => by
    simp only [attempt, hid, hholds, if_true]
    exact h.reaches fuel b hb

theorem ForcedAll.reaches {qs : List PatternId} {xs : List ValueId} {bound bound' : List String} :
    ForcedAll p g B qs xs bound bound' → ∀ (fuel : Nat) (b : Bindings), Agrees B bound b →
      Reaches B bound' (Attempt.all (p.attempt g fuel) qs xs b)
  | .done, _, b, hb => Or.inr ⟨b, rfl, hb⟩
  | .next h hall, fuel, b, hb => (h.reaches fuel b hb).andThen (hall.reaches fuel)

end

/-- **A derivation leads to a match if it is forced, or if no derivation binds a label twice.** -/
theorem matchValue?_isSome_of_forced_or_bindsOnce {b : PatternBuilder} {root : PatternId} (hp : b.build root = .ok p)
    (hg : g.WellFormed) (v : ValueId) :
    (∀ B bound, p.Forced g B p.root v [] bound → (p.matchValue? g v).isSome = true) ∧
    (p.BindsOnce g v → ((p.matchValue? g v).isSome = true ↔
      ∃ (B : String → Option ValueId) (labels : List String) (nodes : List NodeId),
        p.Derives g (fun name x => B name = some x) p.root v labels nodes)) := by
  obtain ⟨height, hground⟩ := PatternBuilder.grounded_of_build hp
  refine ⟨fun B bound h => ?_, fun honce => ⟨fun hsome => ?_, fun ⟨_, _, _, h⟩ => ?_⟩⟩
  · have hempty : Agrees B [] .empty := ⟨fun _ h => absurd h List.not_mem_nil, fun _ _ h => by cases h⟩
    obtain ⟨b, hb, -⟩ := (h.reaches (p.matchBound g) .empty hempty).resolve_left (attempt_matchBound_ne_cut hground hg v _)
    unfold matchValue?
    rw [hb]
    rfl
  · obtain ⟨m, hm⟩ := Option.isSome_iff_exists.1 hsome
    obtain ⟨-, -, -, labels, nodes, hderives, -⟩ := derives_of_matchValue? hm
    exact ⟨m.get?, labels, nodes, hderives⟩
  · exact isSome_of_derives hground hg honce h

/-- A vector is added to a negation and subtracted again. -/
def cancelled : Graph :=
  [Edit.addParameter none ⟨.f32, .ranked [.fixed 3]⟩, .addParameter none ⟨.f32, .ranked [.fixed 3]⟩,
    .addValue none (.unary .negative) [⟨1⟩], .addValue none (.binary .add .exact) [⟨0⟩, ⟨2⟩],
    .addValue none (.binary .subtract .exact) [⟨3⟩, ⟨0⟩], .setResults [⟨4⟩]].foldl Edit.apply (.empty .full)

/-- The sum of `first` and `b`, less `b`; `first` may be the label `a` or a negation of it. -/
def cancelledBuilder (first : PatternId) : PatternBuilder :=
  ⟨#[.any, .label "a" ⟨0⟩, .label "b" ⟨0⟩, .op [.unary .negative] [⟨1⟩] false, .op [.binary .add] [first, ⟨2⟩] false,
    .op [.binary .subtract] [⟨4⟩, ⟨2⟩] false]⟩

def cancelledPattern (first : PatternId) : Pattern := ⟨(cancelledBuilder first).nodes, ⟨5⟩⟩

/-- `b` stands for the vector. -/
def cancelledLabels (a : ValueId) (name : String) : Option ValueId := if name = "a" then some a else some ⟨0⟩

theorem build_cancelledBuilder : (cancelledBuilder ⟨3⟩).build ⟨5⟩ = .ok (cancelledPattern ⟨3⟩) ∧
    (cancelledBuilder ⟨1⟩).build ⟨5⟩ = .ok (cancelledPattern ⟨1⟩) :=
  ⟨PatternBuilder.build_eq_ok.2 ⟨rfl, by decide +kernel, by decide +kernel⟩,
    PatternBuilder.build_eq_ok.2 ⟨rfl, by decide +kernel, by decide +kernel⟩⟩

theorem wellFormed_cancelled : cancelled.WellFormed := wellFormed_edits _ (wellFormed_empty _)

theorem lookups_cancelled : cancelled.node? ⟨2⟩ = some ⟨none, .unary .negative, [⟨1⟩], [⟨2⟩]⟩ ∧
    cancelled.node? ⟨3⟩ = some ⟨none, .binary .add .exact, [⟨0⟩, ⟨2⟩], [⟨3⟩]⟩ ∧
    cancelled.node? ⟨4⟩ = some ⟨none, .binary .subtract .exact, [⟨3⟩, ⟨0⟩], [⟨4⟩]⟩ ∧
    cancelled.producerId? ⟨2⟩ = some ⟨2⟩ ∧ cancelled.producerId? ⟨3⟩ = some ⟨3⟩ ∧ cancelled.producerId? ⟨4⟩ = some ⟨4⟩ ∧
    (∀ v ∈ [⟨0⟩, ⟨1⟩, ⟨2⟩], (cancelled.value? v).isSome = true) ∧
    cancelled.registry.isCommutative (.binary .add) = true := by decide +kernel

/-- The vector is no negation, so the operands of the sum have to be swapped. -/
theorem forced_cancelled :
    (cancelledPattern ⟨3⟩).Forced cancelled (cancelledLabels ⟨1⟩) ⟨5⟩ ⟨4⟩ [] ["b", "a", "b"] := by
  obtain ⟨hnegative, hadd, hsubtract, hp2, hp3, hp4, hlive, hcomm⟩ := lookups_cancelled
  have hexcluded : (cancelledPattern ⟨3⟩).Excluded cancelled (cancelledLabels ⟨1⟩) [] [⟨3⟩, ⟨2⟩] [⟨0⟩, ⟨2⟩] := by
    rintro B' - labels nodes (_ | ⟨hnegation, -⟩)
    have hparameter : (cancelled.producer? ⟨0⟩).map (·.op.type) = some .parameter := by decide +kernel
    cases hnegation with
    | op hid hproducer hn htype =>
      cases hid
      simp only [Graph.producer?, hproducer, Option.bind_some, hn, Option.map_some, Option.some.injEq] at hparameter
      simp [hparameter] at htype
    | swapped hid | any hid | label hid | either hid | branch hid | guard hid => cases hid
  have hvector : ∀ bound, (cancelledPattern ⟨3⟩).Forced cancelled (cancelledLabels ⟨1⟩) ⟨2⟩ ⟨0⟩ bound (bound ++ ["b"]) :=
    fun _ => .label rfl (.any rfl (hlive ⟨0⟩ (by decide))) rfl
  have hnegation : (cancelledPattern ⟨3⟩).Forced cancelled (cancelledLabels ⟨1⟩) ⟨3⟩ ⟨2⟩ ["b"] ["b", "a"] :=
    .op rfl hp2 hnegative (by decide) rfl (.next (.label rfl (.any rfl (hlive ⟨1⟩ (by decide))) rfl) .done)
  have hsum : (cancelledPattern ⟨3⟩).Forced cancelled (cancelledLabels ⟨1⟩) ⟨4⟩ ⟨3⟩ [] ["b", "a"] :=
    .swapped rfl hp3 hadd (by decide) rfl hcomm hexcluded (.next (hvector []) (.next hnegation .done))
  exact .op rfl hp4 hsubtract (by decide) rfl (.next hsum (.next (hvector _) .done))

/-- The swapped operands are found where the declared order is impossible, and where there are no labels at all. -/
theorem matchValue?_isSome_cancelled : cancelled.WellFormed ∧
    (cancelledPattern ⟨3⟩).Forced cancelled (cancelledLabels ⟨1⟩) ⟨5⟩ ⟨4⟩ [] ["b", "a", "b"] ∧
    ((cancelledPattern ⟨3⟩).matchValue? cancelled ⟨4⟩).isSome = true ∧ shifted.WellFormed ∧
    (shiftedPattern ⟨0⟩).BindsOnce shifted ⟨3⟩ ∧ ∃ (B : String → Option ValueId) (labels : List String)
      (nodes : List NodeId), (shiftedPattern ⟨0⟩).Derives shifted (fun name x => B name = some x) ⟨4⟩ ⟨3⟩ labels nodes := by
  have hshifted : shifted.WellFormed := wellFormed_edits _ (wellFormed_empty _)
  have honce := unlabelled_shifted.bindsOnce shifted ⟨3⟩
  refine ⟨wellFormed_cancelled, forced_cancelled, ?_, hshifted, honce, ?_⟩
  · exact (matchValue?_isSome_of_forced_or_bindsOnce build_cancelledBuilder.1 wellFormed_cancelled ⟨4⟩).1 _ _
      forced_cancelled
  · exact ((matchValue?_isSome_of_forced_or_bindsOnce build_shiftedBuilder.2 hshifted ⟨3⟩).2 honce).1
      (by decide +kernel)

/-- **The operands of the sum are found as they are declared, and then the label is bound to the wrong one.** -/
theorem unmatched_cancelled : (cancelledBuilder ⟨1⟩).build ⟨5⟩ = .ok (cancelledPattern ⟨1⟩) ∧
    (∀ id alternatives, (cancelledPattern ⟨1⟩).node? id ≠ some (.either alternatives)) ∧ cancelled.WellFormed ∧
    (∃ (B : String → Option ValueId) (labels : List String) (nodes : List NodeId),
      (cancelledPattern ⟨1⟩).Derives cancelled (fun name x => B name = some x) ⟨5⟩ ⟨4⟩ labels nodes) ∧
    (cancelledPattern ⟨1⟩).matchValue? cancelled ⟨4⟩ = none := by
  obtain ⟨-, hadd, hsubtract, -, hp3, hp4, hlive, hcomm⟩ := lookups_cancelled
  refine ⟨build_cancelledBuilder.2, fun id alternatives hid => ?_, wellFormed_cancelled, ?_, by decide +kernel⟩
  · match id with
    | ⟨0⟩ | ⟨1⟩ | ⟨2⟩ | ⟨3⟩ | ⟨4⟩ | ⟨5⟩ => cases hid
    | ⟨i + 6⟩ => cases hid
  · have hvector : (cancelledPattern ⟨1⟩).Derives cancelled (fun name x => cancelledLabels ⟨2⟩ name = some x) ⟨2⟩ ⟨0⟩
        ["b"] [] := .label rfl (.any rfl (hlive ⟨0⟩ (by decide))) rfl
    have hnegation : (cancelledPattern ⟨1⟩).Derives cancelled (fun name x => cancelledLabels ⟨2⟩ name = some x) ⟨1⟩ ⟨2⟩
        ["a"] [] := .label rfl (.any rfl (hlive ⟨2⟩ (by decide))) rfl
    exact ⟨cancelledLabels ⟨2⟩, _, _, .op rfl hp4 hsubtract (by decide) rfl
      (.next (.swapped rfl hp3 hadd (by decide) rfl hcomm (.next hvector (.next hnegation .done))) (.next hvector .done))⟩

end Pattern
end TensorGraph
