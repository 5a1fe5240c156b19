import TensorGraph.Proofs.Pattern.Answered
import TensorGraph.Proofs.Pattern.Found
/-!
# Derivation — when a pattern holds of a value

`Derives` says, without a word about how it is found out, that a pattern node holds of a value
under given bindings of labels.  A derivation also lists the labels and the producers that occur
in it.

What the matcher finds is a derivation: each attempt adds to the bindings exactly what one of its
own contains, whatever it tried and gave up before.  Conversely an attempt fails only if there is
no derivation, provided that no derivation would bind a label again (`not_derives_of_fails`): then
the order of operands that was found first never stands in the way of what comes later.
-/
namespace TensorGraph

namespace Bindings

/-- The label is bound to the value. -/
def Binds (b : Bindings) (name : String) (v : ValueId) : Prop := b.find? name = some v

/-- The labels can be bound, each once. -/
def Free (b : Bindings) (labels : List String) : Prop := labels.Nodup ∧ ∀ name ∈ labels, b.find? name = none

/-- **The second bindings are the first, with these labels and nodes.** -/
structure Gains (b b' : Bindings) (labels : List String) (nodes : List NodeId) : Prop where
  kept : ∀ name v, b.Binds name v → b'.Binds name v
  names : ∀ name, name ∈ b'.labels.map Prod.fst ↔ name ∈ b.labels.map Prod.fst ∨ name ∈ labels
  nodes : b'.nodes = b.nodes ++ nodes
  nodup : (b.labels.map Prod.fst).Nodup → (b'.labels.map Prod.fst).Nodup

theorem find?_eq_none {b : Bindings} {name : String} : b.find? name = none ↔ name ∉ b.labels.map Prod.fst := by
  rw [find?, Option.map_eq_none_iff, List.find?_eq_none, List.mem_map]
  constructor
  · rintro h ⟨entry, hentry, rfl⟩
    exact h entry hentry (decide_eq_true rfl)
  · exact fun h entry hentry hname => h ⟨entry, hentry, of_decide_eq_true hname⟩

namespace Gains

variable {b b' b'' : Bindings} {labels labels' : List String} {nodes nodes' : List NodeId}

theorem refl (b : Bindings) : Gains b b [] [] := ⟨fun _ _ h => h, by simp, by simp, fun h => h⟩

theorem trans (h : Gains b b' labels nodes) (h' : Gains b' b'' labels' nodes') :
    Gains b b'' (labels ++ labels') (nodes ++ nodes') where
  kept name v hv := h'.kept name v (h.kept name v hv)
  names name := by rw [h'.names, h.names, List.mem_append, or_assoc]
  nodes := by rw [h'.nodes, h.nodes, List.append_assoc]
  nodup hb := h'.nodup (h.nodup hb)

theorem addNode (b : Bindings) (id : NodeId) : Gains b (b.addNode id) [] [id] :=
  ⟨fun _ _ h => h, by simp [Bindings.addNode], rfl, fun h => h⟩

/-- A label that was bound, or was bound to the value before. -/
theorem bind? {name : String} {v : ValueId} (h : b.bind? name v = some b') : Gains b b' [name] [] ∧ b'.Binds name v := by
  unfold Bindings.bind? at h
  split at h
  · rename_i bound hbound
    split at h
    · rename_i hv
      obtain rfl := Option.some.inj h
      have hmem : name ∈ b.labels.map Prod.fst := by
        by_contra hmem
        rw [find?_eq_none.2 hmem] at hbound
        cases hbound
      refine ⟨⟨fun _ _ h => h, fun other => ?_, (List.append_nil _).symm, fun h => h⟩, hv ▸ hbound⟩
      rw [List.mem_singleton]
      exact ⟨Or.inl, fun h => h.elim id (fun e => e ▸ hmem)⟩
    · cases h
  · rename_i hfree
    obtain rfl := Option.some.inj h
    have hnew : ({ b with labels := b.labels ++ [(name, v)] } : Bindings).Binds name v := by
      unfold Binds Bindings.find? at *
      simp only [Option.map_eq_none_iff] at hfree
      simp [List.find?_append, hfree]
    refine ⟨⟨fun other x hx => ?_, by simp, (List.append_nil _).symm, fun hb => ?_⟩, hnew⟩
    · unfold Binds Bindings.find? at *
      obtain ⟨entry, hentry, rfl⟩ := Option.map_eq_some_iff.1 hx
      simp [List.find?_append, hentry]
    · rw [List.map_append, List.nodup_append]
      refine ⟨hb, by simp, fun a ha c hc => ?_⟩
      obtain rfl : c = name := by simpa using hc
      exact fun he => find?_eq_none.1 hfree (he ▸ ha)

theorem binds_or (h : Gains b b' labels nodes) {name : String} {v : ValueId} (hv : b'.Binds name v) :
    b.Binds name v ∨ name ∈ labels := by
  have hmem : name ∈ b'.labels.map Prod.fst := by
    by_contra hmem
    rw [Binds, find?_eq_none.2 hmem] at hv
    cases hv
  refine ((h.names name).1 hmem).imp_left (fun hold => ?_)
  cases hx : b.find? name with
  | none => exact absurd hold (find?_eq_none.1 hx)
  | some x => exact hx.trans ((h.kept name x hx).symm.trans hv)

/-- What could be bound after the gains still can be. -/
theorem free (h : Gains b b' labels nodes) (hfree : b.Free (labels ++ labels')) : b'.Free labels' := by
  obtain ⟨hnodup, hnone⟩ := hfree
  obtain ⟨-, hnodup', hdisjoint⟩ := List.nodup_append.1 hnodup
  refine ⟨hnodup', fun name hname => find?_eq_none.2 (fun hmem => ?_)⟩
  rcases (h.names name).1 hmem with hold | hnew
  · exact find?_eq_none.1 (hnone name (List.mem_append_right _ hname)) hold
  · exact hdisjoint name hnew name hname rfl

end Gains

theorem Free.left {b : Bindings} {labels labels' : List String} (h : b.Free (labels ++ labels')) : b.Free labels :=
  ⟨(List.nodup_append.1 h.1).1, fun name hname => h.2 name (List.mem_append_left _ hname)⟩

end Bindings

namespace Pattern

mutual

/-- **The pattern node holds of the value**, where `B` says which value a label may stand for.  The
derivation contains these labels and these producers, the ones of operands before their operation. -/
inductive Derives (p : Pattern) (g : Graph) (B : String → ValueId → Prop) :
    PatternId → ValueId → List String → List NodeId → Prop
  | any {id : PatternId} {v : ValueId} : p.node? id = some .any → (g.value? v).isSome = true → Derives p g B id v [] []
  | op {id : PatternId} {v : ValueId} {types : List OpType} {patterns : List PatternId} {openEnded : Bool}
      {producer : NodeId} {n : Node} {labels : List String} {nodes : List NodeId} :
      p.node? id = some (.op types patterns openEnded) → g.producerId? v = some producer → g.node? producer = some n →
      n.op.type ∈ types → countFits openEnded patterns.length n.inputs.length = true →
      DerivesAll p g B patterns n.inputs labels nodes → Derives p g B id v labels (nodes ++ [producer])
  /-- The first two inputs of a commutative operation may be swapped. -/
  | swapped {id : PatternId} {v : ValueId} {types : List OpType} {q r : PatternId} {openEnded : Bool}
      {producer : NodeId} {n : Node} {labels : List String} {nodes : List NodeId} :
      p.node? id = some (.op types [q, r] openEnded) → g.producerId? v = some producer → g.node? producer = some n →
      n.op.type ∈ types → countFits openEnded 2 n.inputs.length = true → g.registry.isCommutative n.op.type = true →
      DerivesAll p g B [r, q] n.inputs labels nodes → Derives p g B id v labels (nodes ++ [producer])
  | label {id inner : PatternId} {v : ValueId} {name : String} {labels : List String} {nodes : List NodeId} :
      p.node? id = some (.label name inner) → Derives p g B inner v labels nodes → B name v →
      Derives p g B id v (labels ++ [name]) nodes
  | either {id q : PatternId} {v : ValueId} {alternatives : List PatternId} {labels : List String}
      {nodes : List NodeId} : p.node? id = some (.either alternatives) → q ∈ alternatives →
      Derives p g B q v labels nodes → Derives p g B id v labels nodes
  | branch {id q : PatternId} {v : ValueId} {labels : List String} {nodes : List NodeId} :
      p.node? id = some (.branch (some q)) → Derives p g B q v labels nodes → Derives p g B id v labels nodes
  | guard {id inner : PatternId} {v : ValueId} {predicate : Predicate} {labels : List String} {nodes : List NodeId} :
      p.node? id = some (.guard inner predicate) → predicate.holds g v = true → Derives p g B inner v labels nodes →
      Derives p g B id v labels nodes

/-- The pattern nodes hold of the values in turn; there may be more values. -/
inductive DerivesAll (p : Pattern) (g : Graph) (B : String → ValueId → Prop) :
    List PatternId → List ValueId → List String → List NodeId → Prop
  | done {xs : List ValueId} : DerivesAll p g B [] xs [] []
  | next {q : PatternId} {qs : List PatternId} {x : ValueId} {xs : List ValueId} {labels labels' : List String}
      {nodes nodes' : List NodeId} : Derives p g B q x labels nodes → DerivesAll p g B qs xs labels' nodes' →
      DerivesAll p g B (q :: qs) (x :: xs) (labels ++ labels') (nodes ++ nodes')

end

/-- Labels may stand for anything, for several values at once too. -/
def Unchecked (_ : String) (_ : ValueId) : Prop := True

variable {p : Pattern} {g : Graph} {B B' : String → ValueId → Prop} {id : PatternId} {v : ValueId} {labels : List String}
  {nodes : List NodeId}

mutual

theorem Derives.mono (hB : ∀ name x, B name x → B' name x) {id : PatternId} {v : ValueId} {labels : List String}
    {nodes : List NodeId} : Derives p g B id v labels nodes → Derives p g B' id v labels nodes
  | .any hid hlive => .any hid hlive
  | .op hid hproducer hn htype hcount hall => .op hid hproducer hn htype hcount (hall.mono hB)
  | .swapped hid hproducer hn htype hcount hcomm hall => .swapped hid hproducer hn htype hcount hcomm (hall.mono hB)
  | .label hid hinner hbound => .label hid (hinner.mono hB) (hB _ _ hbound)
  | .either hid hq h => .either hid hq (h.mono hB)
  | .branch hid h => .branch hid (h.mono hB)
  | .guard hid hholds h => .guard hid hholds (h.mono hB)

theorem DerivesAll.mono (hB : ∀ name x, B name x → B' name x) {qs : List PatternId} {xs : List ValueId}
    {labels : List String} {nodes : List NodeId} :
    DerivesAll p g B qs xs labels nodes → DerivesAll p g B' qs xs labels nodes
  | .done => .done
  | .next h hall => .next (h.mono hB) (hall.mono hB)

end

theorem Derives.unchecked (h : p.Derives g B id v labels nodes) : p.Derives g Unchecked id v labels nodes :=
  h.mono (fun _ _ _ => trivial)

/-- A pattern holds only of values that are there. -/
theorem Derives.live {id : PatternId} {v : ValueId} {labels : List String} {nodes : List NodeId} :
    Derives p g B id v labels nodes → (g.value? v).isSome = true
  | .any _ hlive => hlive
  | .op _ hproducer _ _ _ _ => by
    obtain ⟨val, hval, -⟩ := Option.map_eq_some_iff.1 hproducer
    rw [hval]; rfl
  | .swapped _ hproducer _ _ _ _ _ => by
    obtain ⟨val, hval, -⟩ := Option.map_eq_some_iff.1 hproducer
    rw [hval]; rfl
  | .label _ h _ => h.live
  | .either _ _ h => h.live
  | .branch _ h => h.live
  | .guard _ _ h => h.live

mutual

/-- The labels that occur stand for values that are there. -/
theorem Derives.label_live {id : PatternId} {v : ValueId} {labels : List String} {nodes : List NodeId} {name : String} :
    Derives p g B id v labels nodes → name ∈ labels → ∃ x, B name x ∧ (g.value? x).isSome = true
  | .any _ _, hname => by cases hname
  | .op _ _ _ _ _ hall, hname => hall.label_live hname
  | .swapped _ _ _ _ _ _ hall, hname => hall.label_live hname
  | .label _ h hbound, hname => by
    rcases List.mem_append.1 hname with hname | hname
    · exact h.label_live hname
    · obtain rfl := List.mem_singleton.1 hname
      exact ⟨_, hbound, h.live⟩
  | .either _ _ h, hname => h.label_live hname
  | .branch _ h, hname => h.label_live hname
  | .guard _ _ h, hname => h.label_live hname

theorem DerivesAll.label_live {qs : List PatternId} {xs : List ValueId} {labels : List String} {nodes : List NodeId}
    {name : String} : DerivesAll p g B qs xs labels nodes → name ∈ labels → ∃ x, B name x ∧ (g.value? x).isSome = true
  | .done, hname => by cases hname
  | .next h hall, hname => (List.mem_append.1 hname).elim h.label_live hall.label_live

end

/-! ## What was found is a derivation -/

/-- The attempt found a derivation under the bindings it ends with. -/
def Sound (p : Pattern) (g : Graph) (step : PatternId → ValueId → Bindings → Attempt) : Prop :=
  ∀ q x b b', step q x b = .found b' → ∃ labels nodes, p.Derives g b'.Binds q x labels nodes ∧ b.Gains b' labels nodes

theorem Sound.all {step : PatternId → ValueId → Bindings → Attempt} (hstep : p.Sound g step) :
    ∀ {qs : List PatternId} {xs : List ValueId} {b b' : Bindings}, qs.length ≤ xs.length →
      Attempt.all step qs xs b = .found b' →
      ∃ labels nodes, p.DerivesAll g b'.Binds qs xs labels nodes ∧ b.Gains b' labels nodes
  | [], _, b, _, _, h => by
    obtain rfl := Attempt.found.inj h
    exact ⟨[], [], .done, .refl b⟩
  | _ :: _, [], _, _, hlen, _ => absurd hlen (Nat.not_succ_le_zero _)
  | q :: qs, x :: xs, b, b', hlen, h => by
    obtain ⟨b₁, hfirst, hrest⟩ := Attempt.andThen_eq_found.1 h
    obtain ⟨labels, nodes, hq, hgains⟩ := hstep q x b b₁ hfirst
    obtain ⟨labels', nodes', hqs, hgains'⟩ := hstep.all (Nat.le_of_succ_le_succ hlen) hrest
    exact ⟨_, _, .next (hq.mono hgains'.kept) hqs, hgains.trans hgains'⟩

theorem le_of_countFits {openEnded : Bool} {k n : Nat} (h : countFits openEnded k n = true) : k ≤ n := by
  cases openEnded <;> simp [countFits] at h <;> omega

/-- **What an attempt finds is a derivation**, and what it adds to the bindings is what occurs in it. -/
theorem sound_attempt (p : Pattern) (g : Graph) (fuel : Nat) : p.Sound g (p.attempt g fuel) := by
  induction fuel using Nat.strong_induction_on with
  | _ fuel ih =>
    intro id v b b' h
    cases hid : p.node? id with
    | none =>
      cases fuel with
      | zero => cases h
      | succ fuel =>
        simp only [attempt, hid] at h
        cases h
    | some node =>
      cases node with
      | any =>
        obtain ⟨hlive, rfl⟩ := attempt_any hid h
        exact ⟨[], [], .any hid hlive, .refl b'⟩
      | op types patterns openEnded =>
        obtain ⟨fuel', hlt, producer, n, b₁, hproducer, hn, htype, hcount, hinputs, rfl⟩ := attempt_op hid h
        have hlen := le_of_countFits hcount
        rcases matchInputs_eq_found hinputs with hall | ⟨q, r, rfl, hcomm, hall⟩
        · obtain ⟨labels, nodes, hderives, hgains⟩ := (ih fuel' hlt).all hlen hall
          exact ⟨labels, nodes ++ [producer], .op hid hproducer hn htype hcount hderives,
            List.append_nil labels ▸ hgains.trans (.addNode b₁ producer)⟩
        · have hlen' : [r, q].length ≤ n.inputs.length := hlen
          obtain ⟨labels, nodes, hderives, hgains⟩ := (ih fuel' hlt).all hlen' hall
          exact ⟨labels, nodes ++ [producer], .swapped hid hproducer hn htype hcount hcomm hderives,
            List.append_nil labels ▸ hgains.trans (.addNode b₁ producer)⟩
      | label name inner =>
        obtain ⟨fuel', hlt, b₁, hinner, hbind⟩ := attempt_label hid h
        obtain ⟨labels, nodes, hderives, hgains⟩ := ih fuel' hlt inner v b b₁ hinner
        obtain ⟨hgains', hbinds⟩ := Bindings.Gains.bind? hbind
        exact ⟨labels ++ [name], nodes, .label hid (hderives.mono hgains'.kept) hbinds,
          List.append_nil nodes ▸ hgains.trans hgains'⟩
      | either alternatives =>
        obtain ⟨q, hq, fuel', hlt, h⟩ := attempt_either hid h
        obtain ⟨labels, nodes, hderives, hgains⟩ := ih fuel' hlt q v b b' h
        exact ⟨labels, nodes, .either hid hq hderives, hgains⟩
      | branch destination =>
        obtain ⟨q, rfl, fuel', hlt, h⟩ := attempt_branch hid h
        obtain ⟨labels, nodes, hderives, hgains⟩ := ih fuel' hlt q v b b' h
        exact ⟨labels, nodes, .branch hid hderives, hgains⟩
      | guard inner predicate =>
        obtain ⟨hholds, fuel', hlt, h⟩ := attempt_guard hid h
        obtain ⟨labels, nodes, hderives, hgains⟩ := ih fuel' hlt inner v b b' h
        exact ⟨labels, nodes, .guard hid hholds hderives, hgains⟩

/-! ## What fails has no derivation -/

/-- If the attempt fails, there is no derivation, or one that binds a label again. -/
def Complete (p : Pattern) (g : Graph) (step : PatternId → ValueId → Bindings → Attempt) : Prop :=
  ∀ q x b, step q x b = .fails → (∀ labels nodes, p.Derives g Unchecked q x labels nodes → b.Free labels) →
    ∀ labels nodes, ¬ p.Derives g Unchecked q x labels nodes

theorem Complete.all {step : PatternId → ValueId → Bindings → Attempt} (hstep : p.Complete g step)
    (hsound : p.Sound g step) : ∀ {qs : List PatternId} {xs : List ValueId} {b : Bindings},
      Attempt.all step qs xs b = .fails →
      (∀ labels nodes, p.DerivesAll g Unchecked qs xs labels nodes → b.Free labels) →
      ∀ labels nodes, ¬ p.DerivesAll g Unchecked qs xs labels nodes
  | [], _, _, h, _, _, _, _ => by cases h
  | _ :: _, [], _, h, _, _, _, _ => by cases h
  | q :: qs, x :: xs, b, h, hfree, _, _, .next hq hqs => by
    rcases Attempt.andThen_eq_fails.1 h with hfails | ⟨b₁, hfound, hfails⟩
    · exact hstep q x b hfails (fun _ _ h => (hfree _ _ (.next h hqs)).left) _ _ hq
    · -- whatever derives the rest goes with the derivation that was found for the first
      obtain ⟨labels₁, nodes₁, hq₁, hgains⟩ := hsound q x b b₁ hfound
      exact hstep.all hsound hfails (fun _ _ h => hgains.free (hfree _ _ (.next hq₁.unchecked h))) _ _ hqs

theorem matchInputs_eq_fails {type : OpType} {step : PatternId → ValueId → Bindings → Attempt}
    {patterns : List PatternId} {inputs : List ValueId} {b : Bindings}
    (h : matchInputs g type step patterns inputs b = .fails) : Attempt.all step patterns inputs b = .fails ∧
      ∀ q r, patterns = [q, r] → g.registry.isCommutative type = true → Attempt.all step [r, q] inputs b = .fails := by
  unfold matchInputs at h
  simp only at h
  split at h
  · rename_i q r
    split at h
    · obtain ⟨hdeclared, hswapped⟩ := Attempt.orElse_eq_fails.1 h
      refine ⟨hdeclared, fun q' r' he _ => ?_⟩
      obtain ⟨rfl, rfl⟩ : q = q' ∧ r = r' := by simpa using he
      exact hswapped
    · rename_i hcomm
      exact ⟨h, fun _ _ _ h => absurd h hcomm⟩
  · rename_i hpair
    exact ⟨h, fun q r he _ => absurd he (hpair q r)⟩

/-- **An attempt fails only if there is no derivation**, or one that binds a label again. -/
theorem complete_attempt (p : Pattern) (g : Graph) : ∀ fuel, p.Complete g (p.attempt g fuel)
  | 0, _, _, _, h, _, _, _, _ => by cases h
  | fuel + 1, id, v, b, h, hfree, labels, nodes, hderives => by
    have ih : p.Complete g (p.attempt g fuel) := complete_attempt p g fuel
    have hall : ∀ {qs : List PatternId} {xs : List ValueId}, Attempt.all (p.attempt g fuel) qs xs b = .fails →
        (∀ labels nodes, p.DerivesAll g Unchecked qs xs labels nodes → b.Free labels) →
        ∀ labels nodes, ¬ p.DerivesAll g Unchecked qs xs labels nodes := ih.all (sound_attempt p g fuel)
    cases hderives with
    | any hid hlive =>
      simp only [attempt, hid, hlive, if_true] at h
      cases h
    | op hid hproducer hn htype hcount hinputs =>
      simp only [attempt, hid, hproducer, hn, List.contains_iff_mem.2 htype, hcount, Bool.and_self, if_true] at h
      obtain hfails := (Attempt.andThen_eq_fails.1 h).resolve_right (by rintro ⟨_, _, h⟩; cases h)
      exact hall (matchInputs_eq_fails hfails).1
        (fun _ _ h => hfree _ _ (.op hid hproducer hn htype hcount h)) _ _ hinputs
    | swapped hid hproducer hn htype hcount hcomm hinputs =>
      simp only [attempt, hid, hproducer, hn, List.contains_iff_mem.2 htype, List.length_cons, List.length_nil,
        hcount, Bool.and_self, if_true] at h
      obtain hfails := (Attempt.andThen_eq_fails.1 h).resolve_right (by rintro ⟨_, _, h⟩; cases h)
      exact hall ((matchInputs_eq_fails hfails).2 _ _ rfl hcomm)
        (fun _ _ h => hfree _ _ (.swapped hid hproducer hn htype hcount hcomm h)) _ _ hinputs
    | @label _ inner _ name labels _ hid hinner _ =>
      simp only [attempt, hid] at h
      rcases Attempt.andThen_eq_fails.1 h with hfails | ⟨b₁, hfound, hfails⟩
      · exact ih inner v b hfails (fun _ _ h => (hfree _ _ (.label hid h trivial)).left) _ _ hinner
      · obtain ⟨labels₁, nodes₁, hinner₁, hgains⟩ := sound_attempt p g fuel inner v b b₁ hfound
        have hname := (hgains.free (hfree _ _ (.label hid hinner₁.unchecked trivial))).2 name List.mem_cons_self
        rw [Bindings.bind?_of_find?_eq_none hname] at hfails
        cases hfails
    | either hid hq hderives =>
      simp only [attempt, hid] at h
      exact ih _ v b (Attempt.first_eq_fails h _ hq) (fun _ _ h => hfree _ _ (.either hid hq h)) _ _ hderives
    | branch hid hderives =>
      simp only [attempt, hid] at h
      exact ih _ v b h (fun _ _ h => hfree _ _ (.branch hid h)) _ _ hderives
    | guard hid hholds hderives =>
      simp only [attempt, hid, hholds, if_true] at h
      exact ih _ v b h (fun _ _ h => hfree _ _ (.guard hid hholds h)) _ _ hderives

end Pattern
end TensorGraph
