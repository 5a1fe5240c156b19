import TensorGraph.Proofs.Graph.Order
import TensorGraph.Proofs.Pattern.Built
/-!
# Answered — the fuel of a match suffices

In a well-formed graph every input of a node is an output of a node of lower rank, and along the
other edges of a pattern that was built the height falls.  So `level` of a value and height of a
pattern node together bound the chain of attempts, and `matchBound` is above all such bounds.

An attempt that ended is what every attempt with more fuel comes to, and depends on the graph
only through what is looked up in it (`attempt_refines`).
-/
namespace TensorGraph

namespace Attempt

variable {a a' : Attempt} {next next' : Bindings → Attempt} {step step' : PatternId → ValueId → Bindings → Attempt}

theorem andThen_ne_cut (ha : a ≠ .cut) (hnext : ∀ b, next b ≠ .cut) : a.andThen next ≠ .cut := by
  cases a with
  | found b => exact hnext b
  | fails => exact ha
  | cut => exact absurd rfl ha

theorem orElse_ne_cut {next : Unit → Attempt} (ha : a ≠ .cut) (hnext : next () ≠ .cut) : a.orElse next ≠ .cut := by
  cases a with
  | found b => exact ha
  | fails => exact hnext
  | cut => exact absurd rfl ha

theorem all_ne_cut : ∀ {ps : List PatternId} {vs : List ValueId},
    (∀ q ∈ ps, ∀ x ∈ vs, ∀ b, step q x b ≠ .cut) → ∀ b, all step ps vs b ≠ .cut
  | [], _, _, _ => by simp [all]
  | _ :: _, [], _, _ => by simp [all]
  | q :: ps, x :: vs, h, b => by
    rw [all]
    refine andThen_ne_cut (h q List.mem_cons_self x List.mem_cons_self b) (all_ne_cut (fun r hr y hy => ?_))
    exact h r (List.mem_cons_of_mem q hr) y (List.mem_cons_of_mem x hy)

theorem first_ne_cut {step : PatternId → Bindings → Attempt} : ∀ {ps : List PatternId},
    (∀ q ∈ ps, ∀ b, step q b ≠ .cut) → ∀ b, first step ps b ≠ .cut
  | [], _, _ => by simp [first]
  | q :: ps, h, b => by
    rw [first]
    exact orElse_ne_cut (h q List.mem_cons_self b) (first_ne_cut (fun r hr => h r (List.mem_cons_of_mem q hr)) b)

/-- The first attempt ran out of fuel, or both came to the same. -/
def Refines (a a' : Attempt) : Prop := a = .cut ∨ a = a'

namespace Refines

theorem refl (a : Attempt) : a.Refines a := Or.inr rfl

theorem eq (h : a.Refines a') (ha : a ≠ .cut) : a' = a := (h.resolve_left ha).symm

theorem andThen (h : a.Refines a') (hnext : ∀ b, (next b).Refines (next' b)) :
    (a.andThen next).Refines (a'.andThen next') := by
  rcases h with rfl | rfl
  · exact Or.inl rfl
  · cases a with
    | found b => exact hnext b
    | _ => exact Refines.refl _

theorem orElse {next next' : Unit → Attempt} (h : a.Refines a') (hnext : (next ()).Refines (next' ())) :
    (a.orElse next).Refines (a'.orElse next') := by
  rcases h with rfl | rfl
  · exact Or.inl rfl
  · cases a with
    | fails => exact hnext
    | _ => exact Refines.refl _

theorem all (h : ∀ q x b, (step q x b).Refines (step' q x b)) : ∀ (ps : List PatternId) (vs : List ValueId) (b : Bindings),
    (all step ps vs b).Refines (Attempt.all step' ps vs b)
  | [], _, _ => Refines.refl _
  | _ :: _, [], _ => Refines.refl _
  | q :: ps, x :: vs, b => (h q x b).andThen (Refines.all h ps vs)

theorem first {step step' : PatternId → Bindings → Attempt} (h : ∀ q b, (step q b).Refines (step' q b)) :
    ∀ (ps : List PatternId) (b : Bindings), (first step ps b).Refines (Attempt.first step' ps b)
  | [], _ => Refines.refl _
  | q :: ps, b => (h q b).orElse (Refines.first h ps b)

end Refines
end Attempt

namespace Graph

/-- How far values are from the nodes without inputs. -/
def level (g : Graph) (v : ValueId) : Nat :=
  match g.producerId? v with
  | some id => g.rank id + 1
  | none => 0

theorem level_le {g : Graph} (hg : g.WellFormed) (v : ValueId) : g.level v ≤ g.nodeSlots := by
  unfold level
  cases hv : g.value? v with
  | none =>
    rw [producerId?, hv]
    exact Nat.zero_le _
  | some val =>
    obtain ⟨n, hn, -⟩ := hg.produced hv
    rw [producerId?_eq_some hv]
    exact rank_lt_nodeSlots hg hn

/-- **The inputs of a node are below its outputs.** -/
theorem level_lt {g : Graph} (hg : g.WellFormed) {v x : ValueId} {producer : NodeId} {n : Node}
    (hproducer : g.producerId? v = some producer) (hn : g.node? producer = some n) (hx : x ∈ n.inputs) :
    g.level x < g.level v := by
  obtain ⟨val, hval, hrank⟩ := exists_rank_lt_of_mem_inputs hg hn hx
  unfold level
  rw [hproducer, producerId?_eq_some hval]
  simpa using hrank

end Graph

namespace Pattern

variable {p : Pattern} {g : Graph}

theorem matchInputs_ne_cut {type : OpType} {step : PatternId → ValueId → Bindings → Attempt} {patterns : List PatternId}
    {inputs : List ValueId} (h : ∀ q ∈ patterns, ∀ x ∈ inputs, ∀ b, step q x b ≠ .cut) (b : Bindings) :
    matchInputs g type step patterns inputs b ≠ .cut := by
  unfold matchInputs
  simp only
  split
  · rename_i q r
    split
    · refine Attempt.orElse_ne_cut (Attempt.all_ne_cut h b) (Attempt.all_ne_cut (fun s hs => h s ?_) b)
      exact (List.Perm.swap q r []).mem_iff.1 hs
    · exact Attempt.all_ne_cut h b
  · exact Attempt.all_ne_cut h b

/-- **An attempt with fuel above its bound ends.** -/
theorem attempt_ne_cut {height : PatternId → Nat} (hp : p.Grounded height) (hg : g.WellFormed) :
    ∀ (fuel : Nat) (id : PatternId) (v : ValueId) (b : Bindings), p.Reachable id →
      (p.nodes.size + 1) * g.level v + height id < fuel → p.attempt g fuel id v b ≠ .cut
  | 0, _, _, _, _, h => by omega
  | fuel + 1, id, v, b, hid, h => by
    obtain ⟨node, hnode⟩ := hp.present hid
    -- where the value stays the same the height pays for the step
    have hsame : ∀ q ∈ node.sameValueChildren, ∀ b, p.attempt g fuel q v b ≠ .cut := fun q hq b => by
      have hlt := hp.descends hid hnode hq
      exact attempt_ne_cut hp hg fuel q v b (hid.child hnode (mem_children_of_sameValue hq)) (by omega)
    cases node with
    | any =>
      simp only [attempt, hnode]
      split <;> exact Attempt.noConfusion
    | op types patterns openEnded =>
      simp only [attempt, hnode]
      split
      · exact Attempt.noConfusion
      rename_i producer hproducer
      split
      · exact Attempt.noConfusion
      rename_i n hn
      split
      · refine Attempt.andThen_ne_cut (matchInputs_ne_cut (fun q hq x hx b => ?_) b) (fun _ => Attempt.noConfusion)
        -- one level pays for any height
        have hq' : p.Reachable q := hid.child hnode hq
        have hheight := hp.bounded hq'
        have hlevel := Nat.mul_le_mul_left (p.nodes.size + 1) (g.level_lt hg hproducer hn hx)
        rw [Nat.mul_succ] at hlevel
        exact attempt_ne_cut hp hg fuel q x b hq' (by omega)
      · exact Attempt.noConfusion
    | label name inner =>
      simp only [attempt, hnode]
      refine Attempt.andThen_ne_cut (hsame inner List.mem_cons_self b) (fun b => ?_)
      cases b.bind? name v <;> exact Attempt.noConfusion
    | either alternatives =>
      simp only [attempt, hnode]
      exact Attempt.first_ne_cut hsame b
    | branch destination =>
      simp only [attempt, hnode]
      cases destination with
      | none => exact Attempt.noConfusion
      | some q => exact hsame q List.mem_cons_self b
    | guard inner predicate =>
      simp only [attempt, hnode]
      split
      · exact hsame inner List.mem_cons_self b
      · exact Attempt.noConfusion

theorem attempt_reachable_ne_cut {height : PatternId → Nat} (hp : p.Grounded height) (hg : g.WellFormed) {id : PatternId}
    (hid : p.Reachable id) (v : ValueId) (b : Bindings) : p.attempt g (p.matchBound g) id v b ≠ .cut := by
  refine attempt_ne_cut hp hg _ id v b hid ?_
  have hheight := hp.bounded hid
  have hlevel := Nat.mul_le_mul_left (p.nodes.size + 1) (g.level_le hg v)
  unfold matchBound
  rw [Nat.mul_succ]
  omega

/-- **A match of a pattern that was built has enough fuel.** -/
theorem attempt_matchBound_ne_cut {height : PatternId → Nat} (hp : p.Grounded height) (hg : g.WellFormed) (v : ValueId)
    (b : Bindings) : p.attempt g (p.matchBound g) p.root v b ≠ .cut := attempt_reachable_ne_cut hp hg .refl v b

/-- The graphs look the same to a pattern. -/
structure SameSight (p : Pattern) (g h : Graph) : Prop where
  registry : h.registry = g.registry
  node? : ∀ id, h.node? id = g.node? id
  value? : ∀ v, h.value? v = g.value? v
  holds : ∀ {id inner predicate}, p.node? id = some (.guard inner predicate) →
    ∀ v, predicate.holds h v = predicate.holds g v

theorem matchInputs_refines {h : Graph} {type : OpType} {step step' : PatternId → ValueId → Bindings → Attempt}
    (hregistry : h.registry = g.registry) (hstep : ∀ q x b, (step q x b).Refines (step' q x b))
    (patterns : List PatternId) (inputs : List ValueId) (b : Bindings) :
    (matchInputs g type step patterns inputs b).Refines (matchInputs h type step' patterns inputs b) := by
  unfold matchInputs
  simp only [hregistry]
  split
  · split
    · exact (Attempt.Refines.all hstep _ _ b).orElse (Attempt.Refines.all hstep _ _ b)
    · exact Attempt.Refines.all hstep _ _ b
  · exact Attempt.Refines.all hstep _ _ b

/-- **More fuel changes no answer**, nor does a graph that looks the same. -/
theorem attempt_refines {h : Graph} (hgh : p.SameSight g h) : ∀ (fuel fuel' : Nat) (id : PatternId) (v : ValueId)
    (b : Bindings), fuel ≤ fuel' → (p.attempt g fuel id v b).Refines (p.attempt h fuel' id v b)
  | 0, _, _, _, _, _ => Or.inl rfl
  | fuel + 1, fuel' + 1, id, v, b, hle => by
    have hstep : ∀ q x b, (p.attempt g fuel q x b).Refines (p.attempt h fuel' q x b) := fun q x b =>
      attempt_refines hgh fuel fuel' q x b (Nat.le_of_succ_le_succ hle)
    cases hid : p.node? id with
    | none =>
      simp only [attempt, hid]
      exact .refl _
    | some node =>
      cases node with
      | any =>
        simp only [attempt, hid, hgh.value?]
        exact .refl _
      | op types patterns openEnded =>
        simp only [attempt, hid, Graph.producerId?, hgh.value?, hgh.node?]
        split
        · exact .refl _
        split
        · exact .refl _
        split
        · exact (matchInputs_refines hgh.registry hstep _ _ b).andThen (fun _ => .refl _)
        · exact .refl _
      | label name inner =>
        simp only [attempt, hid]
        exact (hstep inner v b).andThen (fun _ => .refl _)
      | either alternatives =>
        simp only [attempt, hid]
        exact Attempt.Refines.first (fun q b => hstep q v b) alternatives b
      | branch destination =>
        simp only [attempt, hid]
        cases destination with
        | none => exact .refl _
        | some q => exact hstep q v b
      | guard inner predicate =>
        simp only [attempt, hid, hgh.holds hid]
        split
        · exact hstep inner v b
        · exact .refl _

/-- **A pattern that was built finds the same in a graph that looks the same.** -/
theorem matchValue?_congr {h : Graph} {height : PatternId → Nat} (hp : p.Grounded height) (hg : g.WellFormed)
    (hgh : p.SameSight g h) (hsize : g.nodeSlots ≤ h.nodeSlots) (v : ValueId) :
    p.matchValue? h v = p.matchValue? g v := by
  have hbound : p.matchBound g ≤ p.matchBound h := by
    unfold matchBound
    exact Nat.succ_le_succ (Nat.mul_le_mul_left _ (Nat.succ_le_succ hsize))
  unfold matchValue?
  rw [(p.attempt_refines hgh _ _ p.root v .empty hbound).eq (attempt_matchBound_ne_cut hp hg v .empty)]

end Pattern
end TensorGraph
