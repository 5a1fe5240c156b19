import TensorGraph.Proofs.Pattern.Answered
import TensorGraph.Proofs.Rewrite.Edit
/-!
# Terminates — every attempt of a match moves down

`attemptBy` is one attempt with its recursive attempts left open, and `Calls` lists those it may
make; nothing else about them enters its answer (`attemptBy_congr`).  A call stays with the value
and follows an edge that `build` has found to be on no cycle, or moves on to an input.  So the
level of the value falls, or it stays and the height of the pattern node falls.  A pattern that
refers forward and back to itself is no different: what is ordered is not its identifiers.

Where the pairs fall, the recursion has one solution without any fuel, and `matchBound` finds it.
-/
namespace TensorGraph
namespace Pattern

open Relation (ReflTransGen)

variable {p : Pattern} {g : Graph}

/-! ## One attempt and its calls -/

/-- One attempt, in which `step` answers the attempts that it makes. -/
def attemptBy (p : Pattern) (g : Graph) (step : PatternId → ValueId → Bindings → Attempt) (id : PatternId) (v : ValueId)
    (b : Bindings) : Attempt :=
  match p.node? id with
  | none => .fails
  | some .any => if (g.value? v).isSome then .found b else .fails
  | some (.op types patterns openEnded) =>
    match g.producerId? v with
    | none => .fails
    | some producer =>
      match g.node? producer with
      | none => .fails
      | some node =>
        if types.contains node.op.type && countFits openEnded patterns.length node.inputs.length then
          (matchInputs g node.op.type step patterns node.inputs b).andThen (fun b => .found (b.addNode producer))
        else .fails
  | some (.label name inner) => (step inner v b).andThen (fun b => .ofOption (b.bind? name v))
  | some (.either alternatives) => Attempt.first (fun q b => step q v b) alternatives b
  | some (.branch destination) =>
    match destination with
    | none => .fails
    | some q => step q v b
  | some (.guard inner predicate) => if predicate.holds g v then step inner v b else .fails

theorem attempt_succ (p : Pattern) (g : Graph) (fuel : Nat) :
    p.attempt g (fuel + 1) = p.attemptBy g (p.attempt g fuel) := rfl

/-- The attempts that one attempt may make, each a pattern node and a value. -/
inductive Calls (p : Pattern) (g : Graph) : PatternId × ValueId → PatternId × ValueId → Prop where
  | sameValue {id q : PatternId} {v : ValueId} {node : PatternNode} (hnode : p.node? id = some node)
    (hq : q ∈ node.sameValueChildren) : Calls p g (id, v) (q, v)
  | declared {id q : PatternId} {v x : ValueId} {types : List OpType} {patterns : List PatternId} {openEnded : Bool}
    {producer : NodeId} {n : Node} (hnode : p.node? id = some (.op types patterns openEnded))
    (hproducer : g.producerId? v = some producer) (hn : g.node? producer = some n)
    (hfits : (types.contains n.op.type && countFits openEnded patterns.length n.inputs.length) = true)
    (hqx : (q, x) ∈ patterns.zip n.inputs) : Calls p g (id, v) (q, x)
  | swapped {id q r s : PatternId} {v x : ValueId} {types : List OpType} {openEnded : Bool} {producer : NodeId} {n : Node}
    (hnode : p.node? id = some (.op types [q, r] openEnded)) (hproducer : g.producerId? v = some producer)
    (hn : g.node? producer = some n)
    (hfits : (types.contains n.op.type && countFits openEnded [q, r].length n.inputs.length) = true)
    (hcommutes : g.registry.isCommutative n.op.type = true) (hsx : (s, x) ∈ [r, q].zip n.inputs) :
    Calls p g (id, v) (s, x)

section Congr

variable {step step' : PatternId → ValueId → Bindings → Attempt}

theorem all_congr : ∀ {ps : List PatternId} {vs : List ValueId}, (∀ q x, (q, x) ∈ ps.zip vs → step q x = step' q x) →
    ∀ b, Attempt.all step ps vs b = Attempt.all step' ps vs b
  | [], _, _, _ => rfl
  | _ :: _, [], _, _ => rfl
  | q :: ps, x :: vs, h, b => by
    rw [Attempt.all, Attempt.all, h q x List.mem_cons_self]
    exact congrArg _ (funext (all_congr (fun r y hry => h r y (List.mem_cons_of_mem _ hry))))

theorem first_congr {v : ValueId} : ∀ {ps : List PatternId}, (∀ q ∈ ps, step q v = step' q v) →
    ∀ b, Attempt.first (fun q b => step q v b) ps b = Attempt.first (fun q b => step' q v b) ps b
  | [], _, _ => rfl
  | q :: ps, h, b => by
    rw [Attempt.first, Attempt.first, h q List.mem_cons_self]
    exact congrArg _ (funext (fun _ => first_congr (fun r hr => h r (List.mem_cons_of_mem _ hr)) b))

theorem matchInputs_congr {type : OpType} {patterns : List PatternId} {inputs : List ValueId}
    (hdeclared : ∀ q x, (q, x) ∈ patterns.zip inputs → step q x = step' q x)
    (hswapped : ∀ q r, patterns = [q, r] → g.registry.isCommutative type = true →
      ∀ s x, (s, x) ∈ [r, q].zip inputs → step s x = step' s x) (b : Bindings) :
    matchInputs g type step patterns inputs b = matchInputs g type step' patterns inputs b := by
  unfold matchInputs
  simp only [all_congr hdeclared b]
  split
  · rename_i q r
    split
    · rename_i hcommutes
      rw [all_congr (hswapped q r rfl hcommutes) b]
    · rfl
  · rfl

/-- **An attempt depends on no attempts but those it may make.** -/
theorem attemptBy_congr {id : PatternId} {v : ValueId} (h : ∀ q x, p.Calls g (id, v) (q, x) → step q x = step' q x)
    (b : Bindings) : p.attemptBy g step id v b = p.attemptBy g step' id v b := by
  unfold attemptBy
  split
  · rfl
  · rfl
  · rename_i types patterns openEnded hnode
    split
    · rfl
    rename_i producer hproducer
    split
    · rfl
    rename_i n hn
    split
    · rename_i hfits
      rw [matchInputs_congr (fun q x hqx => h q x (.declared hnode hproducer hn hfits hqx)) ?_ b]
      rintro q r rfl hcommutes s x hsx
      exact h s x (.swapped hnode hproducer hn hfits hcommutes hsx)
    · rfl
  · rename_i name inner hnode
    rw [h inner v (.sameValue hnode List.mem_cons_self)]
  · rename_i alternatives hnode
    exact first_congr (fun q hq => h q v (.sameValue hnode hq)) b
  · rename_i destination hnode
    cases destination with
    | none => rfl
    | some q => exact congrFun (h q v (.sameValue hnode List.mem_cons_self)) b
  · rename_i inner predicate hnode
    rw [h inner v (.sameValue hnode List.mem_cons_self)]

end Congr

/-! ## Heights -/

/-- The length of the longest chain of edges along which the value stays the same, up to `fuel` of them. -/
def heightWithin (p : Pattern) : Nat → PatternId → Nat
  | 0, _ => 0
  | fuel + 1, id =>
    match p.node? id with
    | none => 0
    | some node => (node.sameValueChildren.map (fun q => heightWithin p fuel q + 1)).foldr max 0

/-- The length of the longest chain of edges from a pattern node along which the value stays the same. -/
def height (p : Pattern) (id : PatternId) : Nat := p.heightWithin p.nodes.size id

theorem heightWithin_le {height : PatternId → Nat} (hp : p.Grounded height) : ∀ (fuel : Nat) {id : PatternId},
    p.Reachable id → p.heightWithin fuel id ≤ height id
  | 0, _, _ => Nat.zero_le _
  | fuel + 1, id, hid => by
    obtain ⟨node, hnode⟩ := hp.present hid
    simp only [heightWithin, hnode]
    refine List.max_le_of_forall_le _ _ (fun k hk => ?_)
    obtain ⟨q, hq, rfl⟩ := List.mem_map.1 hk
    have hle := heightWithin_le hp fuel (hid.child hnode (mem_children_of_sameValue hq))
    exact Nat.succ_le_of_lt (Nat.lt_of_le_of_lt hle (hp.descends hid hnode hq))

/-- Chains are no longer than any height, so more fuel than that finds no longer one. -/
theorem heightWithin_succ {height : PatternId → Nat} (hp : p.Grounded height) : ∀ (fuel : Nat) {id : PatternId},
    p.Reachable id → height id < fuel → p.heightWithin (fuel + 1) id = p.heightWithin fuel id
  | 0, _, _, h => absurd h (Nat.not_lt_zero _)
  | fuel + 1, id, hid, h => by
    obtain ⟨node, hnode⟩ := hp.present hid
    rw [heightWithin, heightWithin]
    simp only [hnode]
    refine congrArg (List.foldr max 0) (List.map_congr_left (fun q hq => ?_))
    have hlt := hp.descends hid hnode hq
    rw [heightWithin_succ hp fuel (hid.child hnode (mem_children_of_sameValue hq)) (by omega)]

/-- The height of a node is one more than the greatest of those its edges lead to. -/
theorem height_eq {height : PatternId → Nat} (hp : p.Grounded height) {id : PatternId} {node : PatternNode}
    (hid : p.Reachable id) (hnode : p.node? id = some node) :
    p.height id = (node.sameValueChildren.map (fun q => p.height q + 1)).foldr max 0 := by
  unfold Pattern.height
  rw [← heightWithin_succ hp _ hid (hp.bounded hid), heightWithin]
  simp only [hnode]

/-- **The length of the longest chain is a height**, if there is any. -/
theorem grounded_height {height : PatternId → Nat} (hp : p.Grounded height) : p.Grounded p.height where
  present := hp.present
  bounded := fun hid => Nat.lt_of_le_of_lt (heightWithin_le hp _ hid) (hp.bounded hid)
  descends := fun {id q node} hid hnode hq => by
    rw [height_eq hp hid hnode]
    exact Nat.lt_of_succ_le (List.le_max_of_le (List.mem_map_of_mem hq) le_rfl)

/-! ## The calls of a pattern that was built -/

theorem Calls.descends {height : PatternId → Nat} (hp : p.Grounded height) (hg : g.WellFormed) {id q : PatternId}
    {v x : ValueId} (hid : p.Reachable id) (h : p.Calls g (id, v) (q, x)) :
    p.Reachable q ∧ Prod.Lex (· < ·) (· < ·) (g.level x, height q) (g.level v, height id) := by
  cases h with
  | sameValue hnode hq =>
    exact ⟨hid.child hnode (mem_children_of_sameValue hq), .right _ (hp.descends hid hnode hq)⟩
  | declared hnode hproducer hn hfits hqx =>
    exact ⟨hid.child hnode (List.of_mem_zip hqx).1, .left _ _ (g.level_lt hg hproducer hn (List.of_mem_zip hqx).2)⟩
  | swapped hnode hproducer hn hfits hcommutes hsx =>
    have hs := (List.Perm.swap _ _ []).mem_iff.1 (List.of_mem_zip hsx).1
    exact ⟨hid.child hnode hs, .left _ _ (g.level_lt hg hproducer hn (List.of_mem_zip hsx).2)⟩

/-- **No chain of attempts goes on for ever.** -/
theorem calls_wellFounded {height : PatternId → Nat} (hp : p.Grounded height) (hg : g.WellFormed) :
    WellFounded (fun c' c : PatternId × ValueId => p.Reachable c.1 ∧ p.Calls g c c') :=
  Subrelation.wf (fun ⟨hid, hcalls⟩ => (hcalls.descends hp hg hid).2)
    (InvImage.wf (fun c : PatternId × ValueId => (g.level c.2, height c.1)) (Prod.lex ⟨_, wellFounded_lt⟩ ⟨_, wellFounded_lt⟩).wf)

/-- **With `matchBound` for fuel an attempt answers what it would with none to spend.** -/
theorem attempt_matchBound_eq {height : PatternId → Nat} (hp : p.Grounded height) (hg : g.WellFormed) {id : PatternId}
    (hid : p.Reachable id) (v : ValueId) (b : Bindings) :
    p.attempt g (p.matchBound g) id v b = p.attemptBy g (p.attempt g (p.matchBound g)) id v b := by
  have hsight : p.SameSight g g := ⟨rfl, fun _ => rfl, fun _ => rfl, fun _ _ => rfl⟩
  rw [← attempt_succ]
  exact ((p.attempt_refines hsight _ _ id v b (Nat.le_succ _)).eq (attempt_reachable_ne_cut hp hg hid v b)).symm

/-- There is one way to answer the attempts of a pattern that was built. -/
theorem attempt_unique {height : PatternId → Nat} (hp : p.Grounded height) (hg : g.WellFormed)
    {step : PatternId → ValueId → Bindings → Attempt}
    (hstep : ∀ id, p.Reachable id → ∀ v, step id v = p.attemptBy g step id v) :
    ∀ (c : PatternId × ValueId), p.Reachable c.1 → step c.1 c.2 = p.attempt g (p.matchBound g) c.1 c.2 := by
  intro c
  induction c using (calls_wellFounded hp hg).induction with
  | _ c ih =>
    intro hid
    rw [hstep c.1 hid c.2]
    funext b
    rw [attempt_matchBound_eq hp hg hid]
    exact attemptBy_congr (fun q x hcalls => ih (q, x) ⟨hid, hcalls⟩ (hcalls.descends hp hg hid).1) b

end Pattern

namespace PatternBuilder

/-- Nothing that the root refers to is missing, and no branch among it is without a destination. -/
theorem resolved_of_build {b : PatternBuilder} {root : PatternId} {p : Pattern} (h : b.build root = .ok p) {id : PatternId}
    (hid : p.Reachable id) : ∃ node, p.node? id = some node ∧ node ≠ .branch none := by
  obtain ⟨rfl, hfault, -⟩ := build_eq_ok.1 h
  have hnone := hfault _ (b.references.mem_visited_reach List.mem_cons_self (references_path hid))
  obtain ⟨node, hnode⟩ := node?_of_fault? hnone
  refine ⟨node, hnode, fun hbranch => ?_⟩
  subst hbranch
  simp only [fault?] at hnone
  rw [hnode] at hnone
  cases hnone

end PatternBuilder

namespace Pattern

variable {p : Pattern} {g : Graph}

/-- **Matching terminates.**  Nothing that the root refers to is missing or unresolved.  With every call the level of the
value falls, or it stays and the length of the longest chain of edges along which the value stays the same falls; there is
nothing else that the answer depends on, so the recursion has one solution, and the fuel of a match is enough to find it. -/
theorem matching_terminates {builder : PatternBuilder} {root : PatternId} (hp : builder.build root = .ok p)
    (hg : g.WellFormed) :
    (∀ id, p.Reachable id → ∃ node, p.node? id = some node ∧ node ≠ .branch none) ∧
    (∀ id v q x, p.Reachable id → p.Calls g (id, v) (q, x) → p.Reachable q ∧
      Prod.Lex (· < ·) (· < ·) (g.level x, p.height q) (g.level v, p.height id)) ∧
    (∀ step step' id v, (∀ q x, p.Calls g (id, v) (q, x) → step q x = step' q x) →
      ∀ b, p.attemptBy g step id v b = p.attemptBy g step' id v b) ∧
    (∀ id, p.Reachable id → ∀ v b, p.attempt g (p.matchBound g) id v b ≠ .cut ∧
      p.attempt g (p.matchBound g) id v b = p.attemptBy g (p.attempt g (p.matchBound g)) id v b) ∧
    (∀ step, (∀ id, p.Reachable id → ∀ v, step id v = p.attemptBy g step id v) →
      ∀ id, p.Reachable id → ∀ v, step id v = p.attempt g (p.matchBound g) id v) := by
  obtain ⟨height, hground⟩ := PatternBuilder.grounded_of_build hp
  have hheight := grounded_height hground
  exact ⟨fun id hid => PatternBuilder.resolved_of_build hp hid,
    fun id v q x hid hcalls => hcalls.descends hheight hg hid,
    fun step step' id v h => attemptBy_congr h,
    fun id hid v b => ⟨attempt_reachable_ne_cut hheight hg hid v b, attempt_matchBound_eq hheight hg hid v b⟩,
    fun step hstep id hid v => attempt_unique hheight hg hstep (id, v) hid⟩

/-- A vector added to the absolute value of its absolute value. -/
def folded : Graph :=
  [Edit.addParameter none ⟨.f32, .ranked [.fixed 3]⟩, .addValue none (.unary .abs) [⟨0⟩], .addValue none (.unary .abs) [⟨1⟩],
    .addValue none (.binary .add .exact) [⟨0⟩, ⟨2⟩], .setResults [⟨3⟩]].foldl Edit.apply (.empty .full)

/-- The sum of any number of absolute values of a source, at least one, and of the same or the source itself. -/
def foldedBuilder : PatternBuilder :=
  ⟨#[.branch (some ⟨4⟩), .any, .label "source" ⟨1⟩, .either [⟨0⟩, ⟨2⟩], .op [.unary .abs] [⟨3⟩] false,
    .op [.binary .add] [⟨4⟩, ⟨3⟩] false]⟩

theorem build_foldedBuilder : foldedBuilder.build ⟨5⟩ = .ok ⟨foldedBuilder.nodes, ⟨5⟩⟩ :=
  PatternBuilder.build_eq_ok.2 ⟨rfl, by decide +kernel, by decide +kernel⟩

/-- The pattern comes back to its absolute value through a branch that refers forward.  The operands match when they are
swapped, and the call that tries the second of them goes down two levels. -/
theorem matching_terminates_folded : folded.WellFormed ∧
    foldedBuilder.build ⟨5⟩ = .ok ⟨foldedBuilder.nodes, ⟨5⟩⟩ ∧
    (Pattern.mk foldedBuilder.nodes ⟨5⟩).matchValue? folded ⟨3⟩ = some ⟨⟨3⟩, [("source", ⟨0⟩)], [⟨1⟩, ⟨2⟩, ⟨3⟩]⟩ ∧
    (∀ b, (Pattern.mk foldedBuilder.nodes ⟨5⟩).attempt folded
      ((Pattern.mk foldedBuilder.nodes ⟨5⟩).matchBound folded) ⟨5⟩ ⟨3⟩ b ≠ .cut) ∧
    Prod.Lex (· < ·) (· < ·) (folded.level ⟨0⟩, (Pattern.mk foldedBuilder.nodes ⟨5⟩).height ⟨3⟩)
      (folded.level ⟨3⟩, (Pattern.mk foldedBuilder.nodes ⟨5⟩).height ⟨5⟩) ∧
    (Pattern.mk foldedBuilder.nodes ⟨5⟩).height ⟨3⟩ = 2 := by
  have hg : folded.WellFormed := Graph.wellFormed_edits _ (Graph.wellFormed_empty _)
  obtain ⟨-, hdescends, -, hends, -⟩ := matching_terminates build_foldedBuilder hg
  have hswapped : Calls ⟨foldedBuilder.nodes, ⟨5⟩⟩ folded (⟨5⟩, ⟨3⟩) (⟨3⟩, ⟨0⟩) :=
    .swapped (n := ⟨none, .binary .add .exact, [⟨0⟩, ⟨2⟩], [⟨3⟩]⟩) rfl
      (by decide +kernel : folded.producerId? ⟨3⟩ = some ⟨3⟩) (by decide +kernel) (by decide +kernel) (by decide +kernel)
      (by decide)
  exact ⟨hg, build_foldedBuilder, by decide +kernel, fun b => (hends _ .refl ⟨3⟩ b).1,
    (hdescends _ _ _ _ .refl hswapped).2, by decide +kernel⟩

end Pattern
end TensorGraph
