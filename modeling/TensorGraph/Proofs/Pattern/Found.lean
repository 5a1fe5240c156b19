import TensorGraph.Pattern.Match
import TensorGraph.Proofs.Graph.WellFormed
import TensorGraph.Proofs.Information.Answers
/-!
# Found — what a successful attempt says about the graph

There is one lemma for each kind of pattern node.  An attempt at an operation says which node
produced the value, and that the inputs were found in their order, or swapped if the operation
commutes.  Under two labels that stand for anything the first order cannot fail
(`matchInputs_labelled`), so operands with such labels are bound as they stand.
-/
namespace TensorGraph

namespace Attempt

theorem andThen_eq_found {a : Attempt} {next : Bindings → Attempt} {b' : Bindings} :
    a.andThen next = .found b' ↔ ∃ b, a = .found b ∧ next b = .found b' := by
  cases a <;> simp [andThen]

theorem orElse_eq_found {a : Attempt} {next : Unit → Attempt} {b' : Bindings} :
    a.orElse next = .found b' ↔ a = .found b' ∨ a = .fails ∧ next () = .found b' := by
  cases a <;> simp [orElse]

theorem andThen_eq_fails {a : Attempt} {next : Bindings → Attempt} :
    a.andThen next = .fails ↔ a = .fails ∨ ∃ b, a = .found b ∧ next b = .fails := by
  cases a <;> simp [andThen]

theorem orElse_eq_fails {a : Attempt} {next : Unit → Attempt} : a.orElse next = .fails ↔ a = .fails ∧ next () = .fails := by
  cases a <;> simp [orElse]

theorem ofOption_eq_found {o : Option Bindings} {b' : Bindings} : ofOption o = .found b' ↔ o = some b' := by
  cases o <;> simp [ofOption]

theorem all_pair_eq_found {step : PatternId → ValueId → Bindings → Attempt} {p q : PatternId} {x y : ValueId}
    {b b' : Bindings} : all step [p, q] [x, y] b = .found b' ↔
      ∃ b₁, step p x b = .found b₁ ∧ step q y b₁ = .found b' := by
  have htail : ∀ b₁, all step [q] [y] b₁ = .found b' ↔ step q y b₁ = .found b' := fun b₁ => by
    rw [all, andThen_eq_found]
    exact ⟨fun ⟨b₂, hb₂, h⟩ => found.inj h ▸ hb₂, fun h => ⟨b', h, rfl⟩⟩
  rw [all, andThen_eq_found]
  exact exists_congr (fun b₁ => and_congr_right (fun _ => htail b₁))

theorem mem_of_first_eq_found {step : PatternId → Bindings → Attempt} {b b' : Bindings} : ∀ {ps : List PatternId},
    first step ps b = .found b' → ∃ q ∈ ps, step q b = .found b'
  | [], h => by cases h
  | q :: ps, h => by
    rw [first] at h
    rcases orElse_eq_found.1 h with h | ⟨-, h⟩
    · exact ⟨q, List.mem_cons_self, h⟩
    · obtain ⟨r, hr, h⟩ := mem_of_first_eq_found h
      exact ⟨r, List.mem_cons_of_mem q hr, h⟩

theorem first_eq_fails {step : PatternId → Bindings → Attempt} {b : Bindings} : ∀ {ps : List PatternId},
    first step ps b = .fails → ∀ q ∈ ps, step q b = .fails
  | [], _, _, hq => by cases hq
  | r :: ps, h, q, hq => by
    rw [first] at h
    obtain ⟨hr, hps⟩ := orElse_eq_fails.1 h
    rcases List.mem_cons.1 hq with rfl | hq
    · exact hr
    · exact first_eq_fails hps q hq

end Attempt

namespace Bindings

theorem bind?_of_find?_eq_none {b : Bindings} {name : String} (h : b.find? name = none) (v : ValueId) :
    b.bind? name v = some { b with labels := b.labels ++ [(name, v)] } := by
  unfold bind?
  rw [h]

end Bindings

namespace Pattern

variable {p : Pattern} {g : Graph} {fuel : Nat} {id : PatternId} {v : ValueId} {b b' : Bindings}

theorem attempt_any (hid : p.node? id = some .any) (h : p.attempt g fuel id v b = .found b') :
    (g.value? v).isSome = true ∧ b' = b := by
  cases fuel with
  | zero => cases h
  | succ fuel =>
    simp only [attempt, hid] at h
    split at h
    · exact ⟨by assumption, (Attempt.found.inj h).symm⟩
    · cases h

theorem attempt_any_of_live (hid : p.node? id = some .any) (hv : (g.value? v).isSome = true) :
    p.attempt g (fuel + 1) id v b = .found b := by
  rw [attempt, hid]
  exact if_pos hv

theorem attempt_label {name : String} {inner : PatternId} (hid : p.node? id = some (.label name inner))
    (h : p.attempt g fuel id v b = .found b') :
    ∃ fuel' < fuel, ∃ b₁, p.attempt g fuel' inner v b = .found b₁ ∧ b₁.bind? name v = some b' := by
  cases fuel with
  | zero => cases h
  | succ fuel =>
    simp only [attempt, hid] at h
    obtain ⟨b₁, hb₁, h⟩ := Attempt.andThen_eq_found.1 h
    exact ⟨fuel, Nat.lt_succ_self fuel, b₁, hb₁, Attempt.ofOption_eq_found.1 h⟩

theorem attempt_guard {inner : PatternId} {predicate : Predicate} (hid : p.node? id = some (.guard inner predicate))
    (h : p.attempt g fuel id v b = .found b') :
    predicate.holds g v = true ∧ ∃ fuel' < fuel, p.attempt g fuel' inner v b = .found b' := by
  cases fuel with
  | zero => cases h
  | succ fuel =>
    simp only [attempt, hid] at h
    split at h
    · exact ⟨by assumption, fuel, Nat.lt_succ_self fuel, h⟩
    · cases h

theorem attempt_branch {destination : Option PatternId} (hid : p.node? id = some (.branch destination))
    (h : p.attempt g fuel id v b = .found b') :
    ∃ q, destination = some q ∧ ∃ fuel' < fuel, p.attempt g fuel' q v b = .found b' := by
  cases fuel with
  | zero => cases h
  | succ fuel =>
    simp only [attempt, hid] at h
    cases destination with
    | none => cases h
    | some q => exact ⟨q, rfl, fuel, Nat.lt_succ_self fuel, h⟩

theorem attempt_either {alternatives : List PatternId} (hid : p.node? id = some (.either alternatives))
    (h : p.attempt g fuel id v b = .found b') :
    ∃ q ∈ alternatives, ∃ fuel' < fuel, p.attempt g fuel' q v b = .found b' := by
  cases fuel with
  | zero => cases h
  | succ fuel =>
    simp only [attempt, hid] at h
    obtain ⟨q, hq, h⟩ := Attempt.mem_of_first_eq_found h
    exact ⟨q, hq, fuel, Nat.lt_succ_self fuel, h⟩

/-- **An operation that was found**: the node that produced the value, and its inputs. -/
theorem attempt_op {types : List OpType} {patterns : List PatternId} {openEnded : Bool}
    (hid : p.node? id = some (.op types patterns openEnded)) (h : p.attempt g fuel id v b = .found b') :
    ∃ fuel' < fuel, ∃ producer n b₁, g.producerId? v = some producer ∧ g.node? producer = some n ∧ n.op.type ∈ types ∧
      countFits openEnded patterns.length n.inputs.length = true ∧
      matchInputs g n.op.type (p.attempt g fuel') patterns n.inputs b = .found b₁ ∧ b' = b₁.addNode producer := by
  cases fuel with
  | zero => cases h
  | succ fuel =>
    simp only [attempt, hid] at h
    split at h
    · cases h
    rename_i producer hproducer
    split at h
    · cases h
    rename_i n hn
    split at h
    · rename_i hfits
      obtain ⟨htype, hcount⟩ := Bool.and_eq_true_iff.1 hfits
      obtain ⟨b₁, hb₁, h⟩ := Attempt.andThen_eq_found.1 h
      exact ⟨fuel, Nat.lt_succ_self fuel, producer, n, b₁, hproducer, hn, List.contains_iff_mem.1 htype, hcount, hb₁,
        (Attempt.found.inj h).symm⟩
    · cases h

theorem length_of_countFits {n k : Nat} (h : countFits false n k = true) : k = n := by simpa [countFits] using h

theorem matchInputs_eq_found {type : OpType} {step : PatternId → ValueId → Bindings → Attempt}
    {patterns : List PatternId} {inputs : List ValueId} {b b' : Bindings}
    (h : matchInputs g type step patterns inputs b = .found b') : Attempt.all step patterns inputs b = .found b' ∨
      ∃ q r, patterns = [q, r] ∧ g.registry.isCommutative type = true ∧ Attempt.all step [r, q] inputs b = .found b' := by
  unfold matchInputs at h
  simp only at h
  split at h
  · rename_i q r
    split at h
    · rename_i hcomm
      exact (Attempt.orElse_eq_found.1 h).imp_right (fun hswapped => ⟨q, r, rfl, hcomm, hswapped.2⟩)
    · exact Or.inl h
  · exact Or.inl h

theorem matchInputs_pair {type : OpType} {step : PatternId → ValueId → Bindings → Attempt} {q r : PatternId}
    {x y : ValueId} (h : matchInputs g type step [q, r] [x, y] b = .found b') :
    (∃ b₁, step q x b = .found b₁ ∧ step r y b₁ = .found b') ∨ ∃ b₁, step r x b = .found b₁ ∧ step q y b₁ = .found b' := by
  rcases matchInputs_eq_found h with hall | ⟨q', r', hpatterns, -, hall⟩
  · exact Or.inl (Attempt.all_pair_eq_found.1 hall)
  · obtain ⟨rfl, rfl⟩ : q = q' ∧ r = r' := by simpa using hpatterns
    exact Or.inr (Attempt.all_pair_eq_found.1 hall)

/-! ## Labels that stand for anything -/

/-- The node names any value. -/
def Names (p : Pattern) (id : PatternId) (name : String) : Prop :=
  ∃ inner, p.node? id = some (.label name inner) ∧ p.node? inner = some .any

theorem Names.of_found {name : String} (hid : p.Names id name) (h : p.attempt g fuel id v b = .found b') :
    (g.value? v).isSome = true ∧ b.bind? name v = some b' := by
  obtain ⟨inner, hlabel, hany⟩ := hid
  obtain ⟨fuel', -, b₁, hb₁, hbind⟩ := attempt_label hlabel h
  obtain ⟨hlive, rfl⟩ := attempt_any hany hb₁
  exact ⟨hlive, hbind⟩

theorem Names.attempt_cases {name : String} (hid : p.Names id name) (fuel : Nat) (hlive : (g.value? v).isSome = true)
    (hfree : b.find? name = none) :
    p.attempt g fuel id v b = .cut ∨ p.attempt g fuel id v b = .found { b with labels := b.labels ++ [(name, v)] } := by
  obtain ⟨inner, hlabel, hany⟩ := hid
  cases fuel with
  | zero => exact Or.inl rfl
  | succ fuel =>
    cases fuel with
    | zero =>
      refine Or.inl ?_
      simp [attempt, hlabel, Attempt.andThen]
    | succ fuel =>
      refine Or.inr ?_
      simp [attempt, hlabel, hany, hlive, Attempt.andThen, Bindings.bind?_of_find?_eq_none hfree, Attempt.ofOption]

/-- **Two operands that are only named are bound as they stand**, also under an operation that commutes. -/
theorem matchInputs_labelled {type : OpType} {q r : PatternId} {l l' : String} {x y : ValueId} (hq : p.Names q l)
    (hr : p.Names r l') (hne : l ≠ l') (hx : (g.value? x).isSome = true) (hy : (g.value? y).isSome = true)
    (hl : b.find? l = none) (hl' : b.find? l' = none)
    (h : matchInputs g type (p.attempt g fuel) [q, r] [x, y] b = .found b') :
    b' = { b with labels := b.labels ++ [(l, x), (l', y)] } := by
  have hfree : ({ b with labels := b.labels ++ [(l, x)] } : Bindings).find? l' = none := by
    unfold Bindings.find? at hl' ⊢
    simp only [Option.map_eq_none_iff] at hl' ⊢
    simp [List.find?_append, hl', hne]
  -- the declared order does not fail, so the other is not tried
  have hall : Attempt.all (p.attempt g fuel) [q, r] [x, y] b = .cut ∨
      Attempt.all (p.attempt g fuel) [q, r] [x, y] b = .found { b with labels := b.labels ++ [(l, x), (l', y)] } := by
    rw [Attempt.all]
    rcases hq.attempt_cases fuel hx hl with hfirst | hfirst
    · exact Or.inl (by rw [hfirst]; rfl)
    rw [hfirst, Attempt.andThen, Attempt.all]
    rcases hr.attempt_cases fuel hy hfree with hsecond | hsecond
    · exact Or.inl (by rw [hsecond]; rfl)
    · rw [hsecond]
      simp [Attempt.andThen, Attempt.all]
  unfold matchInputs at h
  simp only at h
  rcases hall with hall | hall
  · rw [hall] at h
    split at h <;> cases h
  · rw [hall] at h
    split at h <;> exact (Attempt.found.inj h).symm

/-- An operation on one operand that is named. -/
theorem attempt_op_one {types : List OpType} {q : PatternId} {l : String}
    (hid : p.node? id = some (.op types [q] false)) (hq : p.Names q l) (hl : b.find? l = none)
    (h : p.attempt g fuel id v b = .found b') :
    ∃ n x, g.producer? v = some n ∧ n.op.type ∈ types ∧ n.inputs = [x] ∧ b'.labels = b.labels ++ [(l, x)] := by
  obtain ⟨fuel', -, producer, n, b₁, hproducer, hn, htype, hcount, hb₁, rfl⟩ := attempt_op hid h
  obtain ⟨x, hin⟩ := List.length_eq_one_iff.1 (length_of_countFits hcount)
  rw [hin] at hb₁
  obtain ⟨b₂, hb₂, hb₁⟩ := Attempt.andThen_eq_found.1 hb₁
  obtain ⟨-, hbind⟩ := hq.of_found hb₂
  rw [Bindings.bind?_of_find?_eq_none hl] at hbind
  obtain rfl := Option.some.inj hbind
  refine ⟨n, x, by rw [Graph.producer?, hproducer, Option.bind_some, hn], htype, hin, ?_⟩
  rw [← Attempt.found.inj hb₁]
  rfl

/-- An operation on two operands that are named. -/
theorem attempt_op_two (hg : g.WellFormed) {types : List OpType} {q r : PatternId} {l l' : String}
    (hid : p.node? id = some (.op types [q, r] false)) (hq : p.Names q l) (hr : p.Names r l') (hne : l ≠ l')
    (hl : b.find? l = none) (hl' : b.find? l' = none) (h : p.attempt g fuel id v b = .found b') :
    ∃ n x y, g.producer? v = some n ∧ n.op.type ∈ types ∧ n.inputs = [x, y] ∧
      b'.labels = b.labels ++ [(l, x), (l', y)] := by
  obtain ⟨fuel', -, producer, n, b₁, hproducer, hn, htype, hcount, hb₁, rfl⟩ := attempt_op hid h
  obtain ⟨x, y, hin⟩ := List.length_eq_two.1 (length_of_countFits hcount)
  have hx := hg.input_live hn (hin ▸ List.mem_cons_self)
  have hy := hg.input_live hn (hin ▸ List.mem_cons_of_mem x List.mem_cons_self)
  rw [hin] at hb₁
  obtain rfl := matchInputs_labelled hq hr hne hx hy hl hl' hb₁
  exact ⟨n, x, y, by rw [Graph.producer?, hproducer, Option.bind_some, hn], htype, hin, rfl⟩

/-- A match has fuel for a chain through every node of the pattern. -/
theorem size_lt_matchBound (p : Pattern) (g : Graph) : p.nodes.size + 1 < p.matchBound g :=
  Nat.lt_succ_of_le (Nat.le_mul_of_pos_right _ (Nat.succ_pos _))

theorem matchValue?_eq_some {m : Match} (h : p.matchValue? g v = some m) :
    ∃ b, p.attempt g (p.matchBound g) p.root v .empty = .found b ∧ m = ⟨v, b.labels, b.nodes.eraseDups⟩ := by
  unfold matchValue? at h
  split at h
  · exact ⟨_, by assumption, (Option.some.inj h).symm⟩
  · cases h

end Pattern
end TensorGraph
