import TensorGraph.Proofs.Graph.Refined
import TensorGraph.Proofs.Rewrite.Specific
/-!
# Additions — two runs of the same construction

The same sequence of additions is carried out twice, and the first run declares less of its
parameters.  After every call the second graph refines the first, or the first run has missed a rank.
That takes orders that fit the ranks at the calls which both runs come to (`FitAlong`), and this is so
if they fit in the graph that the second run leaves: what a call was given is still there at the end.
-/
namespace TensorGraph

open TensorGraph.Graph

/-- One call that adds a node to a graph. -/
inductive Addition where
  | parameter (name : Option String) (type : TensorType)
  | constant (name : Option String) (c : Constant)
  | node (name : Option String) (op : Op) (inputs : List ValueId)

namespace Addition

def name : Addition → Option String
  | parameter name _ | constant name _ | node name _ _ => name

def op : Addition → Op
  | parameter _ type => .parameter type
  | constant _ c => .constant c
  | node _ op _ => op

def inputs : Addition → List ValueId
  | parameter _ _ | constant _ _ => []
  | node _ _ inputs => inputs

/-- Carry an addition out; the answer names the new node, or the value if it is a parameter or a constant. -/
def carryOut (g : Graph) : Addition → Except ValidationError ((NodeId ⊕ ValueId) × Graph)
  | parameter name type => (g.addParameter name type).map (fun r => (.inr r.1, r.2))
  | constant name c => (g.addConstant name c).map (fun r => (.inr r.1, r.2))
  | node name op inputs => (g.insert name op inputs).map (fun r => (.inl r.1, r.2.2))

/-- Carry additions out one after the other, up to the first that fails. -/
def carryOutAll : List Addition → Graph → Except ValidationError (List (NodeId ⊕ ValueId) × Graph)
  | [], g => .ok ([], g)
  | a :: as, g => do
    let (id, g) ← a.carryOut g
    let (ids, g) ← carryOutAll as g
    return (id :: ids, g)

/-- The same addition, or a parameter of which the second declares more. -/
inductive RefinedBy : Addition → Addition → Prop where
  | parameter (name : Option String) {t t' : TensorType} (h : t.relaxes t' = true) :
    RefinedBy (.parameter name t) (.parameter name t')
  | constant (name : Option String) (c : Constant) : RefinedBy (.constant name c) (.constant name c)
  | node (name : Option String) {op op' : Op} (h : op.RefinedBy op') (inputs : List ValueId) :
    RefinedBy (.node name op inputs) (.node name op' inputs)

theorem RefinedBy.name_eq {a b : Addition} (h : a.RefinedBy b) : b.name = a.name := by
  cases h <;> rfl

theorem RefinedBy.inputs_eq {a b : Addition} (h : a.RefinedBy b) : b.inputs = a.inputs := by
  cases h <;> rfl

theorem RefinedBy.op {a b : Addition} (h : a.RefinedBy b) : a.op.RefinedBy b.op := by
  cases h with
  | parameter _ h => exact .parameter h
  | constant _ c => exact .same _
  | node _ h _ => exact h

/-- What an addition makes of the new node and its first output. -/
def answer : Addition → NodeId × ValueId × Graph → (NodeId ⊕ ValueId) × Graph
  | parameter _ _, (_, v, g) => (.inr v, { g with parameters := g.parameters ++ [v] })
  | constant _ _, (_, v, g) => (.inr v, g)
  | node _ _ _, (id, _, g) => (.inl id, g)

/-- **Every addition inserts a node.** -/
theorem carryOut_eq (a : Addition) (g : Graph) : a.carryOut g = (g.insert a.name a.op a.inputs).map a.answer := by
  cases a with
  | parameter name type =>
    show (g.addParameter name type).map _ = (g.insert name (.parameter type) []).map _
    unfold addParameter
    cases g.insert name (.parameter type) [] <;> rfl
  | constant name c =>
    show (g.addConstant name c).map _ = (g.insert name (.constant c) []).map _
    unfold addConstant
    cases g.insert name (.constant c) [] <;> rfl
  | node name op inputs =>
    show (g.insert name op inputs).map _ = (g.insert name op inputs).map _
    cases g.insert name op inputs <;> rfl

theorem carryOut_eq_ok {a : Addition} {g : Graph} {r : (NodeId ⊕ ValueId) × Graph} (h : a.carryOut g = .ok r) :
    ∃ id v k, g.insert a.name a.op a.inputs = .ok (id, v, k) ∧ r = a.answer (id, v, k) := by
  rw [carryOut_eq] at h
  cases hins : g.insert a.name a.op a.inputs with
  | error e =>
    rw [hins] at h
    cases h
  | ok p =>
    rw [hins] at h
    exact ⟨p.1, p.2.1, p.2.2, rfl, (Except.ok.inj h).symm⟩

theorem node?_answer (a : Addition) (p : NodeId × ValueId × Graph) (id : NodeId) :
    (a.answer p).2.node? id = p.2.2.node? id := by
  cases a <;> rfl

theorem value?_answer (a : Addition) (p : NodeId × ValueId × Graph) (v : ValueId) :
    (a.answer p).2.value? v = p.2.2.value? v := by
  cases a <;> rfl

/-- The addition as an operation that leaves the graph alone if it fails. -/
def edit : Addition → Edit
  | parameter name type => .addParameter name type
  | constant name c => .addConstant name c
  | node name op inputs => .addValue name op inputs

theorem edit_apply {a : Addition} {g : Graph} {r : (NodeId ⊕ ValueId) × Graph} (h : a.carryOut g = .ok r) :
    a.edit.apply g = r.2 := by
  obtain ⟨id, v, k, hins, rfl⟩ := carryOut_eq_ok h
  cases a with
  | parameter name type =>
    replace hins : g.insert name (.parameter type) [] = .ok (id, v, k) := hins
    simp only [edit, Edit.apply, addParameter, hins]
    rfl
  | constant name c =>
    replace hins : g.insert name (.constant c) [] = .ok (id, v, k) := hins
    simp only [edit, Edit.apply, addConstant, hins]
    rfl
  | node name op inputs =>
    replace hins : g.insert name op inputs = .ok (id, v, k) := hins
    simp only [edit, Edit.apply, addValue, hins]
    rfl

theorem typeConsistent_carryOut {a : Addition} {g : Graph} (hg : g.TypeConsistent) {r : (NodeId ⊕ ValueId) × Graph}
    (h : a.carryOut g = .ok r) : r.2.TypeConsistent := by
  rw [← edit_apply h]
  exact typeConsistent_edit hg a.edit (fun id op he => by cases a <;> cases he)

/-! ## Two runs, call by call -/

theorem carryOut_refined {a b : Addition} (hab : a.RefinedBy b) {g h : Graph} (hgh : g.RefinedBy h) (hh : h.TypeConsistent)
    {r : (NodeId ⊕ ValueId) × Graph} (hok : b.carryOut h = .ok r) (hfits : OrderFitsBoth g h a.op a.inputs) :
    (∃ type axis, a.carryOut g = .error (.op type none (.dynamicRank axis))) ∨
      ∃ g', a.carryOut g = .ok (r.1, g') ∧ g'.RefinedBy r.2 := by
  obtain ⟨id, v, h', hins, rfl⟩ := carryOut_eq_ok hok
  rw [hab.name_eq, hab.inputs_eq] at hins
  rw [carryOut_eq]
  rcases insert_refined hgh hh hab.op hins hfits with ⟨axis, herror⟩ | ⟨g', hok', hgh'⟩
  · exact Or.inl ⟨a.op.type, axis, by rw [herror]; rfl⟩
  · refine Or.inr ⟨(a.answer (id, v, g')).2, ?_, ?_⟩
    · rw [hok']
      cases hab <;> rfl
    · cases hab with
      | parameter => exact { hgh' with parameters := congrArg (· ++ [v]) hgh'.parameters }
      | constant => exact hgh'
      | node => exact hgh'

theorem orderFitsBoth_of_carryOut {a b : Addition} (hab : a.RefinedBy b) {g h : Graph} (hgh : g.RefinedBy h)
    (hh : h.TypeConsistent) {r : (NodeId ⊕ ValueId) × Graph} (hok : b.carryOut h = .ok r)
    (hclaim : (∃ type axis, a.carryOut g = .error (.op type none (.dynamicRank axis))) ∨
      ∃ r', a.carryOut g = .ok r' ∧ r'.2.TypesRelax r.2) : OrderFitsBoth g h a.op a.inputs := by
  obtain ⟨id, v, h', hins, rfl⟩ := carryOut_eq_ok hok
  rw [hab.name_eq, hab.inputs_eq] at hins
  refine orderFitsBoth_of_insert hgh hh hab.op hins ?_
  rcases hclaim with ⟨type, axis, herror⟩ | ⟨r', hok', hrelax⟩
  · refine Or.inl ⟨type, axis, ?_⟩
    rw [carryOut_eq] at herror
    cases hins' : g.insert a.name a.op a.inputs with
    | error e =>
      rw [hins'] at herror
      cases herror
      rfl
    | ok p =>
      rw [hins'] at herror
      cases herror
  · obtain ⟨id', v', g', hins', rfl⟩ := carryOut_eq_ok hok'
    refine Or.inr ⟨id', v', g', hins', fun w => ?_⟩
    have hw := hrelax w
    rwa [type?, type?, value?_answer, value?_answer] at hw

/-- Along the two runs, as long as both go on, no order of unknown value is met that belies a rank. -/
def FitAlong : List Addition → List Addition → Graph → Graph → Prop
  | a :: as, b :: bs, g, h => OrderFitsBoth g h a.op a.inputs ∧
    ∀ r r', a.carryOut g = .ok r → b.carryOut h = .ok r' → FitAlong as bs r.2 r'.2
  | _, _, _, _ => True

/-- The first run misses a rank, or it adds what the second adds and its types relax those of the second. -/
def KeepsUp (first : Except ValidationError (List (NodeId ⊕ ValueId) × Graph)) (ids : List (NodeId ⊕ ValueId)) (h : Graph) :
    Prop :=
  (∃ type axis, first = .error (.op type none (.dynamicRank axis))) ∨ ∃ g, first = .ok (ids, g) ∧ g.TypesRelax h

theorem carryOutAll_cons_eq_ok {a : Addition} {as : List Addition} {g k : Graph} {ids : List (NodeId ⊕ ValueId)} :
    carryOutAll (a :: as) g = .ok (ids, k) ↔ ∃ r rest, a.carryOut g = .ok r ∧ carryOutAll as r.2 = .ok (rest, k) ∧
      ids = r.1 :: rest := by
  rw [carryOutAll, bind_eq_ok]
  refine exists_congr (fun r => ?_)
  constructor
  · rintro ⟨hr, hall⟩
    obtain ⟨⟨rest, k'⟩, hrest, hall⟩ := bind_eq_ok.1 hall
    cases hall
    exact ⟨rest, hr, hrest, rfl⟩
  · rintro ⟨rest, hr, hrest, rfl⟩
    exact ⟨hr, bind_eq_ok.2 ⟨(rest, k), hrest, rfl⟩⟩

theorem carryOutAll_cons_of_error {a : Addition} {as : List Addition} {g : Graph} {e : ValidationError}
    (h : a.carryOut g = .error e) : carryOutAll (a :: as) g = .error e := by
  rw [carryOutAll, h]
  rfl

theorem carryOutAll_cons_of_ok {a : Addition} {as : List Addition} {g : Graph} {r : (NodeId ⊕ ValueId) × Graph}
    (h : a.carryOut g = .ok r) : carryOutAll (a :: as) g = (carryOutAll as r.2).map (fun s => (r.1 :: s.1, s.2)) := by
  rw [carryOutAll, h]
  cases hall : carryOutAll as r.2 with
  | error e => simp only [bind, Except.bind, Except.map, hall]
  | ok s => simp only [bind, Except.bind, Except.map, hall]; rfl

theorem carryOutAll_take : ∀ (k : Nat) {as : List Addition} {g h : Graph} {ids : List (NodeId ⊕ ValueId)},
    carryOutAll as g = .ok (ids, h) → ∃ ids' h', carryOutAll (as.take k) g = .ok (ids', h')
  | 0, _, g, _, _, _ => ⟨[], g, by rw [List.take_zero]; rfl⟩
  | _ + 1, [], g, _, _, _ => ⟨[], g, rfl⟩
  | k + 1, a :: as, g, h, ids, hok => by
    obtain ⟨r, rest, hr, hrest, -⟩ := carryOutAll_cons_eq_ok.1 hok
    obtain ⟨ids', h', htake⟩ := carryOutAll_take k hrest
    exact ⟨r.1 :: ids', h', carryOutAll_cons_eq_ok.2 ⟨r, ids', hr, htake, rfl⟩⟩

theorem FitAlong.take : ∀ (k : Nat) {as bs : List Addition} {g h : Graph}, FitAlong as bs g h →
    FitAlong (as.take k) (bs.take k) g h
  | 0, _, _, _, _, _ => trivial
  | _ + 1, [], _, _, _, _ => trivial
  | _ + 1, _ :: _, [], _, _, _ => trivial
  | k + 1, _ :: _, _ :: _, _, _, hfits => ⟨hfits.1, fun r r' hr hr' => (hfits.2 r r' hr hr').take k⟩

/-- **A run of which less is declared keeps up**, if the orders fit along the way. -/
theorem carryOutAll_refined {as bs : List Addition} (hab : List.Forall₂ RefinedBy as bs) {g h : Graph} (hgh : g.RefinedBy h)
    (hh : h.TypeConsistent) {ids : List (NodeId ⊕ ValueId)} {h' : Graph} (hok : carryOutAll bs h = .ok (ids, h'))
    (hfits : FitAlong as bs g h) : (∃ type axis, carryOutAll as g = .error (.op type none (.dynamicRank axis))) ∨
      ∃ g', carryOutAll as g = .ok (ids, g') ∧ g'.RefinedBy h' := by
  induction hab generalizing g h ids with
  | nil =>
    cases hok
    exact Or.inr ⟨g, rfl, hgh⟩
  | cons hab _ ih =>
    obtain ⟨r', rest, hr', hrest, rfl⟩ := carryOutAll_cons_eq_ok.1 hok
    rcases carryOut_refined hab hgh hh hr' hfits.1 with ⟨type, axis, herror⟩ | ⟨g', hr, hgh'⟩
    · exact Or.inl ⟨type, axis, carryOutAll_cons_of_error herror⟩
    · rw [carryOutAll_cons_of_ok hr]
      rcases ih hgh' (typeConsistent_carryOut hh hr') hrest (hfits.2 _ _ hr hr') with ⟨type, axis, herror⟩ | ⟨k, hk, hkh⟩
      · exact Or.inl ⟨type, axis, by rw [herror]; rfl⟩
      · exact Or.inr ⟨k, by rw [hk]; rfl, hkh⟩

theorem KeepsUp.head {a : Addition} {g h : Graph} {ids : List (NodeId ⊕ ValueId)} (hkeep : KeepsUp (carryOutAll [a] g) ids h) :
    (∃ type axis, a.carryOut g = .error (.op type none (.dynamicRank axis))) ∨
      ∃ r, a.carryOut g = .ok r ∧ r.2.TypesRelax h := by
  cases hr : a.carryOut g with
  | error e =>
    rw [carryOutAll_cons_of_error hr] at hkeep
    rcases hkeep with ⟨type, axis, herror⟩ | ⟨_, hnone, -⟩
    · exact Or.inl ⟨type, axis, congrArg Except.error (Except.error.inj herror)⟩
    · cases hnone
  | ok r =>
    rw [carryOutAll_cons_of_ok hr] at hkeep
    rcases hkeep with ⟨type, axis, herror⟩ | ⟨g', hg', hrelax⟩
    · cases herror
    · have hgraph : r.2 = g' := congrArg Prod.snd (Except.ok.inj hg')
      exact Or.inr ⟨r, rfl, hgraph ▸ hrelax⟩

theorem KeepsUp.tail {x : Except ValidationError (List (NodeId ⊕ ValueId) × Graph)} {i j : NodeId ⊕ ValueId}
    {ids : List (NodeId ⊕ ValueId)} {h : Graph} (hkeep : KeepsUp (x.map (fun s => (i :: s.1, s.2))) (j :: ids) h) :
    KeepsUp x ids h := by
  cases x with
  | error e =>
    rcases hkeep with ⟨type, axis, herror⟩ | ⟨_, hnone, -⟩
    · exact Or.inl ⟨type, axis, congrArg Except.error (Except.error.inj herror)⟩
    · cases hnone
  | ok s =>
    rcases hkeep with ⟨type, axis, herror⟩ | ⟨g', hg', hrelax⟩
    · cases herror
    · obtain ⟨hids, hgraph⟩ := Prod.mk.inj (Except.ok.inj hg')
      exact Or.inr ⟨g', congrArg Except.ok (Prod.ext (List.cons.inj hids).2 hgraph), hrelax⟩

/-- A run that keeps up at every point meets orders that fit. -/
theorem fitAlong_of_keepsUp {as bs : List Addition} (hab : List.Forall₂ RefinedBy as bs) {g h : Graph} (hgh : g.RefinedBy h)
    (hh : h.TypeConsistent) (hkeeps : ∀ k, ∃ ids h', carryOutAll (bs.take k) h = .ok (ids, h') ∧
      KeepsUp (carryOutAll (as.take k) g) ids h') : FitAlong as bs g h := by
  induction hab generalizing g h with
  | nil => trivial
  | @cons a b as bs hab _ ih =>
    obtain ⟨ids, h', hok, hfirst⟩ := hkeeps 1
    obtain ⟨r', _, hr', hnil, rfl⟩ := carryOutAll_cons_eq_ok.1 hok
    cases hnil
    have hhead : OrderFitsBoth g h a.op a.inputs := orderFitsBoth_of_carryOut hab hgh hh hr' hfirst.head
    refine ⟨hhead, fun r s hr hs => ?_⟩
    obtain rfl := Except.ok.inj (hr'.symm.trans hs)
    -- the rest of the runs starts from two graphs of which the second refines the first
    have hrefined : r.2.RefinedBy r'.2 := by
      rcases carryOut_refined hab hgh hh hr' hhead with ⟨type, axis, herror⟩ | ⟨g', hg', hrefined⟩
      · rw [hr] at herror
        cases herror
      · obtain rfl := Except.ok.inj (hr.symm.trans hg')
        exact hrefined
    refine ih hrefined (typeConsistent_carryOut hh hr') (fun k => ?_)
    obtain ⟨ids, h', hok, hkeep⟩ := hkeeps (k + 1)
    obtain ⟨s, rest, hs, hrest, rfl⟩ := carryOutAll_cons_eq_ok.1 hok
    obtain rfl := Except.ok.inj (hr'.symm.trans hs)
    rw [List.take_succ_cons, carryOutAll_cons_of_ok hr] at hkeep
    exact ⟨rest, h', hrest, hkeep.tail⟩

/-! ## Orders that fit in the graph that is left -/

/-- What is looked up in the first graph is found in the second. -/
structure Keeps (g h : Graph) : Prop where
  node : ∀ {id : NodeId} {n : Node}, g.node? id = some n → h.node? id = some n
  live : ∀ {v : ValueId}, (g.value? v).isSome = true → (h.value? v).isSome = true
  type : ∀ {v : ValueId}, (g.value? v).isSome = true → h.type? v = g.type? v
  known : ∀ {v : ValueId}, (g.value? v).isSome = true → h.knownValue? v = g.knownValue? v

theorem Keeps.trans {g h k : Graph} (hgh : Keeps g h) (hhk : Keeps h k) : Keeps g k :=
  ⟨fun hn => hhk.node (hgh.node hn), fun hv => hhk.live (hgh.live hv),
    fun hv => (hhk.type (hgh.live hv)).trans (hgh.type hv), fun hv => (hhk.known (hgh.live hv)).trans (hgh.known hv)⟩

theorem keeps_of_lookups {g h : Graph} (hnode : ∀ id, h.node? id = g.node? id) (hvalue : ∀ v, h.value? v = g.value? v) :
    Keeps g h := by
  have htype : ∀ v, h.type? v = g.type? v := fun v => by rw [type?, type?, hvalue]
  have hproducer : ∀ v, h.producer? v = g.producer? v := fun v => by
    rw [producer?, producer?, producerId?, producerId?, hvalue]
    exact congrArg (Option.bind _) (funext hnode)
  exact ⟨fun {id n} hn => (hnode id).trans hn, fun {v} hv => by rwa [hvalue], fun _ => htype _,
    fun _ => knownValue?_congr (hproducer _) (fun _ _ _ _ _ _ _ => htype _)⟩

theorem keeps_of_extends {g h : Graph} (hg : g.WellFormed) (hgh : Extends g h) : Keeps g h := by
  refine ⟨hgh.node?_of_node?, fun hv => ?_, fun {v} hv => ?_, hgh.knownValue? hg⟩
  · obtain ⟨val, hval⟩ := Option.isSome_iff_exists.1 hv
    obtain ⟨more, -, hval'⟩ := hgh.value?_of_value? hval
    rw [hval']
    rfl
  · obtain ⟨val, hval⟩ := Option.isSome_iff_exists.1 hv
    have ht : g.type? v = some val.type := by rw [type?, hval, Option.map_some]
    rw [ht, hgh.type? ht]

theorem keeps_carryOut {a : Addition} {g : Graph} (hg : g.WellFormed) {r : (NodeId ⊕ ValueId) × Graph}
    (hok : a.carryOut g = .ok r) : Keeps g r.2 := by
  obtain ⟨id, v, k, hins, rfl⟩ := carryOut_eq_ok hok
  have hgk : Extends g k := (Grown.refl.insert hins).extends hg
  exact (keeps_of_extends hg hgk).trans (keeps_of_lookups (a.node?_answer _) (a.value?_answer _))

theorem keeps_carryOutAll : ∀ {as : List Addition} {g h : Graph} {ids : List (NodeId ⊕ ValueId)}, g.TypeConsistent →
    carryOutAll as g = .ok (ids, h) → Keeps g h
  | [], _, _, _, _, hok => by
    cases hok
    exact keeps_of_lookups (fun _ => rfl) (fun _ => rfl)
  | _ :: _, _, _, _, hg, hok => by
    obtain ⟨r, rest, hr, hrest, -⟩ := carryOutAll_cons_eq_ok.1 hok
    exact (keeps_carryOut hg.wellFormed hr).trans (keeps_carryOutAll (typeConsistent_carryOut hg hr) hrest)

/-- An addition leaves a node with its operation and inputs. -/
theorem exists_node_of_carryOut {a : Addition} {g : Graph} {r : (NodeId ⊕ ValueId) × Graph} (hok : a.carryOut g = .ok r) :
    ∃ id n, r.2.node? id = some n ∧ n.op = a.op ∧ n.inputs = a.inputs ∧ ∀ v ∈ a.inputs, (g.value? v).isSome = true := by
  obtain ⟨id, v, k, hins, rfl⟩ := carryOut_eq_ok hok
  obtain ⟨types, -, hinf, -, rfl, -, rfl⟩ := insert_eq_ok hins
  refine ⟨⟨g.nodeSlots⟩, ⟨a.name, a.op, a.inputs, g.freshValues types.length⟩, ?_, rfl, rfl,
    inputs_live_of_inferOutputs hinf⟩
  rw [node?_answer, node?_appendNode, if_pos rfl]

theorem orderFitsBoth_of_ordersFit {a b : Addition} (hab : a.RefinedBy b) {g h k : Graph} (hgh : g.RefinedBy h)
    {r : (NodeId ⊕ ValueId) × Graph} (hok : b.carryOut h = .ok r) (hh : h.WellFormed) (hkeeps : Keeps r.2 k)
    (hfit : k.OrdersFit) : OrderFitsBoth g h a.op a.inputs := by
  intro ts ts' hts hts'
  by_cases hop : a.op.type = .parameter
  · unfold Op.OrderFits
    split
    · rename_i hop'
      rw [hop'] at hop
      cases hop
    · trivial
  · obtain ⟨id, n, hn, hnop, hnin, hlive⟩ := exists_node_of_carryOut hok
    have hall := (keeps_carryOut hh hok).trans hkeeps
    rw [hab.inputs_eq] at hnin hlive
    have htypes : n.inputs.map k.type? = ts'.map some := by
      rw [hnin, ← hts']
      exact List.map_congr_left (fun v hv => hall.type (hlive v hv))
    have hknown : n.inputs.map k.knownValue? = a.inputs.map h.knownValue? := by
      rw [hnin]
      exact List.map_congr_left (fun v hv => hall.known (hlive v hv))
    obtain ⟨us, hus, hrel⟩ := hgh.inputTypes hts'
    obtain rfl : us = ts := List.map_injective_iff.2 (Option.some_injective TensorType) (hus.symm.trans hts)
    have hfits := hfit.orderFits (hkeeps.node hn) hrel htypes
    rwa [hknown, hnop, hab.op.eq_of_ne_parameter hop] at hfits

/-- **Where all orders fit in the graph that the second run leaves, they fit along the way.** -/
theorem fitAlong_of_ordersFit {as bs : List Addition} (hab : List.Forall₂ RefinedBy as bs) {g h : Graph}
    (hgh : g.RefinedBy h) (hh : h.TypeConsistent) {ids : List (NodeId ⊕ ValueId)} {k : Graph}
    (hok : carryOutAll bs h = .ok (ids, k)) (hfit : k.OrdersFit) : FitAlong as bs g h := by
  induction hab generalizing g h ids with
  | nil => trivial
  | cons hab _ ih =>
    obtain ⟨r', rest, hr', hrest, -⟩ := carryOutAll_cons_eq_ok.1 hok
    have hh' := typeConsistent_carryOut hh hr'
    have hhead := orderFitsBoth_of_ordersFit hab hgh hr' hh.wellFormed (keeps_carryOutAll hh' hrest) hfit
    refine ⟨hhead, fun r s hr hs => ?_⟩
    obtain rfl := Except.ok.inj (hr'.symm.trans hs)
    rcases carryOut_refined hab hgh hh hr' hhead with ⟨type, axis, herror⟩ | ⟨g', hg', hrefined⟩
    · rw [hr] at herror
      cases herror
    · obtain rfl := Except.ok.inj (hr.symm.trans hg')
      exact ih hrefined hh' hrest

/-- **Refining the parameters refines the whole graph, unless an order of unknown value belies a rank.**  Let the second
run succeed.  The first then misses a rank, or adds the same nodes and claims no more of any value, at every point of the
runs, exactly if no transposition that both runs come to is given a vector of axes of unknown value whose length is not the
rank that only the second run sees.  There is none if the graph that the second run leaves has none. -/
theorem keepsUp_iff_fitAlong (registry : Registry) {as bs : List Addition} (hab : List.Forall₂ RefinedBy as bs)
    {ids : List (NodeId ⊕ ValueId)} {h : Graph} (hok : carryOutAll bs (.empty registry) = .ok (ids, h)) :
    ((∀ k, ∃ ids' h', carryOutAll (bs.take k) (.empty registry) = .ok (ids', h') ∧
      KeepsUp (carryOutAll (as.take k) (.empty registry)) ids' h') ↔ FitAlong as bs (.empty registry) (.empty registry)) ∧
    (h.OrdersFit → FitAlong as bs (.empty registry) (.empty registry)) := by
  have hempty := refinedBy_empty registry
  have htyped := typeConsistent_empty registry
  refine ⟨⟨fitAlong_of_keepsUp hab hempty htyped, fun hfits k => ?_⟩, fitAlong_of_ordersFit hab hempty htyped hok⟩
  obtain ⟨ids', h', htake⟩ := carryOutAll_take k hok
  refine ⟨ids', h', htake, ?_⟩
  rcases carryOutAll_refined (List.forall₂_take k hab) hempty htyped htake (hfits.take k) with herror | ⟨g', hg', hrefined⟩
  · exact Or.inl herror
  · exact Or.inr ⟨g', hg', hrefined.typesRelax⟩

/-- The graph that a run leaves, if it succeeds. -/
def left? (as : List Addition) : Option Graph := (carryOutAll as (.empty .full)).toOption.map Prod.snd

theorem exists_of_left? {as : List Addition} {P : Graph → Prop} (h : ∃ k, left? as = some k ∧ P k) :
    ∃ ids k, carryOutAll as (.empty .full) = .ok (ids, k) ∧ P k := by
  obtain ⟨k, hk, hP⟩ := h
  unfold left? at hk
  cases hall : carryOutAll as (.empty .full) with
  | error e =>
    rw [hall] at hk
    cases hk
  | ok r =>
    rw [hall] at hk
    exact ⟨r.1, r.2, rfl, (Option.some.inj hk) ▸ hP⟩

/-- A vector that takes the shape of something else, and is then transposed by a constant order. -/
def shaped (type : TensorType) : List Addition :=
  [.parameter none type, .node none (.shapeOf .i64) [⟨0⟩], .parameter none ⟨.f32, .ofSizes [6]⟩,
    .node none (.reshape [] false) [⟨2⟩, ⟨1⟩], .constant none ⟨.i64 [1, 0], [2]⟩, .node none (.transpose none) [⟨3⟩, ⟨4⟩]]

theorem shaped_refinedBy {t t' : TensorType} (h : t.relaxes t' = true) : List.Forall₂ RefinedBy (shaped t) (shaped t') :=
  .cons (.parameter none h) (List.forall₂_same.2 (fun a ha => by
    simp only [List.mem_cons, List.not_mem_nil, or_false] at ha
    rcases ha with rfl | rfl | rfl | rfl | rfl
    · exact .node none (.same _) _
    · exact .parameter none rfl
    · exact .node none (.same _) _
    · exact .constant none _
    · exact .node none (.same _) _))

/-- The shape is known in the second run alone, and so are the sizes that it gives; the order says no more than the rank
to the first. -/
theorem keepsUp_shaped : List.Forall₂ RefinedBy (shaped ⟨.f32, .unknown⟩) (shaped ⟨.f32, .ofSizes [2, 3]⟩) ∧
    (∃ ids h, carryOutAll (shaped ⟨.f32, .ofSizes [2, 3]⟩) (.empty .full) = .ok (ids, h) ∧ h.OrdersFit ∧
      KeepsUp (carryOutAll (shaped ⟨.f32, .unknown⟩) (.empty .full)) ids h) ∧
    (left? (shaped ⟨.f32, .unknown⟩)).bind (·.type? ⟨5⟩) = some ⟨.f32, .ofRank 2⟩ ∧
    (left? (shaped ⟨.f32, .ofSizes [2, 3]⟩)).bind (·.type? ⟨5⟩) = some ⟨.f32, .ofSizes [3, 2]⟩ := by
  have hab : List.Forall₂ RefinedBy (shaped ⟨.f32, .unknown⟩) (shaped ⟨.f32, .ofSizes [2, 3]⟩) := shaped_refinedBy rfl
  have hleft : (left? (shaped ⟨.f32, .ofSizes [2, 3]⟩)).any (fun k => decide k.OrdersFit) = true := by decide +kernel
  obtain ⟨ids, h, hok, hfit⟩ : ∃ ids h, carryOutAll (shaped ⟨.f32, .ofSizes [2, 3]⟩) (.empty .full) = .ok (ids, h) ∧
      h.OrdersFit := exists_of_left? (by simpa [Option.any_eq_true] using hleft)
  obtain ⟨hiff, hfits⟩ := keepsUp_iff_fitAlong .full hab hok
  obtain ⟨ids', h', hok', hkeep⟩ := hiff.2 (hfits hfit) 6
  obtain ⟨rfl, rfl⟩ : ids = ids' ∧ h = h' := Prod.mk.inj (Except.ok.inj (hok.symm.trans hok'))
  exact ⟨hab, ⟨ids, h, hok, hfit, hkeep⟩, by decide +kernel, by decide +kernel⟩

/-- A transposition by a vector of three axes. -/
def ordered (type : TensorType) : List Addition :=
  [.parameter none type, .parameter none ⟨.i64, .ofSizes [3]⟩, .node none (.transpose none) [⟨0⟩, ⟨1⟩]]

/-- Of a matrix the transposition has two axes, and of something of unknown rank it has three: the first run neither
misses a rank nor relaxes what the second says. -/
theorem not_keepsUp_ordered : List.Forall₂ RefinedBy (ordered ⟨.f32, .unknown⟩) (ordered ⟨.f32, .ofSizes [2, 3]⟩) ∧
    ∃ ids h, carryOutAll (ordered ⟨.f32, .ofSizes [2, 3]⟩) (.empty .full) = .ok (ids, h) ∧
      h.type? ⟨2⟩ = some ⟨.f32, .ofRank 2⟩ ∧
      ¬ KeepsUp (carryOutAll (ordered ⟨.f32, .unknown⟩) (.empty .full)) ids h := by
  have hab : List.Forall₂ RefinedBy (ordered ⟨.f32, .unknown⟩) (ordered ⟨.f32, .ofSizes [2, 3]⟩) :=
    .cons (.parameter none rfl) (.cons (.parameter none rfl) (.cons (.node none (.same _) _) .nil))
  have hfirst : (left? (ordered ⟨.f32, .unknown⟩)).any (fun k => k.type? ⟨2⟩ = some ⟨.f32, .ofRank 3⟩) = true := by
    decide +kernel
  have hsecond : (left? (ordered ⟨.f32, .ofSizes [2, 3]⟩)).any (fun k => k.type? ⟨2⟩ = some ⟨.f32, .ofRank 2⟩) = true := by
    decide +kernel
  obtain ⟨_, g, hg, hthree⟩ : ∃ ids g, carryOutAll (ordered ⟨.f32, .unknown⟩) (.empty .full) = .ok (ids, g) ∧
      g.type? ⟨2⟩ = some ⟨.f32, .ofRank 3⟩ := exists_of_left? (by simpa [Option.any_eq_true] using hfirst)
  obtain ⟨ids, h, hh, htwo⟩ : ∃ ids h, carryOutAll (ordered ⟨.f32, .ofSizes [2, 3]⟩) (.empty .full) = .ok (ids, h) ∧
      h.type? ⟨2⟩ = some ⟨.f32, .ofRank 2⟩ := exists_of_left? (by simpa [Option.any_eq_true] using hsecond)
  refine ⟨hab, ids, h, hh, htwo, ?_⟩
  rintro (⟨_, _, herror⟩ | ⟨g', hg', hrelax⟩)
  · rw [hg] at herror
    cases herror
  · obtain ⟨-, rfl⟩ := Prod.mk.inj (Except.ok.inj (hg.symm.trans hg'))
    obtain ⟨t, ht, hrel⟩ := eq_some_of_rel (htwo ▸ hrelax ⟨2⟩)
    obtain rfl := Option.some.inj (hthree.symm.trans ht)
    exact absurd hrel (by decide)

end Addition
end TensorGraph
