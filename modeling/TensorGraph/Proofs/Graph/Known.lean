import Mathlib.Algebra.BigOperators.Ring.List
import Mathlib.Algebra.GroupWithZero.Nat
import TensorGraph.Proofs.Graph.Typing
import TensorGraph.Proofs.Op.Monotone
/-!
# Known values — what is known before the graph runs

In a graph whose types are up to date a known value fills a tensor of the cached type.  If at least
as much is known of the inputs of a node, in another graph, then so it is of its outputs; the types
of both graphs have to be up to date for this, and the orders of transpositions have to fit.
-/
namespace TensorGraph

open TensorGraph.Graph

/-! ## Conforming values -/

theorem Dimension.foldlM_mul?_fixed : ∀ {sizes : List Nat} {a : Nat} {d : Dimension},
    (sizes.map Dimension.fixed).foldlM mul? (.fixed a) = some d → d = .fixed (a * sizes.prod)
  | [], a, d, h => by
    rw [← Option.some.inj h, List.prod_nil, Nat.mul_one]
  | n :: sizes, a, d, h => by
    rw [List.map_cons, List.foldlM_cons] at h
    obtain ⟨b, hb, h⟩ := Option.bind_eq_some_iff.1 h
    simp only [mul?, Option.ite_none_right_eq_some] at hb
    rw [← Option.some.inj hb.2] at h
    rw [foldlM_mul?_fixed h, List.prod_cons, Nat.mul_assoc]

/-- The number of elements of a static shape is the product of the sizes. -/
theorem Shape.prod_of_elementCount? {sizes : List Nat} {n : Nat} (h : (Shape.ofSizes sizes).elementCount? = some n) :
    sizes.prod = n := by
  unfold elementCount? ofSizes at h
  simp only at h
  split at h
  · rename_i hzero
    rw [← Option.some.inj h]
    have hmem : 0 ∈ sizes := by simpa [List.contains_iff_mem] using hzero
    exact List.prod_eq_zero hmem
  · obtain ⟨d, hprod, hd⟩ := Option.bind_eq_some_iff.1 h
    rw [Dimension.foldlM_mul?_fixed hprod, Nat.one_mul] at hd
    exact Option.some.inj hd

theorem Infer.conforms_of_constant {c : Constant} {t : TensorType} (h : Infer.constant c = .ok t) : c.data.Conforms t := by
  unfold Infer.constant at h
  simp only at h
  split at h
  · cases h
  · rename_i count hcount
    split at h
    · rename_i hsize
      rw [← Except.ok.inj h]
      exact ⟨rfl, c.sizes, rfl, (Shape.prod_of_elementCount? hcount).trans hsize.symm⟩
    · cases h

/-! ## Sizes as words -/

/-- A monadic map is decided entry by entry, if its answers can be told from what they stand for. -/
theorem mapM_eq_some_iff {α β γ : Type} {f : α → Option β} {meant : α → γ} {value : β → γ}
    (hf : ∀ a b, f a = some b ↔ value b = meant a) : ∀ {as : List α} {bs : List β},
      as.mapM f = some bs ↔ bs.map value = as.map meant
  | [], bs => by
    rw [List.mapM_nil, List.map_nil, List.map_eq_nil_iff]
    exact Option.some_inj.trans eq_comm
  | a :: as, [] => by
    rw [List.mapM_cons]
    simp [Option.bind_eq_some_iff]
  | a :: as, b :: bs => by
    rw [List.map_cons, List.map_cons, List.cons_eq_cons, ← hf, ← mapM_eq_some_iff hf, List.mapM_cons]
    simp [Option.bind_eq_some_iff]

theorem Infer.sizeBelow?_eq_some_iff {α : Type} {bound : Nat} {word : Nat → α} {n : Nat} {w : α} :
    sizeBelow? bound word n = some w ↔ n < bound ∧ word n = w := by
  rw [sizeBelow?, Option.ite_none_right_eq_some, Option.some_inj]

theorem Infer.toInt_i32_eq_iff (w : Int32) (n : Nat) : w.toInt = n ↔ n < 0x80000000 ∧ Int32.ofNat n = w := by
  constructor
  · intro h
    have hlt : n < 0x80000000 := by
      have := w.toInt_lt
      omega
    exact ⟨hlt, Int32.toInt.inj ((Int32.toInt_ofNat_of_lt hlt).trans h.symm)⟩
  · rintro ⟨hlt, rfl⟩
    exact Int32.toInt_ofNat_of_lt hlt

theorem Infer.toInt_i64_eq_iff (w : Int64) (n : Nat) : w.toInt = n ↔ n < signedLimit ∧ Int64.ofNat n = w := by
  constructor
  · intro h
    have hlt : n < signedLimit := by
      have := w.toInt_lt
      unfold signedLimit
      omega
    exact ⟨hlt, Int64.toInt.inj ((Int64.toInt_ofNat_of_lt hlt).trans h.symm)⟩
  · rintro ⟨hlt, rfl⟩
    exact Int64.toInt_ofNat_of_lt hlt

theorem Dimension.size?_eq_some_iff (d : Dimension) (n : Nat) : d.size? = some n ↔ fixed n = d := by
  cases d <;> simp [size?, eq_comm]

theorem Shape.sizes?_eq_some_iff {s : Shape} {sizes : List Nat} : s.sizes? = some sizes ↔ s = .ofSizes sizes := by
  cases s with
  | unknown => exact ⟨nofun, nofun⟩
  | ranked dims =>
    rw [sizes?, mapM_eq_some_iff Dimension.size?_eq_some_iff, List.map_id', ofSizes, Shape.ranked.injEq, eq_comm]

/-- **The value of a shape**: the vector of the integer type that holds the sizes, if they are known and there is one. -/
theorem Infer.sizesOf?_eq_some_iff {output : ElementType} {x : TensorType} {d : ConstantData} :
    sizesOf? output x = some d ↔ d.elementType = (if output = .i32 then .i32 else .i64) ∧
      ∃ sizes, x.shape = .ofSizes sizes ∧ d.ints? = some (sizes.map Int.ofNat) := by
  have h32 (n : Nat) (w : Int32) : sizeBelow? 0x80000000 Int32.ofNat n = some w ↔ w.toInt = Int.ofNat n :=
    sizeBelow?_eq_some_iff.trans (toInt_i32_eq_iff w n).symm
  have h64 (n : Nat) (w : Int64) : sizeBelow? signedLimit Int64.ofNat n = some w ↔ w.toInt = Int.ofNat n :=
    sizeBelow?_eq_some_iff.trans (toInt_i64_eq_iff w n).symm
  unfold sizesOf?
  simp only [← Shape.sizes?_eq_some_iff]
  cases x.shape.sizes? with
  | none => simp
  | some sizes =>
    dsimp only
    split
    · cases d <;> simp [ConstantData.elementType, ConstantData.ints?, mapM_eq_some_iff h32]
    · cases d <;> simp [ConstantData.elementType, ConstantData.ints?, mapM_eq_some_iff h64]

/-- The value of a shape fills a vector as long as the rank. -/
theorem Infer.conforms_of_shapeOf {output : ElementType} {x t : TensorType} {d : ConstantData}
    (ht : Infer.shapeOf output x = .ok t) (hd : Infer.sizesOf? output x = some d) : d.Conforms t := by
  obtain ⟨helement, sizes, hshape, hints⟩ := sizesOf?_eq_some_iff.1 hd
  have hrank : x.rank? = some d.size := by
    rw [length_of_ints? hints, TensorType.rank?, hshape]
    simp [Shape.ofSizes, Shape.rank?, Shape.dims?]
  unfold Infer.shapeOf at ht
  split at ht
  · rename_i hout
    rw [← Except.ok.inj ht, hrank]
    refine ⟨?_, [d.size], rfl, List.prod_singleton⟩
    rw [helement]
    rcases hout with rfl | rfl <;> rfl
  · cases ht

theorem Infer.sizesOf?_of_relaxes {output : ElementType} {x x' : TensorType} (h : x.relaxes x' = true) {d : ConstantData}
    (hd : Infer.sizesOf? output x = some d) : Infer.sizesOf? output x' = some d := by
  obtain ⟨-, sizes, hshape, -⟩ := sizesOf?_eq_some_iff.1 hd
  have hstatic : x.shape.isStatic = true := by
    rw [hshape]
    simp [Shape.ofSizes, Shape.isStatic, Dimension.isStatic]
  have hsame := Shape.eq_of_static_relaxes (TensorType.shape_relaxes h) hstatic
  unfold Infer.sizesOf? at hd ⊢
  rw [hsame]
  exact hd

namespace Graph

variable {g h : Graph}

/-- What a typed node has to do with the types and values of its inputs. -/
theorem typed_iff {n : Node} : g.Typed n ↔ ∃ ins outs, n.inputs.map g.type? = ins.map some ∧
    n.op.validate ins (n.inputs.map g.knownValue?) = .ok outs ∧ n.outputs.map g.type? = outs.map some := by
  unfold Typed
  simp only [inferOutputs_eq]
  constructor
  · rintro ⟨outs, hinf, hout⟩
    obtain ⟨ins, hins, hval⟩ := bind_eq_ok.1 hinf
    exact ⟨ins, outs, inputTypes_eq_ok_iff.1 hins, hval, hout⟩
  · rintro ⟨ins, outs, hins, hval, hout⟩
    exact ⟨outs, bind_eq_ok.2 ⟨ins, inputTypes_eq_ok_iff.2 hins, hval⟩, hout⟩

theorem type?_of_single {n : Node} {t : TensorType} (hout : n.outputs.map g.type? = [t].map some) {v : ValueId}
    (hv : v ∈ n.outputs) : g.type? v = some t := by
  have hmem : g.type? v ∈ [t].map some := hout ▸ List.mem_map_of_mem hv
  exact List.mem_singleton.1 hmem

/-- **A known value fills a tensor of the type that is cached for it.** -/
theorem conforms_of_knownValue? (hg : g.TypeConsistent) {v : ValueId} {d : ConstantData} {t : TensorType}
    (hd : g.knownValue? v = some d) (ht : g.type? v = some t) : d.Conforms t := by
  unfold knownValue? knownValueUnder? at hd
  split at hd
  · cases hd
  rename_i p hp
  obtain ⟨val, hval, hnode⟩ := producer?_eq_some hp
  obtain ⟨ins, outs, hins, hvalid, hout⟩ := typed_iff.1 (hg.typed hnode)
  have hv : v ∈ p.outputs := (hg.wellFormed.mem_outputs_iff hnode hval).2 rfl
  replace hvalid := Op.inferTypes_of_validate hvalid
  split at hd
  · rename_i c _ hop
    rw [hop] at hvalid
    obtain ⟨t', ht', hvalid⟩ := bind_eq_ok.1 hvalid
    obtain rfl := Except.ok.inj hvalid
    obtain rfl := Option.some.inj ((type?_of_single hout hv).symm.trans ht)
    rw [← Option.some.inj hd]
    exact Infer.conforms_of_constant ht'
  · rename_i output input rest hop hin
    rw [hop] at hvalid
    obtain ⟨x, hx, hvalid⟩ := bind_eq_ok.1 hvalid
    obtain ⟨t', ht', hvalid⟩ := bind_eq_ok.1 hvalid
    obtain rfl := Except.ok.inj hvalid
    obtain rfl := Option.some.inj ((type?_of_single hout hv).symm.trans ht)
    obtain ⟨x', hx', hd⟩ := Option.bind_eq_some_iff.1 hd
    rw [hin, List.map_cons, hx'] at hins
    obtain rfl := Infer.one_eq_ok.1 hx
    obtain rfl := Option.some.inj (List.cons.inj hins).1
    exact Infer.conforms_of_shapeOf ht' hd
  · cases hd

/-! ## Knowing more -/

/-- In the second graph at least as much is known of `w` as in the first of `v`. -/
structure KnowsMore (g : Graph) (v : ValueId) (h : Graph) (w : ValueId) : Prop where
  type : ∃ t t', g.type? v = some t ∧ h.type? w = some t' ∧ t.relaxes t' = true
  value : ∀ d, g.knownValue? v = some d → h.knownValue? w = some d

/-- A vector of unknown value that orders the axes of an input of known rank is empty or as long as the rank. -/
def orderFits (g : Graph) (n : Node) : Bool :=
  match n.op, n.inputs with
  | .transpose _, [x, y] =>
    match (g.knownValue? y).bind ConstantData.ints?, (g.type? y).bind Infer.vectorLength?,
      (g.type? x).bind TensorType.rank? with
    | none, some length, some rank => length = 0 || length = rank
    | _, _, _ => true
  | _, _ => true

/-- The orders of all transpositions fit. -/
def OrdersFit (g : Graph) : Prop := ∀ id ∈ g.nodeIds, (g.node? id).all g.orderFits = true

instance (g : Graph) : Decidable g.OrdersFit := inferInstanceAs (Decidable (∀ _ ∈ _, _))

theorem relaxesAll_of_knowsMore {vs ws : List ValueId} (hall : List.Forall₂ (fun v w => g.KnowsMore v h w) vs ws)
    {ts ts' : List TensorType} (hts : vs.map g.type? = ts.map some) (hts' : ws.map h.type? = ts'.map some) :
    TensorType.RelaxesAll ts ts' := by
  induction hall generalizing ts ts' with
  | nil =>
    obtain rfl := List.map_eq_nil_iff.1 hts.symm
    obtain rfl := List.map_eq_nil_iff.1 hts'.symm
    exact .nil
  | cons hvw _ ih =>
    obtain ⟨t, ts, rfl, hv, hts⟩ := List.map_eq_cons_iff.1 hts.symm
    obtain ⟨t', ts', rfl, hw, hts'⟩ := List.map_eq_cons_iff.1 hts'.symm
    obtain ⟨u, u', hu, hu', hrel⟩ := hvw.type
    obtain rfl := Option.some.inj (hv.trans hu)
    obtain rfl := Option.some.inj (hw.trans hu')
    exact .cons hrel (ih hts.symm hts'.symm)

theorem values_of_knowsMore {vs ws : List ValueId} (hall : List.Forall₂ (fun v w => g.KnowsMore v h w) vs ws) (i : Nat) :
    (vs.map g.knownValue?)[i]?.join = none ∨ (vs.map g.knownValue?)[i]?.join = (ws.map h.knownValue?)[i]?.join := by
  induction hall generalizing i with
  | nil => exact Or.inl rfl
  | @cons v w _ _ hvw _ ih =>
    cases i with
    | zero =>
      cases hd : g.knownValue? v with
      | none => exact Or.inl hd
      | some d => exact Or.inr (hd.trans (hvw.value d hd).symm)
    | succ i => exact ih i

/-- The values that are known of the inputs of a node conform to the types of the inputs. -/
theorem conforms_of_inputs (hh : h.TypeConsistent) {ws : List ValueId} {ts : List TensorType}
    (hts : ws.map h.type? = ts.map some) (i : Nat) (d : ConstantData) (t : TensorType)
    (hd : (ws.map h.knownValue?)[i]?.join = some d) (ht : ts[i]? = some t) : d.Conforms t := by
  rw [List.getElem?_map, Option.join_eq_some_iff] at hd
  obtain ⟨w, hw, hd⟩ := Option.map_eq_some_iff.1 hd
  have hi := congrArg (fun l => l[i]?) hts
  simp only [List.getElem?_map, hw, ht, Option.map_some] at hi
  exact conforms_of_knownValue? hh hd (Option.some.inj hi)

theorem lessKnown_of_knowsMore (hh : h.TypeConsistent) {vs ws : List ValueId} {ts ts' : List TensorType}
    (hall : List.Forall₂ (fun v w => g.KnowsMore v h w) vs ws) (hts : vs.map g.type? = ts.map some)
    (hts' : ws.map h.type? = ts'.map some) : LessKnown ts (vs.map g.knownValue?) ts' (ws.map h.knownValue?) :=
  ⟨relaxesAll_of_knowsMore hall hts hts', values_of_knowsMore hall, conforms_of_inputs hh hts'⟩

theorem type?_of_relaxesAll {vs : List ValueId} {ts ts' : List TensorType} (hall : TensorType.RelaxesAll ts ts')
    (hts : vs.map g.type? = ts.map some) (hts' : vs.map h.type? = ts'.map some) {v : ValueId} (hv : v ∈ vs) :
    ∃ t t', g.type? v = some t ∧ h.type? v = some t' ∧ t.relaxes t' = true := by
  induction hall generalizing vs with
  | nil =>
    obtain rfl := List.map_eq_nil_iff.1 hts
    cases hv
  | cons hrel _ ih =>
    obtain ⟨w, vs, rfl, hw, hrest⟩ := List.map_eq_cons_iff.1 hts
    obtain ⟨hw', hrest'⟩ := List.cons.inj hts'
    rcases List.mem_cons.1 hv with rfl | hv
    · exact ⟨_, _, hw, hw', hrel⟩
    · exact ih hrest hrest' hv

/-- The orders of the graph fit for the types of each of its nodes, and for any that claim less. -/
theorem OrdersFit.orderFits (hfit : h.OrdersFit) {id : NodeId} {n : Node} (hn : h.node? id = some n)
    {ts ts' : List TensorType} (hrel : TensorType.RelaxesAll ts ts') (hts' : n.inputs.map h.type? = ts'.map some) :
    n.op.OrderFits ts ts' (n.inputs.map h.knownValue?) := by
  unfold Op.OrderFits
  split
  · rename_i order x y x' y' hop
    obtain ⟨v, vs, hin, hv, hvs⟩ := List.map_eq_cons_iff.1 hts'
    obtain ⟨w, ws, rfl, hw, hws⟩ := List.map_eq_cons_iff.1 hvs
    obtain rfl := List.map_eq_nil_iff.1 hws
    intro hvalue _ length rank hlength hrank
    have hy := (List.forall₂_cons.1 (List.forall₂_cons.1 hrel).2).1
    have hnode := hfit id (mem_nodeIds.2 (by rw [hn]; rfl))
    rw [hin] at hvalue
    replace hvalue : (h.knownValue? w).bind ConstantData.ints? = none := hvalue
    rw [hn, Option.all_some, Graph.orderFits, hop, hin] at hnode
    simp only [hvalue, hv, hw, Option.bind_some, Infer.vectorLength?_of_relaxes hy hlength, hrank] at hnode
    simpa using hnode
  · trivial

/-- **Knowing more of the inputs of a node, one knows more of its outputs.** -/
theorem knowsMore_output (hg : g.TypeConsistent) (hh : h.TypeConsistent) (hfit : h.OrdersFit) {v : ValueId} {n n' : Node}
    (hn : g.producer? v = some n) (hn' : h.producer? v = some n') (hop : n'.op = n.op) (hout : n'.outputs = n.outputs)
    (hins : List.Forall₂ (fun v w => g.KnowsMore v h w) n.inputs n'.inputs) : g.KnowsMore v h v := by
  refine ⟨?_, fun d hd => ?_⟩
  · obtain ⟨val, hval, hnode⟩ := producer?_eq_some hn
    obtain ⟨val', _, hnode'⟩ := producer?_eq_some hn'
    obtain ⟨ts, outs, hts, hvalid, houts⟩ := typed_iff.1 (hg.typed hnode)
    obtain ⟨ts', outs', hts', hvalid', houts'⟩ := typed_iff.1 (hh.typed hnode')
    have hless := lessKnown_of_knowsMore hh hins hts hts'
    have hfits := hfit.orderFits hnode' hless.types hts'
    have hv : v ∈ n.outputs := (hg.wellFormed.mem_outputs_iff hnode hval).2 rfl
    rw [hout] at houts'
    rw [hop] at hvalid' hfits
    rcases Op.claimsNoMore_of_orderFits hless hvalid' hfits with ⟨_, _, _, _, _, _, herror⟩ | ⟨outs'', hvalid'', hrel⟩
    · rw [hvalid] at herror
      cases herror
    · obtain rfl := Except.ok.inj (hvalid.symm.trans hvalid'')
      exact type?_of_relaxesAll hrel houts houts' hv
  · unfold knownValue? knownValueUnder? at hd ⊢
    rw [hn] at hd
    rw [hn']
    dsimp only at hd ⊢
    rw [hop]
    split at hd
    · rename_i c _ hconstant
      rw [hconstant]
      exact hd
    · rename_i output input rest hshape hinputs
      rw [hinputs] at hins
      obtain ⟨input', rest', hhead, -, hinputs'⟩ := List.forall₂_cons_left_iff.1 hins
      obtain ⟨t, t', ht, ht', hrel⟩ := hhead.type
      rw [ht, Option.bind_some] at hd
      rw [hshape, hinputs']
      dsimp only
      rw [ht', Option.bind_some]
      exact Infer.sizesOf?_of_relaxes hrel hd
    · cases hd

end Graph
end TensorGraph
