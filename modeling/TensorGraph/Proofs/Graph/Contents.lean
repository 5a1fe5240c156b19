import TensorGraph.Proofs.Graph.Known
import TensorGraph.Proofs.Op.Permutation
import TensorGraph.Proofs.Op.Reshape
import TensorGraph.Proofs.Rewrite.Typing
/-!
# Contents — known values and cached types tell the same

A value is known from one of two places, and its type comes from another: the data of a constant and
its sizes, or the sizes of a shape and the rank that was inferred.  In a graph whose types are up to
date the two agree, since the node that has the value was inferred with the same sizes in view.  The
value of a shape holds the sizes themselves, which `sizesOf?_eq_some_iff` says of both integer types
at once: there is a vector of that type with these numbers, or nothing is known.

A vector of sizes or axes is as long as its value if it passes `checkIntVector`, and a node that
reads one has let it pass.
-/
namespace TensorGraph

/-! ## Sizes and vectors of sizes -/

/-- A vector of the integer type can hold sizes below this. -/
def ElementType.sizeBound (output : ElementType) : Nat := if output = .i32 then 0x80000000 else signedLimit

/-- Integers that data holds are within the range of its type. -/
theorem ConstantData.lt_sizeBound {d : ConstantData} {sizes : List Nat} (h : d.ints? = some (sizes.map Int.ofNat)) :
    ∀ n ∈ sizes, n < d.elementType.sizeBound := by
  intro n hn
  have hmem : Int.ofNat n ∈ sizes.map Int.ofNat := List.mem_map_of_mem hn
  cases d with
  | i32 ws =>
    rw [← Option.some.inj h] at hmem
    obtain ⟨w, -, hw⟩ := List.mem_map.1 hmem
    exact ((Infer.toInt_i32_eq_iff w n).1 hw).1
  | i64 ws =>
    rw [← Option.some.inj h] at hmem
    obtain ⟨w, -, hw⟩ := List.mem_map.1 hmem
    exact ((Infer.toInt_i64_eq_iff w n).1 hw).1
  | _ => cases h

namespace Infer

theorem shape_of_vectorLength? {y : TensorType} {n : Nat} (h : vectorLength? y = some n) :
    y.shape = .ranked [.fixed n] := by
  unfold vectorLength? at h
  split at h
  · rename_i d hshape
    cases d with
    | fixed m => rw [hshape, Option.some.inj h]
    | dynamic => cases h
  · cases h

theorem oneOrTwo_eq_ok_iff {ins : List TensorType} {x : TensorType} {second : Option TensorType} :
    oneOrTwo ins = .ok (x, second) ↔ ins = x :: second.toList := by
  unfold oneOrTwo
  cases second with
  | none => split <;> simp_all
  | some y => split <;> simp_all

theorem checkIntVector_of_transpose {order : Option (List Nat)} {x y t : TensorType} {axes? : Option (List Int)}
    (h : transpose order x (some y) axes? = .ok t) : checkIntVector y 1 = .ok () := by
  unfold transpose at h
  cases order with
  | some order => cases h
  | none =>
    obtain ⟨⟨⟩, hcheck, -⟩ := bind_eq_ok.1 h
    exact hcheck

end Infer

/-- A node that reads a vector of sizes or axes has let it pass. -/
theorem Op.checkIntVector_of_inferTypes {op : Op} {ins outs : List TensorType} {values : List (Option ConstantData)}
    (hop : op.type = .reshape ∨ op.type = .transpose) (h : op.inferTypes ins values = .ok outs) {y : TensorType}
    (hy : ins[1]? = some y) : Infer.checkIntVector y 1 = .ok () := by
  have hsecond : ∀ {x : TensorType} {second : Option TensorType}, Infer.oneOrTwo ins = .ok (x, second) →
      second = some y := by
    intro x second hins
    rw [Infer.oneOrTwo_eq_ok_iff.1 hins] at hy
    cases second with
    | none => cases hy
    | some y' => exact hy
  cases op with
  | reshape target copyZeros =>
    obtain ⟨⟨x, second⟩, hins, h⟩ := bind_eq_ok.1 h
    obtain rfl := hsecond hins
    obtain ⟨t, ht, -⟩ := bind_eq_ok.1 h
    obtain ⟨⟨⟩, hcheck, -⟩ := bind_eq_ok.1 ht
    exact hcheck
  | transpose order =>
    obtain ⟨⟨x, second⟩, hins, h⟩ := bind_eq_ok.1 h
    obtain rfl := hsecond hins
    obtain ⟨t, ht, -⟩ := bind_eq_ok.1 h
    exact Infer.checkIntVector_of_transpose ht
  | _ => simp [Op.type] at hop

namespace Graph

variable {g : Graph}

theorem exists_type?_of_knownValue? {v : ValueId} {d : ConstantData} (hd : g.knownValue? v = some d) :
    ∃ t, g.type? v = some t := by
  unfold knownValue? knownValueUnder? at hd
  split at hd
  · cases hd
  rename_i p hp
  obtain ⟨val, hval, -⟩ := producer?_eq_some hp
  exact ⟨val.type, by rw [type?, hval]; rfl⟩

/-- What is known of a shape, told by the type of its only input. -/
theorem knownValue?_of_shapeOf (hg : g.TypeConsistent) {v : ValueId} {p : Node} {output : ElementType}
    (hp : g.producer? v = some p) (hop : p.op = .shapeOf output) : (output = .i32 ∨ output = .i64) ∧
      ∃ input x, p.inputs = [input] ∧ g.type? input = some x ∧ g.knownValue? v = Infer.sizesOf? output x := by
  obtain ⟨val, -, hnode⟩ := producer?_eq_some hp
  obtain ⟨ins, outs, hins, hvalid, -⟩ := typed_iff.1 (hg.typed hnode)
  replace hvalid := Op.inferTypes_of_validate hvalid
  rw [hop] at hvalid
  obtain ⟨x, hx, hvalid⟩ := bind_eq_ok.1 hvalid
  obtain ⟨t, ht, -⟩ := bind_eq_ok.1 hvalid
  obtain rfl := Infer.one_eq_ok.1 hx
  obtain ⟨input, hinput, htype⟩ := List.map_eq_singleton_iff.1 hins
  refine ⟨?_, input, x, hinput, htype, ?_⟩
  · unfold Infer.shapeOf at ht
    split at ht
    · assumption
    · cases ht
  · rw [knownValue?, knownValueUnder?, hp]
    simp only [hop, hinput, htype, Option.bind_some]

/-- **Known values agree with cached types.**  In a graph whose types are up to date:
- Data that is known of a value has the cached element type, and as many elements as the sizes of the cached shape make
  up; this is what `elementCount?` finds, as long as a word can count the elements of the list.
- The data that is known of a shape is the list of the sizes of the input, if they are known and fit the integer type.
- Where a reshaping or a transposition is told sizes or axes by its second input, the input is a vector of integers, and
  its cached type has their number. -/
theorem knownValue_agrees (hg : g.TypeConsistent) :
    (∀ v d, g.knownValue? v = some d → ∃ t sizes, g.type? v = some t ∧ d.elementType = t.element ∧
      t.shape = .ofSizes sizes ∧ sizes.prod = d.size ∧ (d.size < sizeLimit → t.shape.elementCount? = some d.size) ∧
      ∀ l, d.ints? = some l → Infer.checkIntVector t 1 = .ok () → t.shape = .ranked [.fixed l.length]) ∧
    (∀ v p output, g.producer? v = some p → p.op = .shapeOf output →
      ∃ input x, p.inputs = [input] ∧ g.type? input = some x ∧ ∀ d, g.knownValue? v = some d ↔
        d.elementType = output ∧ ∃ sizes, x.shape = .ofSizes sizes ∧ (∀ n ∈ sizes, n < output.sizeBound) ∧
          d.ints? = some (sizes.map Int.ofNat)) ∧
    ∀ id n, g.node? id = some n → n.op.type = .reshape ∨ n.op.type = .transpose →
      ∀ l, Infer.knownInts? (n.inputs.map g.knownValue?) 1 = some l → ∃ vector t, n.inputs[1]? = some vector ∧
        g.type? vector = some t ∧ Infer.checkIntVector t 1 = .ok () ∧ t.shape = .ranked [.fixed l.length] := by
  refine ⟨fun v d hd => ?_, fun v p output hp hop => ?_, fun id n hn hop l hl => ?_⟩
  · obtain ⟨t, ht⟩ := exists_type?_of_knownValue? hd
    have hconforms := conforms_of_knownValue? hg hd ht
    have ⟨helement, sizes, hshape, hprod⟩ := hconforms
    refine ⟨t, sizes, ht, helement.symm, hshape, hprod, fun hlt => ?_, fun l hl hcheck => ?_⟩
    · rw [hshape, ← hprod]
      exact Infer.elementCount?_sizes (hprod.symm ▸ hlt)
    · exact Infer.shape_of_vectorLength? (Infer.vectorLength?_of_conforms hconforms hl hcheck)
  · obtain ⟨hout, input, x, hinput, htype, hknown⟩ := knownValue?_of_shapeOf hg hp hop
    refine ⟨input, x, hinput, htype, fun d => ?_⟩
    have helement : (if output = .i32 then ElementType.i32 else .i64) = output := by
      rcases hout with rfl | rfl <;> rfl
    rw [hknown, Infer.sizesOf?_eq_some_iff, helement]
    constructor
    · rintro ⟨rfl, sizes, hshape, hints⟩
      exact ⟨rfl, sizes, hshape, ConstantData.lt_sizeBound hints, hints⟩
    · rintro ⟨helement, sizes, hshape, -, hints⟩
      exact ⟨helement, sizes, hshape, hints⟩
  · obtain ⟨d, hd, hints⟩ := Option.bind_eq_some_iff.1 hl
    rw [List.getElem?_map, Option.join_eq_some_iff] at hd
    obtain ⟨vector, hvector, hd⟩ := Option.map_eq_some_iff.1 hd
    obtain ⟨t, ht⟩ := exists_type?_of_knownValue? hd
    obtain ⟨ins, outs, hins, hvalid, -⟩ := typed_iff.1 (hg.typed hn)
    have hsecond : ins[1]? = some t := by
      have hi := congrArg (fun types => types[1]?) hins
      simpa [hvector, ht, eq_comm] using hi
    have hcheck := Op.checkIntVector_of_inferTypes hop (Op.inferTypes_of_validate hvalid) hsecond
    exact ⟨vector, t, hvector, ht, hcheck, Infer.shape_of_vectorLength?
      (Infer.vectorLength?_of_conforms (conforms_of_knownValue? hg hd ht) hints hcheck)⟩

/-- A matrix is transposed by a constant, and reshaped to the sizes of the result. -/
def restored : Graph :=
  [Edit.addParameter none ⟨.f32, .ofSizes [2, 3]⟩, .addConstant none ⟨.i64 [1, 0], [2]⟩,
    .addValue none (.transpose none) [⟨0⟩, ⟨1⟩], .addValue none (.shapeOf .i32) [⟨2⟩],
    .addValue none (.reshape [] false) [⟨0⟩, ⟨3⟩], .setResults [⟨4⟩]].foldl Edit.apply (.empty .full)

/-- Two vectors are known, and the second one holds the sizes that the order in the first one leads to. -/
theorem knownValue_agrees_restored : restored.TypeConsistent ∧ restored.knownValue? ⟨3⟩ = some (.i32 [3, 2]) ∧
    (∃ t, restored.type? ⟨3⟩ = some t ∧ t.element = .i32 ∧ t.shape.elementCount? = some 2) ∧
    (∃ x sizes, restored.type? ⟨2⟩ = some x ∧ x.shape = .ofSizes sizes ∧ sizes.map Int.ofNat = [3, 2] ∧
      ∀ n ∈ sizes, n < 0x80000000) ∧
    (∃ t, restored.type? ⟨1⟩ = some t ∧ Infer.checkIntVector t 1 = .ok () ∧ t.shape = .ranked [.fixed 2]) ∧
    ∃ t, restored.type? ⟨3⟩ = some t ∧ Infer.checkIntVector t 1 = .ok () ∧ t.shape = .ranked [.fixed 2] := by
  have hg : restored.TypeConsistent := typeConsistent_edits _ (by simp) (typeConsistent_empty _)
  have hturned : restored.node? ⟨2⟩ = some ⟨none, .transpose none, [⟨0⟩, ⟨1⟩], [⟨2⟩]⟩ := by decide +kernel
  have hproducer : restored.producer? ⟨3⟩ = some ⟨none, .shapeOf .i32, [⟨2⟩], [⟨3⟩]⟩ := by decide +kernel
  have hreshaped : restored.node? ⟨4⟩ = some ⟨none, .reshape [] false, [⟨0⟩, ⟨3⟩], [⟨4⟩]⟩ := by decide +kernel
  have hknown : restored.knownValue? ⟨3⟩ = some (.i32 [3, 2]) := by decide +kernel
  obtain ⟨hcached, hsizes, hvectors⟩ := knownValue_agrees hg
  obtain ⟨t, -, htype, helement, -, -, hcount, -⟩ := hcached ⟨3⟩ _ hknown
  obtain ⟨_, x, hinput, hx, hvalue⟩ := hsizes ⟨3⟩ _ .i32 hproducer rfl
  obtain ⟨-, sizes, hshape, hbound, hints⟩ := (hvalue _).1 hknown
  obtain ⟨_, order, horder, htorder, hchecked, hlength⟩ :=
    hvectors ⟨2⟩ _ hturned (Or.inr rfl) [1, 0] (by decide +kernel)
  obtain ⟨_, target, htarget, httarget, hchecked', hlength'⟩ :=
    hvectors ⟨4⟩ _ hreshaped (Or.inl rfl) [3, 2] (by decide +kernel)
  obtain rfl := (List.cons.inj hinput).1
  obtain rfl := Option.some.inj horder
  obtain rfl := Option.some.inj htarget
  exact ⟨hg, hknown, ⟨t, htype, helement.symm, hcount (by decide)⟩,
    ⟨x, sizes, hx, hshape, (Option.some.inj hints).symm, hbound⟩, ⟨order, htorder, hchecked, hlength⟩,
    ⟨target, httarget, hchecked', hlength'⟩⟩

end Graph
end TensorGraph
