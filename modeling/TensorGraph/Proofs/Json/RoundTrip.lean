import TensorGraph.Proofs.Information.Join
import TensorGraph.Proofs.Json.Written
import TensorGraph.Serial
/-!
# Round trips — serialised things are read back as they were

What is asked of a layer (`ReadsBack`) is one thing for each kind of value and of declaration: a plain value is read
back from its text, and a word, an option, a list, a structure or a choice is coded as a plain value of a kind of its
own, from which the parts are told again.  Nothing is asked about the types of this library.

A coder is sound if the thing is told from the value that it is coded as.  Every way to put declarations together keeps
coders sound, so those of dimensions, shapes, element types and numbers are; then texts are read back, and they differ
where things do.

The compact layer is one of which all this holds.
-/
namespace TensorGraph

namespace Json

/-- Numbers fit words, and no string has characters that must be escaped. -/
inductive Plain.Legible : Plain → Prop where
  | null : Legible .null
  | number {n : Nat} (h : n < sizeLimit) : Legible (.number n)
  | string {s : String} (h : s.toList.all plain = true) : Legible (.string s)
  | array {items : List Plain} (h : ∀ p ∈ items, Legible p) : Legible (.array items)
  | field {s : String} {p : Plain} (hs : s.toList.all plain = true) (h : Legible p) : Legible (.field s p)

end Json

open Json (Plain)

/-- **The layer reads back what it writes**, and codes declarations as they are documented: an option as its contents or
`null`, a list as an array, a structure as an object unless its field has no name, and a choice as the name of the
alternative or an object with the name and the contents. -/
structure JsonLayer.ReadsBack (L : JsonLayer) : Prop where
  read?_write : ∀ {p : Plain}, p.Legible → L.read? (L.write p) = some p.toJson
  toPlain_word : ∀ bound n : Nat, (L.word bound).toPlain n = .number n
  ofJson?_word : ∀ {bound n : Nat}, n < bound → (L.word bound).ofJson? (Plain.number n).toJson = some n
  toPlain_none : ∀ {α : Type} (c : Coder α), (L.option c).toPlain none = .null
  toPlain_some : ∀ {α : Type} (c : Coder α) (a : α), (L.option c).toPlain (some a) = c.toPlain a
  ofJson?_null : ∀ {α : Type} (c : Coder α), (L.option c).ofJson? Plain.null.toJson = some none
  ofJson?_option : ∀ {α : Type} (c : Coder α) {p : Plain}, p ≠ .null →
    (L.option c).ofJson? p.toJson = (c.ofJson? p.toJson).map some
  toPlain_list : ∀ {α : Type} (c : Coder α) (as : List α), (L.list c).toPlain as = .array (as.map c.toPlain)
  ofJson?_list : ∀ {α : Type} (c : Coder α) (items : List Plain),
    (L.list c).ofJson? (Plain.array items).toJson = items.mapM (fun p => c.ofJson? p.toJson)
  toPlain_record : ∀ {α : Type} (c : Coder α) (s : String) (a : α), (L.record s c).toPlain a = .field s (c.toPlain a)
  ofJson?_record : ∀ {α : Type} (c : Coder α) (s : String) (p : Plain),
    (L.record s c).ofJson? (Plain.field s p).toJson = c.ofJson? p.toJson
  toPlain_newtype : ∀ {α : Type} (c : Coder α) (a : α), (L.newtype c).toPlain a = c.toPlain a
  ofJson?_newtype : ∀ {α : Type} (c : Coder α) (p : Plain), (L.newtype c).ofJson? p.toJson = c.ofJson? p.toJson
  toPlain_unit : ∀ {α : Type} (c : Coder α) (units payloads : List String) (s : String), s ∈ units →
    (L.choice units payloads c).toPlain (s, none) = .string s
  ofJson?_unit : ∀ {α : Type} (c : Coder α) (units payloads : List String) (s : String), s ∈ units →
    (L.choice units payloads c).ofJson? (Plain.string s).toJson = some (s, none)
  toPlain_payload : ∀ {α : Type} (c : Coder α) (units payloads : List String) (s : String), s ∈ payloads →
    ∀ a : α, (L.choice units payloads c).toPlain (s, some a) = .field s (c.toPlain a)
  ofJson?_payload : ∀ {α : Type} (c : Coder α) (units payloads : List String) (s : String), s ∈ payloads →
    ∀ p : Plain, (L.choice units payloads c).ofJson? (Plain.field s p).toJson =
      (c.ofJson? p.toJson).map (fun a => (s, some a))

/-! ## Coders -/

/-- **What fits is told from the value that it is coded as.** -/
structure Coder.Sound {α : Type} (c : Coder α) (fits : α → Prop) : Prop where
  legible : ∀ {a : α}, fits a → (c.toPlain a).Legible
  ofJson?_toPlain : ∀ {a : α}, fits a → c.ofJson? (c.toPlain a).toJson = some a

theorem Coder.Sound.via {α β : Type} {c : Coder β} {fits : β → Prop} {fits' : α → Prop} (h : c.Sound fits)
    {parts : α → β} {ofParts? : β → Option α} (hfits : ∀ {a}, fits' a → fits (parts a))
    (hparts : ∀ a, ofParts? (parts a) = some a) : (c.via parts ofParts?).Sound fits' where
  legible ha := h.legible (hfits ha)
  ofJson?_toPlain {a} ha := by
    show (c.ofJson? (c.toPlain (parts a)).toJson).bind ofParts? = some a
    rw [h.ofJson?_toPlain (hfits ha), Option.bind_some, hparts]

namespace JsonLayer.ReadsBack

variable {L : JsonLayer} {α : Type} {c : Coder α} {fits : α → Prop}

theorem sound_word (hL : L.ReadsBack) {bound : Nat} (hbound : bound ≤ sizeLimit) : (L.word bound).Sound (· < bound) where
  legible {n} hn := by
    rw [hL.toPlain_word]
    exact .number (Nat.lt_of_lt_of_le hn hbound)
  ofJson?_toPlain {n} hn := by rw [hL.toPlain_word, hL.ofJson?_word hn]

/-- The contents of an option must not be coded as `null`. -/
theorem sound_option (hL : L.ReadsBack) (hc : c.Sound fits) (hnull : ∀ a, c.toPlain a ≠ .null) :
    (L.option c).Sound (fun o => ∀ a, o = some a → fits a) where
  legible {o} ho := by
    cases o with
    | none =>
      rw [hL.toPlain_none]
      exact .null
    | some a =>
      rw [hL.toPlain_some]
      exact hc.legible (ho a rfl)
  ofJson?_toPlain {o} ho := by
    cases o with
    | none => rw [hL.toPlain_none, hL.ofJson?_null]
    | some a => rw [hL.toPlain_some, hL.ofJson?_option c (hnull a), hc.ofJson?_toPlain (ho a rfl), Option.map_some]

theorem mapM_ofJson?_toPlain (hc : c.Sound fits) : ∀ {as : List α}, (∀ a ∈ as, fits a) →
    (as.map c.toPlain).mapM (fun p => c.ofJson? p.toJson) = some as
  | [], _ => rfl
  | a :: as, h => by
    obtain ⟨ha, has⟩ := List.forall_mem_cons.1 h
    rw [List.map_cons, List.mapM_cons, hc.ofJson?_toPlain ha, mapM_ofJson?_toPlain hc has]
    rfl

theorem sound_list (hL : L.ReadsBack) (hc : c.Sound fits) : (L.list c).Sound (fun as => ∀ a ∈ as, fits a) where
  legible {as} has := by
    rw [hL.toPlain_list]
    exact .array (List.forall_mem_map.2 (fun a ha => hc.legible (has a ha)))
  ofJson?_toPlain {as} has := by rw [hL.toPlain_list, hL.ofJson?_list, mapM_ofJson?_toPlain hc has]

theorem sound_record (hL : L.ReadsBack) (hc : c.Sound fits) {s : String} (hs : s.toList.all Json.plain = true) :
    (L.record s c).Sound fits where
  legible ha := by
    rw [hL.toPlain_record]
    exact .field hs (hc.legible ha)
  ofJson?_toPlain ha := by rw [hL.toPlain_record, hL.ofJson?_record, hc.ofJson?_toPlain ha]

theorem sound_newtype (hL : L.ReadsBack) (hc : c.Sound fits) : (L.newtype c).Sound fits where
  legible ha := by
    rw [hL.toPlain_newtype]
    exact hc.legible ha
  ofJson?_toPlain ha := by rw [hL.toPlain_newtype, hL.ofJson?_newtype, hc.ofJson?_toPlain ha]

/-- An alternative that is declared, with contents if it is declared with contents, and these fit. -/
def Chosen (units payloads : List String) (fits : α → Prop) : String × Option α → Prop
  | (s, none) => s ∈ units ∧ s.toList.all Json.plain = true
  | (s, some a) => s ∈ payloads ∧ s.toList.all Json.plain = true ∧ fits a

theorem sound_choice (hL : L.ReadsBack) (hc : c.Sound fits) {units payloads : List String} :
    (L.choice units payloads c).Sound (Chosen units payloads fits) where
  legible {v} hv := by
    obtain ⟨s, _ | a⟩ := v
    · rw [hL.toPlain_unit c _ _ _ hv.1]
      exact .string hv.2
    · rw [hL.toPlain_payload c _ _ _ hv.1]
      exact .field hv.2.1 (hc.legible hv.2.2)
  ofJson?_toPlain {v} hv := by
    obtain ⟨s, _ | a⟩ := v
    · rw [hL.toPlain_unit c _ _ _ hv.1, hL.ofJson?_unit c _ _ _ hv.1]
    · rw [hL.toPlain_payload c _ _ _ hv.1, hL.ofJson?_payload c _ _ _ hv.1, hc.ofJson?_toPlain hv.2.2, Option.map_some]

/-! ## The types of this library -/

theorem sound_dimension (hL : L.ReadsBack) : L.dimension.Sound Dimension.Sized := by
  refine (hL.sound_choice (hL.sound_word (Nat.le_refl sizeLimit))).via (fun {d} hd => ?_) (fun d => ?_)
  · cases d with
    | fixed n => exact ⟨List.mem_singleton_self _, by decide, Dimension.sized_fixed.1 hd⟩
    | dynamic => exact ⟨List.mem_singleton_self _, by decide⟩
  · cases d <;> rfl

/-- An unknown rank is not mistaken for rank 0, since a list is not coded as `null`. -/
theorem sound_shape (hL : L.ReadsBack) : L.shape.Sound Shape.Sized := by
  have hnull : ∀ dims, (L.list L.dimension).toPlain dims ≠ .null := fun dims => by
    rw [hL.toPlain_list]
    exact Plain.noConfusion
  refine (hL.sound_record (hL.sound_option (hL.sound_list hL.sound_dimension) hnull) (by decide)).via
    (fun {s} hs dims hdims => ?_) (fun s => ?_)
  · cases s with
    | unknown => cases hdims
    | ranked ds => exact Option.some.inj hdims ▸ hs
  · cases s <;> rfl

theorem sound_elementType (hL : L.ReadsBack) : L.elementType.Sound (fun _ => True) := by
  refine (hL.sound_choice (hL.sound_word (Nat.zero_le sizeLimit))).via (fun {t} _ => ?_) (fun t => ?_)
  · exact ⟨List.mem_map_of_mem (ElementType.mem_all t), by cases t <;> decide⟩
  · cases t <;> rfl

theorem sound_half (hL : L.ReadsBack) : L.half.Sound (fun _ => True) := by
  refine (hL.sound_newtype (hL.sound_word (by decide))).via (fun {x} _ => x.bits.toNat_lt) (fun x => ?_)
  rw [UInt16.ofNat_toNat]

end JsonLayer.ReadsBack

/-- **The texts of a kind of thing are faithful**: what fits is read back as it was, and different things have different
texts. -/
structure JsonLayer.Faithful {α : Type} (L : JsonLayer) (c : Coder α) (fits : α → Prop) : Prop where
  valueOf?_textOf : ∀ a, fits a → L.valueOf? c (L.textOf c a) = some a
  injective : ∀ a b, fits a → fits b → L.textOf c a = L.textOf c b → a = b

namespace JsonLayer

variable {L : JsonLayer}

theorem ReadsBack.faithful {α : Type} {c : Coder α} {fits : α → Prop} (hL : L.ReadsBack) (hc : c.Sound fits) :
    L.Faithful c fits := by
  have hread : ∀ a, fits a → L.valueOf? c (L.textOf c a) = some a := fun a ha => by
    rw [valueOf?, textOf, hL.read?_write (hc.legible ha), Option.bind_some, hc.ofJson?_toPlain ha]
  refine ⟨hread, fun a b ha hb hab => ?_⟩
  have hsame := hread a ha
  rw [hab, hread b hb] at hsame
  exact (Option.some.inj hsame).symm

/-- **Serialisation loses nothing**, in any layer that reads back what it writes: dimensions and shapes whose sizes fit
words, element types, and numbers of half precision with all their bits. -/
theorem texts_faithful (hL : L.ReadsBack) :
    L.Faithful L.dimension Dimension.Sized ∧ L.Faithful L.shape Shape.Sized ∧
    L.Faithful L.elementType (fun _ => True) ∧ L.Faithful L.half (fun _ => True) :=
  ⟨hL.faithful hL.sound_dimension, hL.faithful hL.sound_shape, hL.faithful hL.sound_elementType,
    hL.faithful hL.sound_half⟩

end JsonLayer

/-! ## The compact layer -/

namespace Json

/-- **Plain values are written so that they are read back.** -/
theorem Plain.Legible.written {p : Plain} (h : p.Legible) : Written p.write p.toJson := by
  induction h with
  | null => exact written_null
  | number => exact written_number _
  | string h => exact written_string h
  | array _ ih =>
    rw [Plain.write, Plain.toJson, Plain.writeAll_eq, Plain.toJsons_eq]
    refine written_array ?_
    rw [List.forall₂_map_left_iff, List.forall₂_map_right_iff, List.forall₂_same]
    exact ih
  | field hs _ ih => exact written_field hs ih

end Json

namespace Coder

variable {α : Type} (c : Coder α)

theorem ofJson?_option {p : Plain} (h : p ≠ .null) : c.option.ofJson? p.toJson = (c.ofJson? p.toJson).map some := by
  cases p with
  | null => exact absurd rfl h
  | _ => rfl

theorem ofJson?_list (items : List Plain) :
    c.list.ofJson? (Plain.array items).toJson = items.mapM (fun p => c.ofJson? p.toJson) := by
  show (Plain.toJsons items).mapM c.ofJson? = _
  rw [Plain.toJsons_eq, List.mapM_map]
  rfl

theorem ofJson?_record (s : String) (p : Plain) :
    (c.record s).ofJson? (Plain.field s p).toJson = c.ofJson? p.toJson := by
  simp [record, Plain.toJson]

end Coder

theorem JsonLayer.compact_readsBack : compact.ReadsBack where
  read?_write {p} h := by
    show Json.parse? (String.ofList p.write).toList = some p.toJson
    rw [String.toList_ofList]
    exact h.written.parse?
  toPlain_word _ _ := rfl
  ofJson?_word h := if_pos h
  toPlain_none _ := rfl
  toPlain_some _ _ := rfl
  ofJson?_null _ := rfl
  ofJson?_option c := c.ofJson?_option
  toPlain_list _ _ := rfl
  ofJson?_list c := c.ofJson?_list
  toPlain_record _ _ _ := rfl
  ofJson?_record c := c.ofJson?_record
  toPlain_newtype _ _ := rfl
  ofJson?_newtype _ _ := rfl
  toPlain_unit _ _ _ _ _ := rfl
  ofJson?_unit _ _ _ _ h := if_pos h
  toPlain_payload _ _ _ _ _ _ := rfl
  ofJson?_payload _ _ _ _ h _ := if_pos h

namespace Serial

open JsonLayer (compact compact_readsBack)

/-- The largest size, a size that is not known, and none at all. -/
def extremes : Shape := .ranked [.fixed 18446744073709551615, .dynamic, .fixed 0]

/-- The compact layer keeps them apart, and it keeps an unknown rank from rank 0, and the payload of a NaN. -/
theorem texts_faithful_compact : compact.ReadsBack ∧ extremes.Sized ∧
    shapeText extremes =
      "\x7b\"dims\":[\x7b\"Fixed\":18446744073709551615\x7d,\"Dynamic\",\x7b\"Fixed\":0\x7d]\x7d" ∧
    shape? (shapeText extremes) = some extremes ∧
    shapeText .unknown = "\x7b\"dims\":null\x7d" ∧ shapeText .unknown ≠ shapeText (.ranked []) ∧
    dimensionText .dynamic ≠ dimensionText (.fixed 0) ∧ elementType? (elementTypeText .bf16) = some .bf16 ∧
    halfText ⟨0xFE01⟩ = "65025" ∧ half? (halfText ⟨0xFE01⟩) = some ⟨0xFE01⟩ := by
  obtain ⟨hdimension, hshape, helementType, hhalf⟩ := JsonLayer.texts_faithful compact_readsBack
  have hsized : extremes.Sized := by
    simp [extremes, Shape.Sized, Dimension.Sized, sizeLimit]
  have hopen : Dimension.dynamic.Sized := fun _ hn => by cases hn
  refine ⟨compact_readsBack, hsized, by decide +kernel, hshape.valueOf?_textOf _ hsized, by decide +kernel, fun h => ?_,
    fun h => ?_, helementType.valueOf?_textOf _ trivial, by decide +kernel, hhalf.valueOf?_textOf _ trivial⟩
  · exact Shape.noConfusion (hshape.injective .unknown (.ranked []) trivial (List.forall_mem_nil _) h)
  · exact Dimension.noConfusion (hdimension.injective .dynamic (.fixed 0) hopen (Dimension.sized_fixed.2 (by decide)) h)

end Serial
end TensorGraph
