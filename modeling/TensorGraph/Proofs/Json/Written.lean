import Mathlib.Data.List.DropRight
import Mathlib.Data.List.Forall2
import TensorGraph.Json.Compact
/-!
# Written — the reader takes back what is written

A text is written for a value if the reader, given the text and whatever may follow a value, takes off the text and
answers with the value.  What may follow is the end, a comma or a closing bracket: a number ends where its digits do,
and none of these is one.

Each way of putting texts together has one lemma, so that the reader never has to be run on a whole text.  A value needs
no more fuel than its text has characters.
-/
namespace TensorGraph
namespace Json

/-- What may stand behind a value: nothing, or the next character closes or separates. -/
def closes (rest : List Char) : Bool := rest.head?.all (fun c => c = ',' || c = ']' || c = '\x7d')

/-- **The text is written for the value.** -/
def Written (text : List Char) (j : Json) : Prop :=
  ∀ (fuel : Nat) (rest : List Char), text.length ≤ fuel → closes rest = true →
    value? fuel (text ++ rest) = some (j, rest)

variable {rest : List Char}

theorem closes_cases (h : closes rest = true) :
    rest = [] ∨ ∃ c more, rest = c :: more ∧ (c = ',' ∨ c = ']' ∨ c = '\x7d') := by
  cases rest with
  | nil => exact Or.inl rfl
  | cons c more => exact Or.inr ⟨c, more, rfl, by simpa [closes, or_assoc] using h⟩

theorem skipGaps_cons {c : Char} (h : isGap c = false) (cs : List Char) : skipGaps (c :: cs) = c :: cs := by
  rw [skipGaps, List.dropWhile_cons, h]
  rfl

/-! ## Numbers -/

theorem digitChar_ne_zero : ∀ n < 10, n ≠ 0 → n.digitChar ≠ '0' := by decide

/-- Digits do not start with a zero unless the number is zero. -/
theorem head?_toDigits_ne (n : Nat) (hn : n ≠ 0) : (Nat.toDigits 10 n).head? ≠ some '0' := by
  induction n using Nat.strongRecOn with
  | ind n ih =>
    rcases Nat.lt_or_ge n 10 with hlt | hge
    · rw [Nat.toDigits_of_lt_base hlt]
      exact fun h => digitChar_ne_zero n hlt hn (Option.some.inj h)
    · rw [Nat.toDigits_of_base_le (by decide) hge, List.head?_append_of_ne_nil _ Nat.toDigits_ne_nil]
      exact ih (n / 10) (Nat.div_lt_self (by omega) (by decide)) (by omega)

theorem isDigit_digits {n : Nat} {c : Char} (hc : c ∈ writeNumber n) : c.isDigit = true :=
  Nat.isDigit_of_mem_toDigits (by decide) (by decide) hc

theorem digits_eq_cons (n : Nat) : ∃ c cs, writeNumber n = c :: cs ∧ c.isDigit = true := by
  obtain ⟨c, cs, hcs⟩ := List.exists_cons_of_ne_nil (Nat.toDigits_ne_nil : Nat.toDigits 10 n ≠ [])
  have hmem : c ∈ writeNumber n := Eq.mpr (congrArg (c ∈ ·) hcs) List.mem_cons_self
  exact ⟨c, cs, hcs, isDigit_digits hmem⟩

theorem takeWhile_isDigit_closes (h : closes rest = true) : rest.takeWhile Char.isDigit = [] := by
  rcases closes_cases h with rfl | ⟨c, more, rfl, hc⟩
  · rfl
  · rw [List.takeWhile_cons_of_neg]
    rcases hc with rfl | rfl | rfl <;> decide

theorem dropWhile_isDigit_closes (h : closes rest = true) : rest.dropWhile Char.isDigit = rest := by
  rcases closes_cases h with rfl | ⟨c, more, rfl, hc⟩
  · rfl
  · rw [List.dropWhile_cons_of_neg]
    rcases hc with rfl | rfl | rfl <;> decide

/-- **Digits are read as the number that they write**, up to what is no digit. -/
theorem whole?_digits (n : Nat) (h : closes rest = true) : whole? (writeNumber n ++ rest) = some (n, rest) := by
  by_cases hn : n = 0
  · subst hn
    rfl
  have hdigits : ∀ c ∈ writeNumber n, c.isDigit = true := fun c => isDigit_digits
  have hhead : (writeNumber n).head? ≠ some '0' := head?_toDigits_ne n hn
  have hvalue : Nat.ofDigitChars 10 (writeNumber n) 0 = n := Nat.ofDigitChars_toDigits (by decide) (by decide)
  obtain ⟨c, cs, hcs, hc⟩ := digits_eq_cons n
  rw [hcs] at hdigits hhead hvalue ⊢
  replace hdigits := (List.forall_mem_cons.1 hdigits).2
  rw [List.cons_append, whole?, if_pos hc, List.takeWhile_append_of_pos hdigits, List.dropWhile_append_of_pos hdigits,
    takeWhile_isDigit_closes h, dropWhile_isDigit_closes h, List.append_nil, hvalue]
  exact fun he => hhead (congrArg some he)

/-- Behind a number there is neither a point nor an exponent. -/
theorem fraction?_closes (h : closes rest = true) : fraction? rest = some (false, rest) := by
  rcases closes_cases h with rfl | ⟨c, more, rfl, hc⟩
  · rfl
  · rcases hc with rfl | rfl | rfl <;> rfl

theorem exponent?_closes (h : closes rest = true) : exponent? rest = some (false, rest) := by
  rcases closes_cases h with rfl | ⟨c, more, rfl, hc⟩
  · rfl
  · rcases hc with rfl | rfl | rfl <;> rfl

/-- A digit starts a number and nothing else. -/
theorem value?_digit {c : Char} (hc : c.isDigit = true) (fuel : Nat) (cs : List Char) :
    value? (fuel + 1) (c :: cs) = number? false (c :: cs) := by
  have hgap : isGap c = false := by
    by_contra hgap
    simp only [isGap, Bool.not_eq_false, Bool.or_eq_true, decide_eq_true_eq] at hgap
    rcases hgap with ((rfl | rfl) | rfl) | rfl <;> cases hc
  rw [value?, skipGaps_cons hgap]
  split
  case h_8 => rfl
  all_goals
    -- the other alternatives start with characters that are no digits
    rename_i h
    rw [(List.cons.inj h).1] at hc
    cases hc

theorem written_number (n : Nat) : Written (writeNumber n) (.integer false n) := by
  intro fuel rest hfuel hrest
  obtain ⟨c, cs, hcs, hc⟩ := digits_eq_cons n
  obtain ⟨fuel, rfl⟩ : ∃ k, fuel = k + 1 := ⟨fuel - 1, by rw [hcs, List.length_cons] at hfuel; omega⟩
  have hnumber : number? false (writeNumber n ++ rest) = some (.integer false n, rest) := by
    rw [number?, whole?_digits n hrest]
    simp only [Option.bind_eq_bind, Option.bind_some, fraction?_closes hrest, exponent?_closes hrest]
    rfl
  rw [← hnumber, hcs, List.cons_append]
  exact value?_digit hc fuel _

theorem written_null : Written writeNull .null := by
  intro fuel rest hfuel _
  obtain ⟨fuel, rfl⟩ : ∃ k, fuel = k + 1 := ⟨fuel - 1, by simp only [writeNull, List.length_cons] at hfuel; omega⟩
  rfl

/-! ## Strings -/

/-- A character that stands for itself in a string. -/
def plain (c : Char) : Bool := c ≠ '"' && c ≠ '\\' && 0x20 ≤ c.toNat

theorem pieces?_plain {c : Char} (hc : plain c = true) (cs : List Char) :
    pieces? (c :: cs) = (pieces? cs).map (fun r => (.char c :: r.1, r.2)) := by
  simp only [plain, Bool.and_eq_true, decide_eq_true_eq] at hc
  obtain ⟨⟨hquote, hescape⟩, hprintable⟩ := hc
  rw [pieces?, if_neg (by omega)]
  · cases pieces? cs <;> rfl
  · exact hquote
  · rintro _ _ _ _ _ rfl
    exact absurd rfl hescape
  · rintro _ _ rfl
    exact absurd rfl hescape

theorem pieces?_of_plain : ∀ {cs : List Char}, cs.all plain = true → ∀ rest : List Char,
    pieces? (cs ++ '"' :: rest) = some (cs.map Piece.char, rest)
  | [], _, _ => by rw [List.nil_append, pieces?, List.map_nil]
  | c :: cs, h, rest => by
    obtain ⟨hc, hcs⟩ := Bool.and_eq_true_iff.1 (List.all_cons ▸ h)
    rw [List.cons_append, pieces?_plain hc, pieces?_of_plain hcs rest]
    rfl

theorem joinPieces?_char : ∀ cs : List Char, joinPieces? (cs.map Piece.char) = some cs
  | [] => rfl
  | c :: cs => by
    rw [List.map_cons, joinPieces?, joinPieces?_char cs]
    rfl

/-- **A string of plain characters is read as itself.** -/
theorem string?_of_plain {s : String} (h : s.toList.all plain = true) (rest : List Char) :
    string? (s.toList ++ '"' :: rest) = some (some s, rest) := by
  rw [string?, pieces?_of_plain h]
  simp only [Option.bind_eq_bind, Option.bind_some, joinPieces?_char, Option.map_some, String.ofList_toList]
  rfl

theorem written_string {s : String} (h : s.toList.all plain = true) : Written (writeString s) (.string (some s)) := by
  intro fuel rest hfuel _
  obtain ⟨fuel, rfl⟩ : ∃ k, fuel = k + 1 := ⟨fuel - 1, by simp [writeString] at hfuel; omega⟩
  have hvalue : value? (fuel + 1) ('"' :: (s.toList ++ '"' :: rest)) =
      (string? (s.toList ++ '"' :: rest)).map (fun r => (string r.1, r.2)) := rfl
  rw [writeString, List.append_assoc, List.cons_append, List.singleton_append, hvalue, string?_of_plain h]
  rfl

/-! ## Arrays and objects -/

/-- A value is not read where a closing bracket stands. -/
theorem value?_bracket (fuel : Nat) (cs : List Char) : value? fuel (']' :: cs) = none := by
  cases fuel <;> rfl

theorem value?_skipGaps (fuel : Nat) (cs : List Char) : value? fuel (skipGaps cs) = value? fuel cs := by
  cases fuel with
  | zero => rfl
  | succ fuel => rw [value?, value?, skipGaps, skipGaps, List.dropWhile_idempotent]

theorem items?_skipGaps (fuel : Nat) (cs : List Char) : items? fuel (skipGaps cs) = items? fuel cs := by
  cases fuel with
  | zero => rfl
  | succ fuel => rw [items?, items?, value?_skipGaps]

section

variable {fuel : Nat} {cs more : List Char} {x : Json} {xs : List Json}

theorem items?_last (h : value? fuel cs = some (x, ']' :: rest)) : items? (fuel + 1) cs = some ([x], rest) := by
  rw [items?, h]
  rfl

theorem items?_next (h : value? fuel cs = some (x, ',' :: more)) (hmore : items? fuel more = some (xs, rest)) :
    items? (fuel + 1) cs = some (x :: xs, rest) := by
  rw [items?, h]
  show (items? fuel more).bind (fun r => some (x :: r.1, r.2)) = _
  rw [hmore]
  rfl

theorem value?_array (h : items? fuel cs = some (xs, rest)) : value? (fuel + 1) ('[' :: cs) = some (array xs, rest) := by
  rw [value?, skipGaps_cons rfl]
  simp only
  split
  · rename_i more hclosed
    rw [← items?_skipGaps, hclosed] at h
    cases fuel with
    | zero => cases h
    | succ fuel =>
      rw [items?, value?_bracket] at h
      cases h
  · rw [items?_skipGaps, h]
    rfl

theorem fields?_last {name : Option String} (hname : string? cs = some (name, ':' :: more))
    (hvalue : value? fuel more = some (x, '\x7d' :: rest)) :
    fields? (fuel + 1) ('"' :: cs) = some ([(name, x)], rest) := by
  rw [fields?, skipGaps_cons rfl]
  show (string? cs).bind _ = _
  rw [hname]
  show (value? fuel more).bind _ = _
  rw [hvalue]
  rfl

end

/-- **Items with commas between them are read as the list of their values.** -/
theorem items?_commaSeparated : ∀ {texts : List (List Char)} {js : List Json}, List.Forall₂ Written texts js → texts ≠ [] →
    ∀ (fuel : Nat) (rest : List Char), (commaSeparated texts).length < fuel →
      items? fuel (commaSeparated texts ++ ']' :: rest) = some (js, rest)
  | _, _, .nil, hne, _, _, _ => absurd rfl hne
  | _, _, .cons h .nil, _, 0, _, hfuel => absurd hfuel (Nat.not_lt_zero _)
  | _, _, .cons h .nil, _, fuel + 1, rest, hfuel => items?_last (h fuel _ (Nat.le_of_lt_succ hfuel) rfl)
  | _, _, .cons h (.cons h' hs), _, 0, _, hfuel => absurd hfuel (Nat.not_lt_zero _)
  | _, _, .cons h (.cons h' hs), _, fuel + 1, rest, hfuel => by
    simp only [commaSeparated, List.length_append, List.length_cons] at hfuel
    rw [commaSeparated, List.append_assoc, List.cons_append]
    · refine items?_next (h fuel _ (by omega) rfl) (items?_commaSeparated (.cons h' hs) (List.cons_ne_nil _ _) fuel rest ?_)
      omega
    · exact List.cons_ne_nil _ _

theorem written_array {texts : List (List Char)} {js : List Json} (h : List.Forall₂ Written texts js) :
    Written ('[' :: commaSeparated texts ++ [']']) (.array js) := by
  intro fuel rest hfuel _
  simp only [List.length_append, List.length_cons] at hfuel
  obtain ⟨fuel, rfl⟩ : ∃ k, fuel = k + 1 := ⟨fuel - 1, by omega⟩
  cases h with
  | nil => rfl
  | cons hx hs =>
    rw [List.cons_append, List.cons_append, List.append_assoc]
    exact value?_array (items?_commaSeparated (.cons hx hs) (List.cons_ne_nil _ _) fuel rest (by simp at hfuel; omega))

/-- **An object with one field.** -/
theorem written_field {s : String} (hs : s.toList.all plain = true) {contents : List Char} {j : Json}
    (h : Written contents j) : Written (writeField s contents) (.object [(some s, j)]) := by
  intro fuel rest hfuel _
  have htext : writeField s contents ++ rest =
      '\x7b' :: '"' :: (s.toList ++ '"' :: (':' :: (contents ++ '\x7d' :: rest))) := by
    simp [writeField, writeString]
  have hlen : contents.length + 2 ≤ fuel := by
    simp [writeField, writeString] at hfuel
    omega
  obtain ⟨fuel, rfl⟩ : ∃ k, fuel = k + 2 := ⟨fuel - 2, by omega⟩
  have hobject : ∀ cs, value? (fuel + 2) ('\x7b' :: '"' :: cs) =
      (fields? (fuel + 1) ('"' :: cs)).map (fun r => (object r.1, r.2)) := fun _ => rfl
  rw [htext, hobject, fields?_last (string?_of_plain hs _) (h fuel _ (by omega) rfl)]
  rfl

/-- **What is written for a value is a text of it.** -/
theorem Written.parse? {text : List Char} {j : Json} (h : Written text j) : Json.parse? text = some j := by
  have hread := h (text.length + 1) [] (Nat.le_succ _) rfl
  rw [List.append_nil] at hread
  rw [Json.parse?, hread]
  rfl

end Json
end TensorGraph
