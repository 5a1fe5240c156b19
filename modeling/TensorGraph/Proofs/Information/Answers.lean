import TensorGraph.Op.Error
import TensorGraph.Proofs.Information.Relaxes
/-!
# Answers — when one answer is no stricter than another

A rule that is asked about less should not refuse what it accepts when it is asked about more.
`NoStricter R x y` says this of two answers: if `y` is a success then so is `x`, with results that
stand in the relation `R`.  It passes through every step of which the rules are made.
-/
namespace TensorGraph

theorem bind_eq_ok {ε α β : Type} {x : Except ε α} {f : α → Except ε β} {b : β} :
    x >>= f = .ok b ↔ ∃ a, x = .ok a ∧ f a = .ok b := by
  cases x with
  | error e => exact ⟨nofun, nofun⟩
  | ok a => exact ⟨fun h => ⟨a, rfl, h⟩, fun ⟨_, ha, h⟩ => Except.ok.inj ha ▸ h⟩

theorem map_eq_ok {ε α β : Type} {x : Except ε α} {f : α → β} {b : β} : f <$> x = .ok b ↔ ∃ a, x = .ok a ∧ f a = b := by
  cases x with
  | error e => exact ⟨nofun, nofun⟩
  | ok a => exact ⟨fun h => ⟨a, rfl, Except.ok.inj h⟩, fun ⟨_, ha, h⟩ => Except.ok.inj ha ▸ h ▸ rfl⟩

theorem isOk_iff {ε α : Type} {x : Except ε α} : x.isOk = true ↔ ∃ a, x = .ok a := by
  cases x with
  | error e => exact ⟨nofun, nofun⟩
  | ok a => exact ⟨fun _ => ⟨a, rfl⟩, fun _ => rfl⟩

theorem mapError_eq_ok {ε ε' α : Type} {x : Except ε α} {f : ε → ε'} {a : α} : x.mapError f = .ok a ↔ x = .ok a := by
  cases x with
  | error e => exact ⟨nofun, nofun⟩
  | ok a' => exact ⟨fun h => Except.ok.inj h ▸ rfl, fun h => Except.ok.inj h ▸ rfl⟩

/-- A rule for one output makes a list of it. -/
theorem single_eq_ok {ε α : Type} {x : Except ε α} {outs : List α} :
    (x >>= fun a => .ok [a]) = .ok outs ↔ ∃ a, x = .ok a ∧ outs = [a] := by
  rw [bind_eq_ok]
  refine exists_congr (fun a => and_congr_right (fun _ => ?_))
  exact ⟨fun h => (Except.ok.inj h).symm, fun h => congrArg Except.ok h.symm⟩

/-- **The first answer is no stricter than the second**, and their results are related. -/
def NoStricter {ε ε' α β : Type} (R : α → β → Prop) (x : Except ε α) (y : Except ε' β) : Prop :=
  ∀ b, y = .ok b → ∃ a, x = .ok a ∧ R a b

namespace NoStricter

variable {ε ε' δ δ' α β γ γ' : Type} {R : α → β → Prop} {S : γ → γ' → Prop} {x : Except ε α} {y : Except ε' β}

theorem ok {a : α} {b : β} (h : R a b) : NoStricter R (.ok a : Except ε α) (.ok b : Except ε' β) :=
  fun _ hb => ⟨a, rfl, Except.ok.inj hb ▸ h⟩

/-- A result that is related to all others is always lax enough. -/
theorem of_ok {a : α} (h : ∀ b, R a b) : NoStricter R (.ok a : Except ε α) y := fun b _ => ⟨a, rfl, h b⟩

theorem of_error (e : ε') : NoStricter R x (.error e : Except ε' β) := fun _ hb => nomatch hb

theorem bind {f : α → Except ε γ} {g : β → Except ε' γ'} (h : NoStricter R x y)
    (hfg : ∀ a b, R a b → NoStricter S (f a) (g b)) : NoStricter S (x >>= f) (y >>= g) := by
  intro c hc
  cases y with
  | error e => cases hc
  | ok b =>
    obtain ⟨a, rfl, hab⟩ := h b rfl
    exact hfg a b hab c hc

/-- What the second does before it goes on makes it stricter, if anything. -/
theorem of_bind {g : β → Except ε' γ'} {z : Except ε γ} (h : ∀ b, NoStricter S z (g b)) : NoStricter S z (y >>= g) := by
  intro c hc
  cases y with
  | error e => cases hc
  | ok b => exact h b c hc

theorem map {f : α → γ} {g : β → γ'} (h : NoStricter R x y) (hfg : ∀ a b, R a b → S (f a) (g b)) :
    NoStricter S (f <$> x) (g <$> y) := by
  intro c hc
  cases y with
  | error e => cases hc
  | ok b =>
    obtain ⟨a, rfl, hab⟩ := h b rfl
    exact ⟨f a, rfl, Except.ok.inj hc ▸ hfg a b hab⟩

theorem mapError {f : ε → δ} {g : ε' → δ'} (h : NoStricter R x y) :
    NoStricter R (x.mapError f) (y.mapError g) := by
  intro b hb
  cases y with
  | error e => cases hb
  | ok b' =>
    obtain ⟨a, rfl, hab⟩ := h b' rfl
    exact ⟨a, rfl, Except.ok.inj hb ▸ hab⟩

/-- Two checks, of which the second refuses whatever the first does. -/
theorem check {c d : Prop} [Decidable c] [Decidable d] {u : Except ε α} {v : Except ε' β} {e : ε} {e' : ε'}
    (h : c → d) (huv : ¬ d → NoStricter R u v) :
    NoStricter R (if c then .error e else u) (if d then .error e' else v) := by
  by_cases hd : d
  · rw [if_pos hd]
    exact of_error e'
  · rw [if_neg hd, if_neg (fun hc => hd (h hc))]
    exact huv hd

theorem mono {R' : α → β → Prop} (h : NoStricter R x y) (hR : ∀ a b, R a b → R' a b) : NoStricter R' x y := by
  intro b hb
  obtain ⟨a, ha, hab⟩ := h b hb
  exact ⟨a, ha, hR a b hab⟩

theorem self (x : Except ε α) : NoStricter Eq x x := fun a ha => ⟨a, ha, rfl⟩

theorem foldlM {σ τ : Type} {S : σ → τ → Prop} {f : α → σ → Except ε α} {g : β → τ → Except ε' β} {as : List σ}
    {bs : List τ} (h : List.Forall₂ S as bs) {a : α} {b : β} (hab : R a b)
    (hfg : ∀ a b s t, R a b → S s t → NoStricter R (f a s) (g b t)) :
    NoStricter R (as.foldlM f a) (bs.foldlM g b) := by
  induction h generalizing a b with
  | nil => exact ok hab
  | cons hst _ ih =>
    rw [List.foldlM_cons, List.foldlM_cons]
    exact (hfg _ _ _ _ hab hst).bind (fun _ _ hab => ih hab)

end NoStricter

/-- Position by position, the first list of types claims no more. -/
abbrev TensorType.RelaxesAll : List TensorType → List TensorType → Prop := List.Forall₂ (fun s t => s.relaxes t = true)

/-- The first rule accepts whatever the second does, and claims no more. -/
abbrev Infer.Laxer : Except InferError TensorType → Except InferError TensorType → Prop :=
  NoStricter (fun s t => s.relaxes t = true)

end TensorGraph
