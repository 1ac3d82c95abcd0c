import Mathlib.Data.Option.Basic

namespace Machine
variable {σ : Type}

/-- Takes steps for as long as there is a next one; `none` if the fuel does not
last to the end. -/
def complete (step : σ → Option σ) : Nat → σ → Option σ
  | 0, _ => none
  | fuel + 1, s => match step s with
    | none => some s
    | some t => complete step fuel t

variable {step : σ → Option σ} {good : σ → Prop} {s : σ} {fuel : Nat}

/-- An invariant with a variant: from a good state the machine comes to its end,
and the end is good. -/
theorem complete_ends (rank : σ → Nat)
    (descends : ∀ a b, good a → step a = some b → good b ∧ rank b < rank a)
    (start : good s) (enough : rank s < fuel) :
    ∃ t, complete step fuel s = some t ∧ good t ∧ step t = none := by
  induction fuel generalizing s with
  | zero => exact absurd enough (Nat.not_lt_zero _)
  | succ fuel ih =>
    cases taken : step s with
    | none => exact ⟨s, by rw [complete, taken], start, taken⟩
    | some t =>
      obtain ⟨kept, lower⟩ := descends s t start taken
      obtain ⟨last, reached, ends⟩ := ih kept (by omega)
      exact ⟨last, by rw [complete, taken]; exact reached, ends⟩

end Machine
