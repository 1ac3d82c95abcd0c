import Mathlib.Algebra.BigOperators.Pi
import Mathlib.Algebra.BigOperators.Group.Finset.Basic
import UrlShortener.General.Run

namespace Conservation
variable {ι α σ ε : Type}

/-- Replacing one of finitely many cells changes the total by what it changes
in that cell. -/
theorem sum_update [Fintype ι] [DecidableEq ι] (amount : α → Nat) (cells : ι → α) (k : ι) (cell : α) :
    (∑ j, amount (Function.update cells k cell j)) + amount (cells k) = (∑ j, amount (cells j)) + amount cell := by
  have others : ∑ j ∈ Finset.univ.erase k, amount (Function.update cells k cell j) =
      ∑ j ∈ Finset.univ.erase k, amount (cells j) := by
    refine Finset.sum_congr rfl fun j member => ?_
    rw [Function.update_of_ne (Finset.ne_of_mem_erase member)]
  have before := Finset.add_sum_erase Finset.univ (fun j => amount (cells j)) (Finset.mem_univ k)
  have after := Finset.add_sum_erase Finset.univ (fun j => amount (Function.update cells k cell j))
    (Finset.mem_univ k)
  rw [others] at after
  simp only [Function.update_self] at before after
  omega

theorem sum_update_of_eq [Fintype ι] [DecidableEq ι] {amount : α → Nat} {cells : ι → α} {k : ι} {cell : α}
    (same : amount cell = amount (cells k)) :
    ∑ j, amount (Function.update cells k cell j) = ∑ j, amount (cells j) := by
  have total := sum_update amount cells k cell
  omega

/-- Where every step adds the weight of its label, a run adds up those of its
trace. -/
theorem balance_of_run {step : σ → ε → σ → Prop} {total : σ → Nat} {counted : ε → Bool}
    (each : ∀ s label t, step s label t → total t = total s + if counted label then 1 else 0)
    {s t : σ} {trace : List ε} (run : Transition.Run step s trace t) :
    total t = total s + trace.countP counted := by
  induction run with
  | start => rfl
  | next _ taken ih => rw [each _ _ _ taken, ih, List.countP_append, List.countP_singleton, Nat.add_assoc]

end Conservation
