import Mathlib.Algebra.Order.Field.Basic
import Mathlib.Algebra.Order.BigOperators.Group.List
import Mathlib.Tactic.Linarith
import Mathlib.Tactic.Ring

namespace Allowance

section Windows
variable {𝕜 : Type} [Field 𝕜] [LinearOrder 𝕜] [IsStrictOrderedRing 𝕜]

/-- When the window that opens with the `j`-th grant begins; the empty window
past the last grant begins at `now`. -/
def opensAt (grants : List (𝕜 × 𝕜)) (now : 𝕜) (j : Nat) : 𝕜 :=
  (grants[j]?.map Prod.fst).getD now

/-- The amount `x` asked for at `now` fits every window of the grants, a list
of times and amounts, under a burst of `capacity` and a long-run `rate`. -/
def Fits (capacity rate : 𝕜) (grants : List (𝕜 × 𝕜)) (now x : 𝕜) : Prop :=
  ∀ j ≤ grants.length,
    ((grants.drop j).map Prod.snd).sum + x ≤ capacity + rate * (now - opensAt grants now j)

omit [IsStrictOrderedRing 𝕜] in
theorem fits_nil {capacity rate now x : 𝕜} : Fits capacity rate [] now x ↔ x ≤ capacity := by
  simp [Fits, opensAt]

/-- A window that also holds one more grant is a shorter window, asked at that
grant's time for the amount not regained since. -/
theorem fits_snoc {capacity rate now x t a : 𝕜} {grants : List (𝕜 × 𝕜)} :
    Fits capacity rate (grants ++ [(t, a)]) now x ↔
      x ≤ capacity ∧ Fits capacity rate grants t (x + a - rate * (now - t)) := by
  have older (j : Nat) (bound : j ≤ grants.length) :
      opensAt (grants ++ [(t, a)]) now j = opensAt grants t j := by
    rcases bound.lt_or_eq with inside | last
    · simp only [opensAt, List.getElem?_append_left inside, List.getElem?_eq_getElem inside,
        Option.map_some, Option.getD_some]
    · simp [opensAt, last]
  constructor
  · intro fits
    constructor
    · have whole := fits (grants.length + 1) (by simp)
      simpa [opensAt] using whole
    · intro j bound
      have window := fits j (bound.trans (by simp))
      rw [List.drop_append_of_le_length bound, older j bound] at window
      simp only [List.map_append, List.map_cons, List.map_nil, List.sum_append, List.sum_cons,
        List.sum_nil] at window
      linarith
  · rintro ⟨burst, fits⟩ j bound
    rw [List.length_append, List.length_singleton] at bound
    rcases bound.lt_or_eq with inside | last
    · have within : j ≤ grants.length := Nat.lt_succ_iff.mp inside
      have window := fits j within
      rw [List.drop_append_of_le_length within, older j within]
      simp only [List.map_append, List.map_cons, List.map_nil, List.sum_append, List.sum_cons,
        List.sum_nil]
      linarith
    · subst last
      simpa [opensAt] using burst

end Windows

/-- How far a list of readings climbs in total, falls not subtracted. -/
def climb : List Int → Int
  | t :: u :: rest => max 0 (u - t) + climb (u :: rest)
  | _ => 0

/-- The largest reading of a list less its smallest. -/
def spread (times : List Int) : Int :=
  times.foldr max (times.headD 0) - times.foldr min (times.headD 0)

theorem climb_cons_cons (t u : Int) (rest : List Int) :
    climb (t :: u :: rest) = max 0 (u - t) + climb (u :: rest) := rfl

theorem climb_le_max {t : Int} {rest : List Int} (ordered : (t :: rest).Pairwise (· ≤ ·)) (m : Int) :
    climb (t :: rest) + t ≤ (t :: rest).foldr max m := by
  induction rest generalizing t with
  | nil => exact (zero_add t).le.trans (le_max_left ..)
  | cons u rest ih =>
    have forward : t ≤ u := (List.pairwise_cons.mp ordered).1 u (by simp)
    have later := ih (List.pairwise_cons.mp ordered).2
    rw [climb_cons_cons, List.foldr_cons]
    omega

/-- Readings that never fall climb from the first to the last and no further. -/
theorem climb_le_spread {times : List Int} (ordered : times.Pairwise (· ≤ ·)) :
    climb times ≤ spread times := by
  cases times with
  | nil => exact le_rfl
  | cons t rest =>
    have highest := climb_le_max ordered t
    have lowest : (t :: rest).foldr min t ≤ t := min_le_left ..
    change _ ≤ (t :: rest).foldr max t - (t :: rest).foldr min t
    omega

theorem climb_nonneg : ∀ times : List Int, 0 ≤ climb times
  | [] => le_rfl
  | [_] => le_rfl
  | _ :: u :: rest => add_nonneg (le_max_left ..) (climb_nonneg (u :: rest))

end Allowance
