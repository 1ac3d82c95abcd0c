import Mathlib.Algebra.Order.Field.Power
import Mathlib.Algebra.Order.Floor.Ring
import Mathlib.Data.Int.Log
import Mathlib.Data.Rat.Floor
import Mathlib.Tactic.FieldSimp
import Mathlib.Tactic.Linarith
import Mathlib.Tactic.Positivity
import Mathlib.Tactic.Ring

namespace Rounding

/-- The nearest integer; of two, the even one. -/
def nearestEven (q : ℚ) : ℤ :=
  if q - ⌊q⌋ < 1 / 2 ∨ (q - ⌊q⌋ = 1 / 2 ∧ ⌊q⌋ % 2 = 0) then ⌊q⌋ else ⌊q⌋ + 1

/-- The distance of two neighbours among the numbers of `p` digits to the base
`b`, between the powers of `b` that enclose `x`. -/
def ulp (b p : Nat) (x : ℚ) : ℚ :=
  (b : ℚ) ^ (Int.log b |x| + 1 - p)

/-- The nearest number of `p` digits to the base `b`, with an exponent of any size. -/
def float (b p : Nat) (x : ℚ) : ℚ :=
  nearestEven (x / ulp b p x) * ulp b p x

section
variable {b p : Nat} {q x : ℚ} {n k : ℤ}

theorem abs_nearestEven_sub_le (q : ℚ) : |nearestEven q - q| ≤ 1 / 2 := by
  have low := Int.floor_le q
  have high := Int.lt_floor_add_one q
  unfold nearestEven
  split
  · rename_i down
    rw [abs_le]
    rcases down with below | ⟨tie, _⟩ <;> constructor <;> linarith
  · rename_i up
    have above : 1 / 2 ≤ q - ⌊q⌋ := le_of_not_gt fun below => up (Or.inl below)
    rw [abs_le]
    push_cast
    constructor <;> linarith

theorem nearestEven_eq (near : |q - n| < 1 / 2) : nearestEven q = n := by
  have rounded := abs_nearestEven_sub_le q
  rw [abs_le] at rounded
  rw [abs_lt] at near
  have low : (nearestEven q : ℚ) < n + 1 := by linarith
  have high : (n : ℚ) < nearestEven q + 1 := by linarith
  have low' : nearestEven q < n + 1 := by exact_mod_cast low
  have high' : n < nearestEven q + 1 := by exact_mod_cast high
  omega

theorem ulp_pos (base : 1 < b) (p : Nat) (x : ℚ) : 0 < ulp b p x :=
  zpow_pos (by exact_mod_cast Nat.zero_lt_of_lt base) _

theorem abs_float_sub_le (base : 1 < b) (p : Nat) (x : ℚ) : |float b p x - x| ≤ ulp b p x / 2 := by
  have positive := ulp_pos base p x
  have scaled : float b p x - x = (nearestEven (x / ulp b p x) - x / ulp b p x) * ulp b p x := by
    rw [float, sub_mul, div_mul_cancel₀ _ positive.ne']
  rw [scaled, abs_mul, abs_of_pos positive]
  have rounded := abs_nearestEven_sub_le (x / ulp b p x)
  nlinarith

theorem float_zero (b p : Nat) : float b p 0 = 0 := by
  have none : nearestEven 0 = 0 := nearestEven_eq (by norm_num)
  rw [float, zero_div, none, Int.cast_zero, zero_mul]

/-- The error, as a part of the number itself. -/
theorem abs_float_sub_le_mul (base : 1 < b) (p : Nat) (x : ℚ) :
    |float b p x - x| ≤ |x| * (b : ℚ) ^ (1 - p : ℤ) / 2 := by
  rcases eq_or_ne x 0 with rfl | nonzero
  · rw [float_zero, sub_zero, abs_zero, zero_mul, zero_div]
  · have positive : (0 : ℚ) < b := by exact_mod_cast Nat.zero_lt_of_lt base
    have power := Int.zpow_log_le_self (b := b) base (abs_pos.mpr nonzero)
    have unit : ulp b p x = (b : ℚ) ^ Int.log b |x| * (b : ℚ) ^ (1 - p : ℤ) := by
      rw [ulp, ← zpow_add₀ positive.ne']
      congr 1
      omega
    have error := abs_float_sub_le base p x
    have share : (0 : ℚ) < (b : ℚ) ^ (1 - p : ℤ) := zpow_pos positive _
    rw [unit] at error
    nlinarith

/-- The error is half a unit of the power that bounds the number. -/
theorem abs_float_sub_le_of_lt (base : 1 < b) (bound : |x| < (b : ℚ) ^ k) :
    |float b p x - x| ≤ (b : ℚ) ^ (k - p) / 2 := by
  have one : (1 : ℚ) ≤ b := by exact_mod_cast base.le
  rcases eq_or_ne x 0 with rfl | nonzero
  · rw [float_zero, sub_zero, abs_zero]
    positivity
  · have digits : Int.log b |x| < k := (Int.lt_zpow_iff_log_lt base (abs_pos.mpr nonzero)).mp bound
    have smaller : ulp b p x ≤ (b : ℚ) ^ (k - p) := zpow_le_zpow_right₀ one (by omega)
    have error := abs_float_sub_le base p x
    linarith

theorem ulp_eq (base : 1 < b) (low : (b : ℚ) ^ k ≤ |x|) (high : |x| < (b : ℚ) ^ (k + 1)) :
    ulp b p x = (b : ℚ) ^ (k + 1 - p) := by
  have positive : 0 < |x| := lt_of_lt_of_le (zpow_pos (by exact_mod_cast Nat.zero_lt_of_lt base) _) low
  have least := (Int.zpow_le_iff_le_log base positive).mp low
  have most := (Int.lt_zpow_iff_log_lt base positive).mp high
  rw [ulp, show Int.log b |x| = k by omega]

/-- What is within half a unit of a number of the format is rounded to it. -/
theorem float_eq (base : 1 < b) (near : |x - n * ulp b p x| < ulp b p x / 2) : float b p x = n * ulp b p x := by
  have positive := ulp_pos base p x
  have close : |x / ulp b p x - n| < 1 / 2 := by
    have scaled : x / ulp b p x - n = (x - n * ulp b p x) / ulp b p x := by
      rw [sub_div, mul_div_cancel_right₀ _ positive.ne']
    rw [scaled, abs_div, abs_of_pos positive, div_lt_iff₀ positive]
    linarith
  rw [float, nearestEven_eq close]

/-- Integers of at most `p` digits are in the format. -/
theorem float_intCast (base : 1 < b) (fits : |n| < b ^ p) : float b p n = n := by
  rcases eq_or_ne n 0 with rfl | nonzero
  · rw [Int.cast_zero, float_zero]
  · have positive : 0 < |(n : ℚ)| := abs_pos.mpr (Int.cast_ne_zero.mpr nonzero)
    have fits' : |(n : ℚ)| < (b : ℚ) ^ (p : ℤ) := by
      rw [zpow_natCast]
      exact_mod_cast fits
    have power := (Int.lt_zpow_iff_log_lt base positive).mp fits'
    obtain ⟨d, digits⟩ := Int.eq_ofNat_of_zero_le (show 0 ≤ (p : ℤ) - (Int.log b |(n : ℚ)| + 1) by omega)
    have unit : ulp b p n = ((b : ℚ) ^ d)⁻¹ := by
      rw [ulp, ← zpow_natCast, ← zpow_neg, ← digits]
      congr 1
      omega
    have scale : (0 : ℚ) < (b : ℚ) ^ d := pow_pos (by exact_mod_cast Nat.zero_lt_of_lt base) d
    have whole : (n : ℚ) = (n * b ^ d : ℤ) * ulp b p n := by
      rw [unit]
      push_cast
      rw [mul_assoc, mul_inv_cancel₀ scale.ne', mul_one]
    have self : float b p n = (n * b ^ d : ℤ) * ulp b p n := by
      refine float_eq base ?_
      rw [← whole, sub_self, abs_zero]
      have := ulp_pos base p n
      positivity
    rw [self, ← whole]

end

end Rounding
