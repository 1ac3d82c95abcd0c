import Mathlib.Data.Int.Bitwise
import Mathlib.Tactic.LinearCombination
import Mathlib.Tactic.Ring
import Mathlib.Tactic.Positivity

namespace BitFields

theorem lor_zero (n : Int) : Int.lor n 0 = n := by
  cases n with
  | ofNat m => exact congrArg Int.ofNat (Nat.or_zero m)
  | negSucc m => exact congrArg Int.negSucc (Nat.eq_of_testBit_eq fun i => by simp [Nat.testBit_ldiff])

theorem land_zero (n : Int) : Int.land n 0 = 0 := by
  cases n with
  | ofNat m => exact congrArg Int.ofNat (Nat.and_zero m)
  | negSucc m => exact congrArg Int.ofNat (Nat.eq_of_testBit_eq fun i => by simp [Nat.testBit_ldiff])

/-- The lowest bit of a number and the rest of it. -/
theorem bit_parts (n : Int) : ∃ low rest, n = Int.bit low rest ∧ n = 2 * rest + cond low 1 0 := by
  refine ⟨n.bodd, n.div2, (Int.bit_decomp n).symm, ?_⟩
  rw [← Int.bit_val, Int.bit_decomp]

theorem shiftLeft_succ_bit (high : Int) (width : Nat) :
    high <<< (width + 1) = Int.bit false (high <<< width) := by
  rw [Int.bit_val, Int.shiftLeft_succ']
  simp only [cond_false, add_zero]

/-- A field placed below a shifted number does not overlap with it, whatever
the sign of that number. -/
theorem lor_shiftLeft (high : Int) {low : Int} {width : Nat} (nonneg : 0 ≤ low) (fits : low < 2 ^ width) :
    Int.lor (high <<< width) low = high * 2 ^ width + low := by
  induction width generalizing low with
  | zero =>
    have none : low = 0 := by omega
    rw [none, lor_zero, Int.shiftLeft_zero, pow_zero, mul_one, add_zero]
  | succ width ih =>
    obtain ⟨bit, rest, asBit, parts⟩ := bit_parts low
    rw [pow_succ] at fits
    have rest_nonneg : 0 ≤ rest := by cases bit <;> simp only [cond_true, cond_false] at parts <;> omega
    have rest_fits : rest < 2 ^ width := by cases bit <;> simp only [cond_true, cond_false] at parts <;> omega
    rw [shiftLeft_succ_bit, asBit, Int.lor_bit, Bool.false_or, Int.bit_val, Int.bit_val,
      ih rest_nonneg rest_fits, pow_succ]
    ring

/-- A mask of ones keeps the remainder. -/
theorem land_mask (n : Int) (width : Nat) : Int.land n (2 ^ width - 1) = n % 2 ^ width := by
  induction width generalizing n with
  | zero => rw [pow_zero, sub_self, land_zero, Int.emod_one]
  | succ width ih =>
    obtain ⟨bit, rest, asBit, parts⟩ := bit_parts n
    have mask : (2 : Int) ^ (width + 1) - 1 = Int.bit true (2 ^ width - 1) := by
      rw [Int.bit_val, pow_succ, cond_true]
      ring
    have below := Int.emod_lt_of_pos rest (by positivity : (0 : Int) < 2 ^ width)
    have above := Int.emod_nonneg rest (by positivity : (2 : Int) ^ width ≠ 0)
    have split := Int.emod_add_mul_ediv rest (2 ^ width)
    have whole : n = (2 * (rest % 2 ^ width) + cond bit 1 0) + 2 ^ (width + 1) * (rest / 2 ^ width) := by
      rw [parts, pow_succ]
      linear_combination -2 * split
    rw [mask, asBit, Int.land_bit, Bool.and_true, ih, Int.bit_val, ← asBit, whole, Int.add_mul_emod_self_left]
    refine (Int.emod_eq_of_lt ?_ ?_).symm
    · cases bit <;> simp only [cond_true, cond_false] <;> omega
    · rw [pow_succ]
      cases bit <;> simp only [cond_true, cond_false] <;> omega

end BitFields
