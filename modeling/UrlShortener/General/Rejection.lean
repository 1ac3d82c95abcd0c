import Mathlib.Algebra.BigOperators.Fin
import Mathlib.Data.Fintype.BigOperators
import Mathlib.Algebra.Order.Field.Rat
import Mathlib.Tactic.FieldSimp
import Mathlib.Tactic.Ring

namespace Rejection
variable {α Ω : Type}

/-- The share of the outcomes, all equally likely, in which something holds. -/
def share [Fintype α] (event : α → Prop) [DecidablePred event] : ℚ :=
  (Finset.univ.filter event).card / Fintype.card α

/-- The first of the draws that is not taken. -/
def firstFree (taken : Ω → Bool) (draws : List Ω) : Option Ω :=
  draws.find? fun ω => !taken ω

theorem firstFree_cons (taken : Ω → Bool) (ω : Ω) (draws : List Ω) :
    firstFree taken (ω :: draws) = if taken ω then firstFree taken draws else some ω := by
  rw [firstFree, List.find?_cons]
  cases taken ω <;> rfl

section
variable [Fintype Ω] (taken : Ω → Bool) {k : Nat}

theorem card_cons (event : (Fin (k + 1) → Ω) → Prop) [DecidablePred event] :
    (Finset.univ.filter event).card =
      ∑ ω, (Finset.univ.filter fun rest : Fin k → Ω => event (Fin.cons ω rest)).card := by
  simp only [Finset.card_filter]
  rw [← (Fin.consEquiv fun _ : Fin (k + 1) => Ω).sum_comp, Fintype.sum_prod_type]
  rfl

/-- The outcomes of one draw that are rejected. -/
def rejected : Nat :=
  (Finset.univ.filter fun ω => taken ω = true).card

theorem rejected_lt {ω : Ω} (free : taken ω = false) : rejected taken < Fintype.card Ω := by
  refine Finset.card_lt_card (Finset.filter_ssubset.mpr ⟨ω, Finset.mem_univ ω, ?_⟩)
  rw [free]
  exact Bool.false_ne_true

variable [DecidableEq Ω]

/-- The number of ways to draw `k` times that end with `answer`. -/
def ways (k : Nat) (answer : Option Ω) : Nat :=
  (Finset.univ.filter fun draws : Fin k → Ω => firstFree taken (List.ofFn draws) = answer).card

theorem ways_succ (answer : Option Ω) :
    ways taken (k + 1) answer =
      rejected taken * ways taken k answer +
        ∑ ω ∈ Finset.univ.filter (fun ω => ¬ taken ω = true), if some ω = answer then Fintype.card Ω ^ k else 0 := by
  have each (ω : Ω) : (Finset.univ.filter fun rest : Fin k → Ω =>
      firstFree taken (List.ofFn (Fin.cons ω rest : Fin (k + 1) → Ω)) = answer).card =
        if taken ω = true then ways taken k answer else if some ω = answer then Fintype.card Ω ^ k else 0 := by
    simp only [List.ofFn_succ, Fin.cons_zero, Fin.cons_succ, firstFree_cons]
    split
    · rfl
    · split
      · rw [Finset.filter_true_of_mem fun _ _ => by assumption, Finset.card_univ, Fintype.card_fun, Fintype.card_fin]
      · rw [Finset.filter_false_of_mem fun _ _ => by assumption, Finset.card_empty]
  rw [ways, card_cons, Finset.sum_congr rfl fun ω _ => each ω, Finset.sum_ite, Finset.sum_const, smul_eq_mul]
  rfl

theorem ways_none : ways taken k none = rejected taken ^ k := by
  induction k with
  | zero =>
    rw [pow_zero, ways, Finset.filter_true_of_mem fun _ _ => by rw [List.ofFn_zero]; rfl, Finset.card_univ,
      Fintype.card_unique]
  | succ k ih =>
    rw [ways_succ, ih, Finset.sum_eq_zero fun ω _ => if_neg (Option.some_ne_none ω), add_zero, pow_succ']

/-- Every outcome that is not taken is the answer to equally many draws. -/
theorem ways_some {ω : Ω} (free : taken ω = false) :
    (ways taken k (some ω) : ℚ) * (Fintype.card Ω - rejected taken) = Fintype.card Ω ^ k - rejected taken ^ k := by
  induction k with
  | zero =>
    have none : ways taken 0 (some ω) = 0 := by
      rw [ways, Finset.filter_false_of_mem fun _ _ => by rw [List.ofFn_zero]; exact (Option.some_ne_none ω).symm,
        Finset.card_empty]
    rw [none, pow_zero, pow_zero, Nat.cast_zero, zero_mul, sub_self]
  | succ k ih =>
    have own : ω ∈ Finset.univ.filter fun ω => ¬ taken ω = true :=
      Finset.mem_filter.mpr ⟨Finset.mem_univ ω, by rw [free]; exact Bool.false_ne_true⟩
    have first : (∑ ω' ∈ Finset.univ.filter (fun ω => ¬ taken ω = true),
        if some ω' = some ω then Fintype.card Ω ^ k else 0) = Fintype.card Ω ^ k := by
      rw [Finset.sum_eq_single_of_mem ω own fun other _ different => if_neg (different ∘ Option.some.inj), if_pos rfl]
    rw [ways_succ, first]
    push_cast
    rw [add_mul, mul_assoc, ih]
    ring

theorem share_none : share (fun draws : Fin k → Ω => firstFree taken (List.ofFn draws) = none) =
    ((rejected taken : ℚ) / Fintype.card Ω) ^ k := by
  have count := ways_none taken (k := k)
  rw [ways] at count
  rw [share, count, Fintype.card_fun, Fintype.card_fin, div_pow, Nat.cast_pow, Nat.cast_pow]

theorem share_some {ω : Ω} (free : taken ω = false) :
    share (fun draws : Fin k → Ω => firstFree taken (List.ofFn draws) = some ω) =
      (1 - ((rejected taken : ℚ) / Fintype.card Ω) ^ k) / (Fintype.card Ω - rejected taken) := by
  have count := ways_some taken free (k := k)
  rw [ways] at count
  have below : (rejected taken : ℚ) < Fintype.card Ω := Nat.cast_lt.mpr (rejected_lt taken free)
  have room : (Fintype.card Ω : ℚ) - rejected taken ≠ 0 := sub_ne_zero.mpr below.ne'
  have total : (Fintype.card Ω : ℚ) ≠ 0 := (lt_of_le_of_lt (Nat.cast_nonneg _) below).ne'
  rw [share, Fintype.card_fun, Fintype.card_fin, Nat.cast_pow, div_pow, eq_div_iff room, div_mul_eq_mul_div, count]
  field_simp

end

end Rejection
