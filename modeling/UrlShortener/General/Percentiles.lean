import Mathlib.Algebra.Order.Floor.Semiring
import Mathlib.Algebra.Order.Field.Basic
import Mathlib.Data.List.Forall2
import Mathlib.Data.List.GetD
import Mathlib.Tactic.Linarith
import Mathlib.Tactic.Ring
import UrlShortener.General.OrderStatistics

namespace OrderStatistics

section
variable {α : Type} [LinearOrder α] {xs ys values other : List α} {k l : Nat} {x y : α}

/-- A list whose values lie below those of another has smaller order statistics. -/
theorem HasRank.le_of_forall₂ (below : List.Forall₂ (· ≤ ·) xs ys) (upTo : k ≤ l) (left : HasRank xs k x)
    (right : HasRank ys l y) : x ≤ y := by
  have counts : ys.countP (· ≤ y) ≤ xs.countP (· ≤ y) := by
    clear left right
    induction below with
    | nil => exact le_rfl
    | @cons a b xs ys first _ ih =>
      rw [List.countP_cons, List.countP_cons]
      by_cases inside : b ≤ y
      · rw [if_pos (decide_eq_true inside), if_pos (decide_eq_true (first.trans inside))]
        exact Nat.add_le_add_right ih 1
      · rw [if_neg (by rwa [decide_eq_true_iff]), Nat.add_zero]
        exact ih.trans (Nat.le_add_right ..)
  by_contra above
  have strict : xs.countP (· ≤ y) ≤ xs.countP (· < x) :=
    List.countP_mono_left fun value _ inside => decide_eq_true ((of_decide_eq_true inside).trans_lt (not_le.mp above))
  have more := right.upTo
  have under := left.below
  omega

variable [Zero α]

/-- The sorted values, the last one repeated for ever. -/
def ranked (values : List α) (i : Nat) : α :=
  (values.insertionSort (· ≤ ·)).getD (min i (values.length - 1)) 0

theorem ranked_getElem (nonempty : values ≠ []) (i : Nat) :
    (values.insertionSort (· ≤ ·))[min i (values.length - 1)]? = some (ranked values i) := by
  have positive := List.length_pos_iff.mpr nonempty
  have inside : min i (values.length - 1) < (values.insertionSort (· ≤ ·)).length := by
    rw [List.length_insertionSort]
    omega
  rw [ranked, List.getD_eq_getElem _ _ inside]
  exact List.getElem?_eq_getElem _

theorem ranked_mem (nonempty : values ≠ []) (i : Nat) : ranked values i ∈ values :=
  (List.mem_insertionSort (· ≤ ·)).mp (List.mem_of_getElem? (ranked_getElem nonempty i))

theorem ranked_le_ranked (below : List.Forall₂ (· ≤ ·) values other) {i j : Nat} (upTo : i ≤ j) :
    ranked values i ≤ ranked other j := by
  by_cases nonempty : values = []
  · subst nonempty
    cases below
    exact le_rfl
  · have filled : other ≠ [] := by
      rintro rfl
      exact nonempty (List.forall₂_nil_right_iff.mp below)
    have left : HasRank values _ (ranked values i) := .of_sort (ranked_getElem nonempty i)
    have right : HasRank other _ (ranked other j) := .of_sort (ranked_getElem filled j)
    rw [← below.length_eq] at right
    exact left.le_of_forall₂ below (min_le_min_right _ upTo) right

theorem ranked_mono (values : List α) : Monotone (ranked values) :=
  fun _ _ upTo => ranked_le_ranked (List.forall₂_refl values) upTo

end

variable {𝕜 : Type} [Field 𝕜] [LinearOrder 𝕜] [IsStrictOrderedRing 𝕜] [FloorSemiring 𝕜]

/-- The value at `x` of the polygon through the points of a sequence. -/
def interpolate (a : Nat → 𝕜) (x : 𝕜) : 𝕜 :=
  a ⌊x⌋₊ + (a (⌊x⌋₊ + 1) - a ⌊x⌋₊) * (x - ⌊x⌋₊)

section
variable {a b : Nat → 𝕜} {x y : 𝕜}

theorem fract_bounds (nonneg : 0 ≤ x) : 0 ≤ x - ⌊x⌋₊ ∧ x - ⌊x⌋₊ ≤ 1 := by
  have lower := Nat.floor_le nonneg
  have upper := Nat.lt_floor_add_one x
  constructor <;> linarith

theorem interpolate_le_interpolate (below : ∀ i, a i ≤ b i) (nonneg : 0 ≤ x) : interpolate a x ≤ interpolate b x := by
  obtain ⟨lower, upper⟩ := fract_bounds nonneg
  have first := mul_le_mul_of_nonneg_right (below ⌊x⌋₊) (sub_nonneg.mpr upper)
  have second := mul_le_mul_of_nonneg_right (below (⌊x⌋₊ + 1)) lower
  rw [interpolate, interpolate]
  linarith

theorem le_interpolate (mono : Monotone a) (nonneg : 0 ≤ x) : a ⌊x⌋₊ ≤ interpolate a x := by
  have rise := sub_nonneg.mpr (mono (Nat.le_succ ⌊x⌋₊))
  exact le_add_of_nonneg_right (mul_nonneg rise (fract_bounds nonneg).1)

theorem interpolate_le (mono : Monotone a) (nonneg : 0 ≤ x) : interpolate a x ≤ a (⌊x⌋₊ + 1) := by
  have rise := sub_nonneg.mpr (mono (Nat.le_succ ⌊x⌋₊))
  have part := mul_le_of_le_one_right rise (fract_bounds nonneg).2
  rw [interpolate]
  linarith

theorem interpolate_mono (mono : Monotone a) (nonneg : 0 ≤ x) (upTo : x ≤ y) : interpolate a x ≤ interpolate a y := by
  rcases Nat.eq_or_lt_of_le (Nat.floor_mono upTo) with same | less
  · -- Both lie on one side of the polygon.
    have rise := sub_nonneg.mpr (mono (Nat.le_succ ⌊y⌋₊))
    have part := mul_le_mul_of_nonneg_left upTo rise
    rw [interpolate, interpolate, same]
    linarith
  · calc interpolate a x ≤ a (⌊x⌋₊ + 1) := interpolate_le mono nonneg
      _ ≤ a ⌊y⌋₊ := mono less
      _ ≤ interpolate a y := le_interpolate mono (nonneg.trans upTo)

end

/-- The `q`-th percentile, linear between the order statistics next to it. -/
def percentile (values : List 𝕜) (q : 𝕜) : 𝕜 :=
  interpolate (ranked values) ((values.length - 1) * (q / 100))

section
variable {values other : List 𝕜} {q r : 𝕜}

theorem position_nonneg (nonempty : values ≠ []) (nonneg : 0 ≤ q) : 0 ≤ ((values.length : 𝕜) - 1) * (q / 100) := by
  have one : (1 : 𝕜) ≤ values.length := by exact_mod_cast List.length_pos_iff.mpr nonempty
  exact mul_nonneg (sub_nonneg.mpr one) (by positivity)

theorem percentile_mono (nonempty : values ≠ []) (nonneg : 0 ≤ q) (upTo : q ≤ r) :
    percentile values q ≤ percentile values r := by
  refine interpolate_mono (ranked_mono values) (position_nonneg nonempty nonneg) ?_
  have one : (1 : 𝕜) ≤ values.length := by exact_mod_cast List.length_pos_iff.mpr nonempty
  exact mul_le_mul_of_nonneg_left (by linarith) (sub_nonneg.mpr one)

theorem percentile_le_percentile (nonempty : values ≠ []) (below : List.Forall₂ (· ≤ ·) values other) (nonneg : 0 ≤ q) :
    percentile values q ≤ percentile other q := by
  rw [percentile, percentile, ← below.length_eq]
  exact interpolate_le_interpolate (fun i => ranked_le_ranked below le_rfl) (position_nonneg nonempty nonneg)

/-- No percentile is beyond all of the values. -/
theorem percentile_le (nonempty : values ≠ []) (nonneg : 0 ≤ q) {top : 𝕜} (bounded : ∀ value ∈ values, value ≤ top) :
    percentile values q ≤ top := by
  exact (interpolate_le (ranked_mono values) (position_nonneg nonempty nonneg)).trans
    (bounded _ (ranked_mem nonempty _))

theorem le_percentile (nonempty : values ≠ []) (nonneg : 0 ≤ q) {bottom : 𝕜}
    (bounded : ∀ value ∈ values, bottom ≤ value) : bottom ≤ percentile values q :=
  (bounded _ (ranked_mem nonempty _)).trans
    (le_interpolate (ranked_mono values) (position_nonneg nonempty nonneg))

end

end OrderStatistics
