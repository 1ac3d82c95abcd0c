import Mathlib.Data.List.Sort

namespace OrderStatistics
variable {α : Type} [LinearOrder α]

/-- At most `k` values lie below `m`, but more than `k` do not exceed it. -/
structure HasRank (values : List α) (k : Nat) (m : α) : Prop where
  below : values.countP (· < m) ≤ k
  upTo : k < values.countP (· ≤ m)

/-- Of an even number of values, the larger one in the middle. -/
def IsUpperMedian (values : List α) (m : α) : Prop :=
  HasRank values (values.length / 2) m

variable {values other : List α} {k : Nat} {m : α}

theorem HasRank.perm (same : values.Perm other) : HasRank values k m ↔ HasRank other k m := by
  constructor
  · rintro ⟨below, upTo⟩
    rw [same.countP_eq] at below upTo
    exact ⟨below, upTo⟩
  · rintro ⟨below, upTo⟩
    rw [← same.countP_eq] at below upTo
    exact ⟨below, upTo⟩

theorem HasRank.of_sorted (sorted : values.Pairwise (· ≤ ·)) (found : values[k]? = some m) :
    HasRank values k m := by
  induction values generalizing k with
  | nil => cases found
  | cons first rest ih =>
    obtain ⟨least, sorted⟩ := List.pairwise_cons.mp sorted
    cases k with
    | zero =>
      cases found
      constructor
      · refine Nat.le_of_eq (List.countP_eq_zero.mpr fun value member => ?_)
        rcases List.mem_cons.mp member with rfl | later
        · exact fun less => lt_irrefl value (of_decide_eq_true less)
        · exact fun less => not_lt.mpr (least value later) (of_decide_eq_true less)
      · exact List.countP_pos_iff.mpr ⟨m, List.mem_cons_self, decide_eq_true le_rfl⟩
    | succ k =>
      rw [List.getElem?_cons_succ] at found
      have inside : first ≤ m := least m (List.mem_of_getElem? found)
      have rank := ih sorted found
      constructor
      · have below := rank.below
        rw [List.countP_cons]
        split <;> omega
      · have upTo := rank.upTo
        rw [List.countP_cons, if_pos (decide_eq_true inside)]
        omega

theorem HasRank.of_sort (found : (values.insertionSort (· ≤ ·))[k]? = some m) : HasRank values k m :=
  (HasRank.perm (List.perm_insertionSort (· ≤ ·) values)).mp
    (HasRank.of_sorted (List.pairwise_insertionSort (· ≤ ·) values) found)

/-- The upper median is not the largest possible value as long as more than half of
the values are not. -/
theorem HasRank.lt_top_iff [OrderTop α] (rank : HasRank values k m) : m < ⊤ ↔ k < values.countP (· < ⊤) := by
  constructor
  · intro less
    exact rank.upTo.trans_le
      (List.countP_mono_left fun value _ under => decide_eq_true ((of_decide_eq_true under).trans_lt less))
  · intro enough
    refine lt_top_iff_ne_top.mpr ?_
    rintro rfl
    exact absurd rank.below (Nat.not_le.mpr enough)

end OrderStatistics
