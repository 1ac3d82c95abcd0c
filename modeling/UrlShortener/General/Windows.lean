import Mathlib.Data.List.Basic

namespace Windows
variable {α : Type} {key : α → Nat}

/-- The entries of a log after the offset `low` and up to `high`. -/
def window (key : α → Nat) (low high : Nat) (log : List α) : List α :=
  log.filter fun entry => low < key entry && key entry ≤ high

theorem mem_window {low high : Nat} {log : List α} {entry : α} :
    entry ∈ window key low high log ↔ entry ∈ log ∧ low < key entry ∧ key entry ≤ high := by
  simp only [window, List.mem_filter, Bool.and_eq_true, decide_eq_true_eq]

theorem window_self (offset : Nat) (log : List α) : window key offset offset log = [] := by
  refine List.eq_nil_iff_forall_not_mem.mpr fun entry member => ?_
  obtain ⟨_, after, upTo⟩ := mem_window.mp member
  omega

/-- An entry that lies outside a window does not change it. -/
theorem window_snoc {low high : Nat} {entry : α} (outside : high < key entry ∨ key entry ≤ low) (log : List α) :
    window key low high (log ++ [entry]) = window key low high log := by
  have dropped : (low < key entry && key entry ≤ high) = false := by
    simp only [Bool.and_eq_false_iff, decide_eq_false_iff_not]
    omega
  simp only [window, List.filter_append, List.filter_cons, dropped, Bool.false_eq_true, if_false, List.filter_nil,
    List.append_nil]

/-- Adjoining windows of an ordered log stand one after the other. -/
theorem window_append {log : List α} (ordered : log.Pairwise (key · < key ·)) {low middle high : Nat}
    (below : low ≤ middle) (above : middle ≤ high) :
    window key low high log = window key low middle log ++ window key middle high log := by
  induction log with
  | nil => rfl
  | cons entry rest ih =>
    obtain ⟨first, ordered⟩ := List.pairwise_cons.mp ordered
    have tail := ih ordered
    simp only [window] at tail
    simp only [window, List.filter_cons]
    by_cases early : key entry ≤ middle
    · have skipped : (middle < key entry && key entry ≤ high) = false := by simp; omega
      have same : (low < key entry && key entry ≤ high) = (low < key entry && key entry ≤ middle) := by
        by_cases after : low < key entry
        · simp [after, early, Nat.le_trans early above]
        · simp [after]
      rw [skipped, same, tail]
      simp only [Bool.false_eq_true, if_false]
      split
      · rfl
      · rfl
    · have late : middle < key entry := Nat.lt_of_not_le early
      -- Every entry of the first window would have to stand before this one.
      have none : (rest.filter fun entry => low < key entry && key entry ≤ middle) = [] := by
        refine List.filter_eq_nil_iff.mpr fun other member => ?_
        have after := first other member
        simp only [Bool.and_eq_true, decide_eq_true_eq, not_and]
        omega
      have skipped : (low < key entry && key entry ≤ middle) = false := by simp; omega
      have same : (low < key entry && key entry ≤ high) = (middle < key entry && key entry ≤ high) := by
        have after : low < key entry := by omega
        simp only [after, late]
      rw [skipped, same, tail, none]
      simp only [Bool.false_eq_true, if_false, List.nil_append]

/-- The rest of an ordered log is the window that ends with its last entry. -/
theorem filter_eq_window {log : List α} (ordered : log.Pairwise (key · < key ·)) {low : Nat} {last : α}
    (isLast : (log.filter fun entry => low < key entry).getLast? = some last) :
    (log.filter fun entry => low < key entry) = window key low (key last) log := by
  refine List.filter_congr fun entry member => ?_
  by_cases after : low < key entry
  · have inRest : entry ∈ log.filter fun entry => low < key entry := List.mem_filter.mpr ⟨member, decide_eq_true after⟩
    have upTo : key entry ≤ key last := by
      obtain ⟨before, whole⟩ := List.getLast?_eq_some_iff.mp isLast
      have sorted := ordered.filter fun entry => decide (low < key entry)
      rw [whole] at inRest sorted
      rcases List.mem_append.mp inRest with earlier | here
      · have less := (List.pairwise_append.mp sorted).2.2 entry earlier last (List.mem_singleton_self last)
        omega
      · exact Nat.le_of_eq (congrArg key (List.mem_singleton.mp here))
    simp [after, upTo]
  · simp [after]

/-- A window of an ordered log is the beginning of what follows its offset. -/
theorem window_prefix {log : List α} (ordered : log.Pairwise (key · < key ·)) (low high : Nat) :
    window key low high log <+: log.filter fun entry => low < key entry := by
  induction log with
  | nil => exact List.prefix_refl _
  | cons entry rest ih =>
    obtain ⟨first, ordered⟩ := List.pairwise_cons.mp ordered
    have tail := ih ordered
    simp only [window] at tail
    simp only [window, List.filter_cons]
    by_cases after : low < key entry
    · by_cases upTo : key entry ≤ high
      · simpa [after, upTo] using tail
      · have none : (rest.filter fun entry => low < key entry && key entry ≤ high) = [] := by
          refine List.filter_eq_nil_iff.mpr fun other member => ?_
          have later := first other member
          simp only [Bool.and_eq_true, decide_eq_true_eq, not_and]
          omega
        simp [after, upTo, none]
    · simpa [after] using tail

end Windows
