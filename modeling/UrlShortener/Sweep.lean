import Mathlib.Order.WithBot
import UrlShortener.General.OrderStatistics

namespace UrlShortener
open OrderStatistics

/-- What `OpenLoopResults.summary` gives for one run, as far as a sweep reads
it; the times are values of any linear order. -/
inductive RunSummary (α : Type)
  | full (achievedRate p50Ms p99Ms : α) (valid : Bool)
  /-- "no completed requests" -/
  | noneCompleted
  deriving DecidableEq

namespace RunSummary
variable {α : Type}

/-- `r.get("p99_ms")` -/
def p99Ms? : RunSummary α → Option α
  | full _ _ p99Ms _ => some p99Ms
  | noneCompleted => none

/-- `r.get("p99_ms", float("inf"))` -/
def p99Ms : RunSummary α → WithTop α
  | full _ _ p99Ms _ => p99Ms
  | noneCompleted => ⊤

def completed (r : RunSummary α) : Bool :=
  r.p99Ms?.isSome

/-- `r.get("p99_ms") == median`; None equals no number, not even the infinite one. -/
def p99Is [DecidableEq α] (median : WithTop α) (r : RunSummary α) : Bool :=
  r.p99Ms?.any fun p99Ms : α => (p99Ms : WithTop α) = median

end RunSummary

inductive SweepError
  | indexError
  | valueError

/-- The part of a sweep's row that depends on which run is the median one. -/
structure SweepRow (α : Type) where
  med : RunSummary α
  repeats : Nat
  p99MsRuns : List (WithTop α)
  p99MsMedian : WithTop α

variable {α : Type} [LinearOrder α]

/-- `sorted(r.get("p99_ms", float("inf")) for r in reps)` -/
def p99s (reps : List (RunSummary α)) : List (WithTop α) :=
  (reps.map RunSummary.p99Ms).insertionSort (· ≤ ·)

/-- The row of one offered rate in `sweep` and `sweep_isolated`. -/
def sweepRow (reps : List (RunSummary α)) : Except SweepError (SweepRow α) :=
  match (p99s reps)[(p99s reps).length / 2]? with
  | none => .error .indexError
  | some median =>
    match reps.find? (RunSummary.p99Is median) with
    | none => .error .valueError
    | some med => .ok ⟨med, reps.length, p99s reps, median⟩

/-- The selection does not raise and picks a run at the upper median. -/
def PicksMedian (reps : List (RunSummary α)) : Prop :=
  ∃ row, sweepRow reps = .ok row ∧ row.med ∈ reps ∧ IsUpperMedian (reps.map RunSummary.p99Ms) row.med.p99Ms

variable {reps : List (RunSummary α)} {r : RunSummary α} {median : WithTop α}

theorem RunSummary.p99Ms_lt_top : r.p99Ms < ⊤ ↔ r.completed = true := by
  cases r with
  | full achievedRate p50Ms p99Ms valid => exact iff_of_true (WithTop.coe_lt_top p99Ms) rfl
  | noneCompleted => exact iff_of_false (lt_irrefl ⊤) Bool.false_ne_true

/-- The searched list differs from the sorted one where the value is infinite. -/
theorem RunSummary.p99Is_iff : r.p99Is median = true ↔ r.p99Ms = median ∧ median < ⊤ := by
  cases r with
  | full achievedRate p50Ms p99Ms valid =>
    rw [p99Is, p99Ms?, Option.any_some, decide_eq_true_iff]
    constructor
    · rintro rfl
      exact ⟨rfl, WithTop.coe_lt_top p99Ms⟩
    · exact fun same => same.1
  | noneCompleted =>
    refine iff_of_false Bool.false_ne_true ?_
    rintro ⟨rfl, finite⟩
    exact lt_irrefl ⊤ finite

theorem countP_completed (reps : List (RunSummary α)) :
    (reps.map RunSummary.p99Ms).countP (· < ⊤) = reps.countP RunSummary.completed := by
  rw [List.countP_map]
  refine List.countP_congr fun r _ => ?_
  rw [Function.comp_apply, decide_eq_true_iff, RunSummary.p99Ms_lt_top]

theorem exists_find (member : median ∈ reps.map RunSummary.p99Ms) (finite : median < ⊤) :
    ∃ r, reps.find? (RunSummary.p99Is median) = some r := by
  obtain ⟨r, own, same⟩ := List.mem_map.mp member
  exact Option.isSome_iff_exists.mp (List.find?_isSome.mpr ⟨r, own, RunSummary.p99Is_iff.mpr ⟨same, finite⟩⟩)

/-- The selection works exactly for the lists with more runs that completed requests
than half of the runs, rounded down: in the others the upper median is infinite
and the searched list has None in its place. -/
theorem picksMedian_iff : PicksMedian reps ↔ reps.length / 2 < reps.countP RunSummary.completed := by
  have length : (p99s reps).length = reps.length := by
    rw [p99s, List.length_insertionSort, List.length_map]
  cases found : (p99s reps)[reps.length / 2]? with
  | none =>
    have empty : reps = [] := by
      have outside := List.getElem?_eq_none_iff.mp found
      rw [length] at outside
      exact List.length_eq_zero_iff.mp (by omega)
    subst empty
    refine iff_of_false ?_ (Nat.not_lt_zero _)
    rintro ⟨row, selected, _⟩
    cases selected
  | some median =>
    have rank := HasRank.of_sort found
    rw [← countP_completed, ← rank.lt_top_iff]
    constructor
    · rintro ⟨row, selected, _⟩
      simp only [sweepRow, length, found] at selected
      split at selected
      · cases selected
      · rename_i med searched
        exact (RunSummary.p99Is_iff.mp (List.find?_some searched)).2
    · intro finite
      have member : median ∈ reps.map RunSummary.p99Ms :=
        (List.mem_insertionSort (· ≤ ·)).mp (List.mem_of_getElem? found)
      obtain ⟨med, searched⟩ := exists_find member finite
      have same : med.p99Ms = median := (RunSummary.p99Is_iff.mp (List.find?_some searched)).1
      refine ⟨⟨med, reps.length, p99s reps, median⟩, ?_, List.mem_of_find?_eq_some searched, ?_⟩
      · simp only [sweepRow, length, found, searched]
      · rw [same, IsUpperMedian, List.length_map]
        exact rank

/-- One run without a completed request is enough for a single point, and one of
two for a repeated one. -/
theorem overloaded_point_raises :
    ¬ PicksMedian ([.noneCompleted] : List (RunSummary ℤ)) ∧
      ¬ PicksMedian ([.full 900 2 40 true, .noneCompleted] : List (RunSummary ℤ)) := by
  constructor
  · rintro ⟨row, selected, _⟩
    cases selected
  · rintro ⟨row, selected, _⟩
    cases selected

end UrlShortener
