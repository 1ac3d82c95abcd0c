import Mathlib.Data.List.Basic
import Mathlib.Logic.Function.Basic

namespace Whereabouts
variable {ι κ π : Type} [DecidableEq κ] [DecidableEq π]

/-- How many of the logged things, each of a kind, are in a place. -/
def amount (log : List (ι × κ)) (place : ι → π) (p : π) (kind : κ) : Nat :=
  log.countP fun entry => entry.2 = kind && place entry.1 = p

/-- What is in the places that are cleared is brought to `target`. -/
def clear (place : ι → π) (cleared : π → Bool) (target : π) (i : ι) : π :=
  if cleared (place i) then target else place i

/-- What is in one place is brought to another. -/
def pour (place : ι → π) (source target : π) : ι → π :=
  clear place (· = source) target

variable {log : List (ι × κ)} {place place' : ι → π} {p source target : π} {cleared : π → Bool} {kind : κ}

theorem amount_congr (same : ∀ i, place i = p ↔ place' i = p) : amount log place p kind = amount log place' p kind :=
  List.countP_congr fun entry _ => by simp only [Bool.and_eq_true, decide_eq_true_eq, same]

theorem amount_cleared (different : p ≠ target) (gone : cleared p = true) :
    amount log (clear place cleared target) p kind = 0 := by
  refine List.countP_eq_zero.mpr fun entry _ here => ?_
  have there := of_decide_eq_true (Bool.and_eq_true_iff.mp here).2
  unfold clear at there
  split at there
  · exact different there.symm
  · rename_i kept
    rw [there] at kept
    exact kept gone

theorem amount_kept (different : p ≠ target) (kept : cleared p = false) :
    amount log (clear place cleared target) p kind = amount log place p kind := by
  refine amount_congr fun i => ?_
  unfold clear
  split
  · rename_i gone
    constructor
    · exact fun here => absurd here.symm different
    · rintro rfl
      rw [kept] at gone
      cases gone
  · rfl

theorem amount_poured (different : source ≠ target) :
    amount log (pour place source target) target kind = amount log place target kind + amount log place source kind := by
  induction log with
  | nil => rfl
  | cons entry rest ih =>
    unfold amount at ih ⊢
    rw [List.countP_cons, List.countP_cons, List.countP_cons, ih]
    unfold pour clear
    by_cases own : entry.2 = kind
    · by_cases from' : place entry.1 = source
      · have elsewhere : place entry.1 ≠ target := from' ▸ different
        simp [own, from', different]
        omega
      · simp [own, from']
        omega
    · simp [own]

theorem amount_source (different : source ≠ target) : amount log (pour place source target) source kind = 0 :=
  amount_cleared different (decide_eq_true rfl)

theorem amount_other (apart : p ≠ source) (different : p ≠ target) :
    amount log (pour place source target) p kind = amount log place p kind :=
  amount_kept different (decide_eq_false apart)

/-- Something new is logged and put in its place. -/
theorem amount_put [DecidableEq ι] {i : ι} {new : κ} (fresh : i ∉ log.map Prod.fst) :
    amount (log ++ [(i, new)]) (Function.update place i target) p kind =
      amount log place p kind + if new = kind ∧ target = p then 1 else 0 := by
  rw [amount, List.countP_append, List.countP_singleton]
  congr 1
  · refine List.countP_congr fun entry member => ?_
    have other : entry.1 ≠ i := fun same => fresh (List.mem_map.mpr ⟨entry, member, same⟩)
    rw [Function.update_of_ne other]
  · rw [Function.update_self]
    simp only [Bool.and_eq_true, decide_eq_true_eq]

theorem amount_le : amount log place p kind ≤ log.countP (·.2 = kind) :=
  List.countP_mono_left fun _ _ here => (Bool.and_eq_true_iff.mp here).1

theorem amount_all (all : ∀ entry ∈ log, entry.2 = kind → place entry.1 = p) :
    amount log place p kind = log.countP (·.2 = kind) := by
  refine List.countP_congr fun entry member => ?_
  simp only [Bool.and_eq_true, decide_eq_true_eq]
  exact ⟨And.left, fun own => ⟨own, all entry member own⟩⟩

theorem amount_pos {i : ι} (member : (i, kind) ∈ log) (here : place i = p) : 0 < amount log place p kind :=
  List.countP_pos_iff.mpr ⟨(i, kind), member, by simp only [here, decide_true, Bool.and_self]⟩

end Whereabouts
