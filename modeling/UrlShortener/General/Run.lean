import Mathlib.Data.List.Induction

namespace Transition

/-- Finite executions of a labelled step relation from `initial`. The trace
lists the labels in the order they were taken. -/
inductive Run {σ ε : Type} (step : σ → ε → σ → Prop) (initial : σ) : List ε → σ → Prop
  | start : Run step initial [] initial
  | next {trace s label t} : Run step initial trace s → step s label t → Run step initial (trace ++ [label]) t

variable {σ ε : Type} {step : σ → ε → σ → Prop} {initial s t : σ} {trace later : List ε}

theorem Run.single {label : ε} (taken : step s label t) : Run step s [label] t :=
  Run.next .start taken

theorem Run.append (first : Run step initial trace s) (rest : Run step s later t) :
    Run step initial (trace ++ later) t := by
  induction rest with
  | start => simpa only [List.append_nil] using first
  | next _ taken ih =>
    rw [← List.append_assoc]
    exact .next ih taken

theorem Run.cons {label : ε} (taken : step initial label s) (rest : Run step s later t) :
    Run step initial (label :: later) t :=
  (Run.single taken).append rest

theorem Run.snoc_inv {label : ε} (run : Run step initial (trace ++ [label]) t) :
    ∃ s, Run step initial trace s ∧ step s label t := by
  generalize whole : trace ++ [label] = labels at run
  cases run with
  | start => simp at whole
  | next before taken =>
    obtain ⟨rfl, same⟩ := List.append_inj' whole rfl
    cases same
    exact ⟨_, before, taken⟩

/-- A run can be stopped on the way. -/
theorem Run.split (run : Run step initial (trace ++ later) t) :
    ∃ s, Run step initial trace s ∧ Run step s later t := by
  induction later using List.reverseRecOn generalizing t with
  | nil => exact ⟨t, by simpa only [List.append_nil] using run, .start⟩
  | append_singleton labels label ih =>
    rw [← List.append_assoc] at run
    obtain ⟨before, whole, taken⟩ := run.snoc_inv
    obtain ⟨s, first, rest⟩ := ih whole
    exact ⟨s, first, rest.next taken⟩

theorem Run.unique (deterministic : ∀ a label b c, step a label b → step a label c → b = c)
    (first : Run step initial trace s) (second : Run step initial trace t) : s = t := by
  induction first generalizing t with
  | start =>
    generalize none : ([] : List ε) = labels at second
    cases second with
    | start => rfl
    | next => simp at none
  | next _ taken ih =>
    obtain ⟨middle, before, taken'⟩ := second.snoc_inv
    cases ih before
    exact deterministic _ _ _ _ taken taken'

/-- A run of a stronger relation is a run of a weaker one. -/
theorem Run.weaken {weaker : σ → ε → σ → Prop} (run : Run step initial trace s)
    (implied : ∀ a label b, step a label b → weaker a label b) : Run weaker initial trace s := by
  induction run with
  | start => exact .start
  | next _ taken ih => exact .next ih (implied _ _ _ taken)

/-- A run of a whole is a run of a part of it, if each step of the whole is a
step of the part or leaves it as it is. -/
theorem Run.project {τ δ : Type} {part : τ → δ → τ → Prop} (run : Run step initial trace s) (view : σ → τ)
    (label : ε → Option δ)
    (moves : ∀ a l b, step a l b → (∃ d, label l = some d ∧ part (view a) d (view b)) ∨
      label l = none ∧ view b = view a) : Run part (view initial) (trace.filterMap label) (view s) := by
  induction run with
  | start => exact .start
  | @next trace s l t _ taken ih =>
    rw [List.filterMap_append]
    rcases moves s l t taken with ⟨d, seen, inner⟩ | ⟨unseen, same⟩
    · have last : [l].filterMap label = [d] := by rw [List.filterMap_cons_some seen, List.filterMap_nil]
      rw [last]
      exact .next ih inner
    · have last : [l].filterMap label = [] := by rw [List.filterMap_cons_none unseen, List.filterMap_nil]
      rw [last, List.append_nil, same]
      exact ih

/-- Takes the labels one after another, as long as each is possible. -/
def execute (apply : σ → ε → Option σ) : σ → List ε → Option σ
  | s, [] => some s
  | s, label :: rest => (apply s label).bind fun t => execute apply t rest

theorem Run.of_execute {apply : σ → ε → Option σ} {labels : List ε}
    (sound : ∀ a label b, apply a label = some b → step a label b)
    (done : execute apply s labels = some t) : Run step s labels t := by
  induction labels generalizing s with
  | nil => cases Option.some.inj done; exact .start
  | cons label rest ih =>
    obtain ⟨middle, first, later⟩ := Option.bind_eq_some_iff.mp done
    exact .cons (sound _ _ _ first) (ih later)

/-- A run found by executing it, ending in a state with a decidable property. -/
theorem Run.exists_of_execute {apply : σ → ε → Option σ} {labels : List ε} {P : σ → Prop}
    [DecidablePred P] (sound : ∀ a label b, apply a label = some b → step a label b)
    (done : (execute apply s labels).any (fun t => P t) = true) :
    ∃ t, Run step s labels t ∧ P t := by
  obtain ⟨t, reached, holds⟩ := (Option.any_eq_true _ _).mp done
  exact ⟨t, .of_execute sound reached, of_decide_eq_true holds⟩

end Transition
