import UrlShortener.General.Run

namespace Transition
variable {σ ε γ : Type} {step : σ → ε → σ → Prop} {note : γ → σ → ε → γ} {a b : γ × σ} {s t : σ} {trace : List ε}

/-- A step with a note kept beside the state. The note sees the state before the
step and its label; it never stands in the way of a step. -/
def Watched (step : σ → ε → σ → Prop) (note : γ → σ → ε → γ) (a : γ × σ) (label : ε) (b : γ × σ) : Prop :=
  step a.2 label b.2 ∧ b.1 = note a.1 a.2 label

/-- A watched step to execute. -/
def watch (apply : σ → ε → Option σ) (note : γ → σ → ε → γ) (a : γ × σ) (label : ε) : Option (γ × σ) :=
  (apply a.2 label).map fun t => (note a.1 a.2 label, t)

theorem Watched.of_watch {apply : σ → ε → Option σ}
    (sound : ∀ s label t, apply s label = some t → step s label t) (a : γ × σ) (label : ε) (b : γ × σ)
    (done : watch apply note a label = some b) : Watched step note a label b := by
  obtain ⟨t, applied, same⟩ := Option.map_eq_some_iff.mp done
  cases same
  exact ⟨sound _ _ _ applied, rfl⟩

/-- Every run can be watched. -/
theorem Run.watched (run : Run step s trace t) (note : γ → σ → ε → γ) (first : γ) :
    ∃ last, Run (Watched step note) (first, s) trace (last, t) := by
  induction run with
  | start => exact ⟨first, .start⟩
  | next _ taken ih =>
    obtain ⟨middle, watched⟩ := ih
    exact ⟨_, watched.next ⟨taken, rfl⟩⟩

/-- What is watched is a run. -/
theorem Run.unwatched (run : Run (Watched step note) a trace b) : Run step a.2 trace b.2 := by
  induction run with
  | start => exact .start
  | next _ taken ih => exact ih.next taken.1

/-- An invariant of the note and the state together. -/
theorem Run.watched_invariant (good : γ → σ → Prop) {first last : γ}
    (run : Run (Watched step note) (first, s) trace (last, t)) (start : good first s)
    (kept : ∀ {g past u label v}, Run step s past u → good g u → step u label v → good (note g u label) v) :
    good last t := by
  have along {labels : List ε} {b : γ × σ} (run : Run (Watched step note) (first, s) labels b) : good b.1 b.2 := by
    induction run with
    | start => exact start
    | next before taken ih =>
      obtain ⟨took, noted⟩ := taken
      rw [noted]
      exact kept before.unwatched ih took
  exact along run

end Transition
