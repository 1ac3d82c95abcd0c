import UrlShortener.General.Run

namespace Transition
variable {σ ε : Type} {step : σ → ε → σ → Prop} {good rests : σ → Prop} {allowed : ε → Prop} {below : σ → σ → Prop}

/-- Where a good state at work always has an allowed step to a lower one, it
comes to rest by such steps alone. -/
theorem Run.drains (order : WellFounded below)
    (moves : ∀ s, good s → ¬ rests s → ∃ label t, allowed label ∧ step s label t ∧ good t ∧ below t s)
    {s : σ} (start : good s) :
    ∃ labels t, Run step s labels t ∧ (∀ label ∈ labels, allowed label) ∧ good t ∧ rests t := by
  induction s using order.induction with
  | h s ih =>
    by_cases done : rests s
    · exact ⟨[], s, .start, fun _ member => (by cases member), start, done⟩
    · obtain ⟨label, next, may, taken, kept, lower⟩ := moves s start done
      obtain ⟨labels, t, run, all, last⟩ := ih next lower kept
      refine ⟨label :: labels, t, .cons taken run, fun other member => ?_, last⟩
      rcases List.mem_cons.mp member with rfl | later
      · exact may
      · exact all other later

end Transition
