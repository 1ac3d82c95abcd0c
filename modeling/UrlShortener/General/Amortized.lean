import UrlShortener.General.Watch

namespace Transition
variable {σ ε : Type} {step : σ → ε → σ → Prop} {s t : σ} {trace : List ε}

/-- Counts the steps that cost something beside those that bring credit. -/
def tally (costs credits : σ → ε → Bool) (counts : Nat × Nat) (s : σ) (label : ε) : Nat × Nat :=
  (counts.1 + if costs s label then 1 else 0, counts.2 + if credits s label then 1 else 0)

/-- Where every step pays its cost from its credit and the potential, a run
pays its costs from its credits and the potential it starts with. -/
theorem Run.amortized {costs credits : σ → ε → Bool} {counts : Nat × Nat}
    (run : Run (Watched step (tally costs credits)) ((0, 0), s) trace (counts, t)) (potential : σ → Nat)
    (each : ∀ {past u label v}, Run step s past u → step u label v →
      (if costs u label then 1 else 0) + potential v ≤ (if credits u label then 1 else 0) + potential u) :
    counts.1 + potential t ≤ counts.2 + potential s := by
  refine run.watched_invariant (fun counts u => counts.1 + potential u ≤ counts.2 + potential s) (Nat.le_refl _) ?_
  intro counts past u label v before soFar taken
  have paid := each before taken
  simp only [tally]
  omega

end Transition
