import UrlShortener.BreakerCallers

namespace UrlShortener
namespace CircuitBreaker
open Transition

section
variable {s t u : Callers} {trace later : List Event} {event : Event} {id probe : Nat}
  {failureThreshold : Nat} {cooldownS clock : ℚ}

/-- A success that arrives late closes whatever it finds, and the next caller
is let in at once. -/
theorem stale_success_admits (run : Run Forward (start failureThreshold cooldownS clock) trace t)
    (running : t.caller id = .running) :
    ∃ fresh u v, fresh ≠ id ∧ Forward t (.success id t.clock) u ∧
      Forward u (.allow fresh t.clock true false) v := by
  obtain ⟨bound, idle⟩ := idle_beyond (step_of_forward run)
  have succeeded : Step t (.success id t.clock) _ := .success t.clock running
  have fresh : t.caller (max bound (id + 1)) = .idle := idle _ (by omega)
  have other : max bound (id + 1) ≠ id := by omega
  have waiting : Function.update t.caller id .recorded (max bound (id + 1)) = .idle := by
    rw [Function.update_of_ne other, fresh]
  have closed : t.breaker.recordSuccess.allow t.clock = some (true, t.breaker.recordSuccess) :=
    allow_closed rfl
  exact ⟨_, _, _, other, ⟨succeeded, le_rfl⟩, .allow waiting closed, le_rfl⟩

/-- Half-open, with nobody but the probe still to report. -/
structure Probing (probe : Nat) (s : Callers) : Prop where
  halfOpen : s.breaker.state = .halfOpen
  alone : ∀ id, s.caller id = .running → id = probe

theorem Probing.of_allow {now : ℚ} (taken : Step s (.allow probe now true true) t)
    (quiet : ∀ id, s.caller id ≠ .running) : Probing probe t := by
  obtain ⟨_, allowed, probes⟩ := taken.allow_inv
  have opened : s.breaker.state = .opened := of_decide_eq_true probes.symm
  refine ⟨?_, fun id running => ?_⟩
  · rcases allow_cases allowed with ⟨closed, _⟩ | ⟨_, _, _, _, _, same⟩ | ⟨_, _, _, _, refused, _⟩ |
      ⟨halfOpen, _⟩
    · exact absurd (opened.symm.trans closed) (by decide)
    · rw [same]
    · cases refused
    · exact absurd (opened.symm.trans halfOpen) (by decide)
  · rcases taken.running_origin running with before | ⟨_, _, same⟩
    · exact absurd before (quiet id)
    · cases same
      rfl

theorem refused_of_halfOpen {now : ℚ} {admitted flag : Bool} (halfOpen : s.breaker.state = .halfOpen)
    (taken : Step s (.allow id now admitted flag) t) :
    admitted = false ∧ t.breaker.state = .halfOpen := by
  obtain ⟨_, allowed, _⟩ := taken.allow_inv
  rcases allow_cases allowed with ⟨closed, _⟩ | ⟨_, opened, _⟩ | ⟨_, opened, _⟩ | ⟨_, refused, same⟩
  · exact absurd (halfOpen.symm.trans closed) (by decide)
  · exact absurd (halfOpen.symm.trans opened) (by decide)
  · exact absurd (halfOpen.symm.trans opened) (by decide)
  · exact ⟨refused, same ▸ halfOpen⟩

/-- Until the probe records its outcome, every `allow` is refused. -/
theorem Probing.step (probing : Probing probe s) (taken : Step s event t)
    (out : ¬ event.records probe) :
    Probing probe t ∧ ∀ id now flag, event ≠ .allow id now true flag := by
  have none : ∀ id now flag, event ≠ .allow id now true flag := by
    rintro id now flag rfl
    cases (refused_of_halfOpen probing.halfOpen taken).1
  refine ⟨⟨?_, fun id running => ?_⟩, none⟩
  · cases event with
    | allow id now admitted flag => exact (refused_of_halfOpen probing.halfOpen taken).2
    | success id now => exact absurd (probing.alone id (taken.running_of_records rfl)) out
    | failure id now => exact absurd (probing.alone id (taken.running_of_records rfl)) out
  · rcases taken.running_origin running with before | ⟨now, flag, same⟩
    · exact probing.alone id before
    · exact absurd same (none id now flag)

theorem Probing.run (probing : Probing probe t) (rest : Run Forward t later u)
    (out : ∀ event ∈ later, ¬ event.records probe) :
    Probing probe u ∧ ∀ id now flag, .allow id now true flag ∉ later := by
  induction rest with
  | start => exact ⟨probing, fun _ _ _ member => by simp at member⟩
  | @next past s' last t' _ taken ih =>
    obtain ⟨before, refused⟩ := ih fun event member => out event (List.mem_append_left _ member)
    have here : last ∈ past ++ [last] := List.mem_append_right _ (List.mem_singleton.mpr rfl)
    obtain ⟨after, none⟩ := before.step taken.1 (out last here)
    refine ⟨after, fun id now flag member => ?_⟩
    rcases List.mem_append.mp member with old | new
    · exact refused id now flag old
    · exact none id now flag (List.mem_singleton.mp new).symm

/-- The probe is the only call let in until it records its outcome, exactly
when no call admitted before it is still out. -/
theorem single_probe_iff {now : ℚ} (run : Run Forward (start failureThreshold cooldownS clock) trace s)
    (probed : Forward s (.allow probe now true true) t) :
    (∀ later u, Run Forward t later u → (∀ event ∈ later, ¬ event.records probe) →
      ∀ id time flag, .allow id time true flag ∉ later) ↔
      ∀ id, s.caller id ≠ .running := by
  constructor
  -- A call still out reports a success, which closes the circuit under the probe.
  · intro single id running
    have idle := probed.1.allow_inv.1
    have other : id ≠ probe := by rintro rfl; rw [idle] at running; cases running
    have still : t.caller id = .running := (probed.1.caller_other other).trans running
    obtain ⟨fresh, u, v, _, succeeded, admitted⟩ := stale_success_admits (run.next probed) still
    refine single _ v ((Run.single succeeded).next admitted) ?_ fresh t.clock false (by simp)
    intro event member records
    rcases List.mem_append.mp member with first | second
    · cases List.mem_singleton.mp first
      exact other records
    · cases List.mem_singleton.mp second
      exact records
  · intro quiet later u rest out
    exact ((Probing.of_allow probed.1 quiet).run rest out).2

/-- The breaker trips at once and nobody else is out when the probe is let in. -/
theorem single_probe_alone :
    ∃ s t, Forward s (.allow 1 5 true true) t ∧ ∀ later u, Run Forward t later u →
      (∀ event ∈ later, ¬ event.records 1) → ∀ id time flag, .allow id time true flag ∉ later := by
  have probed : ∃ t : Callers, Run Forward (start 1 5 0)
      ([.allow 0 0 true false, .failure 0 0] ++ [.allow 1 5 true true]) t ∧ t.caller 1 = .running :=
    Run.exists_of_execute Forward.of_advance (by decide +kernel)
  obtain ⟨t, whole, _⟩ := probed
  obtain ⟨s, run, taken⟩ := whole.snoc_inv
  refine ⟨s, t, taken, (single_probe_iff run taken).mpr fun id running => ?_⟩
  obtain ⟨now, flag, member⟩ := admitted_of_running (step_of_forward run) running
  have first : id = 0 := by simp_all
  have failure : Event.failure 0 0 ∈ [Event.allow 0 0 true false, .failure 0 0] := by simp
  have recorded := recorded_of_records (step_of_forward run) failure first.symm
  rw [running] at recorded
  cases recorded

/-- Two calls are out when the breaker trips. One of them reports a success
while the probe is out, and a third call is let in beside the probe. -/
theorem stale_success_beside_probe :
    ∃ s t u, Run Forward (start 1 5 0) [.allow 0 0 true false, .allow 1 0 true false, .failure 0 0] s ∧
      Forward s (.allow 2 5 true true) t ∧
      Run Forward t [.success 1 6, .allow 3 6 true false] u ∧
      ∀ event ∈ [Event.success 1 6, .allow 3 6 true false], ¬ event.records 2 := by
  have executed : ∃ u : Callers, Run Forward (start 1 5 0)
      (([.allow 0 0 true false, .allow 1 0 true false, .failure 0 0] ++ [.allow 2 5 true true]) ++
        [.success 1 6, .allow 3 6 true false]) u ∧ u.caller 2 = .running :=
    Run.exists_of_execute Forward.of_advance (by decide +kernel)
  obtain ⟨u, whole, _⟩ := executed
  obtain ⟨t, first, rest⟩ := whole.split
  obtain ⟨s, run, probed⟩ := first.snoc_inv
  exact ⟨s, t, u, run, probed, rest, by simp [Event.records]⟩

/-- Open since `openedAt`, with nobody left to report. -/
structure Cooling (cooldownS openedAt : ℚ) (s : Callers) : Prop where
  opened : s.breaker.state = .opened
  since : s.breaker.openedAt = some openedAt
  cooldown : s.breaker.cooldownS = cooldownS
  quiet : ∀ id, s.caller id ≠ .running

theorem Cooling.of_step (taken : Step s event t) (before : s.breaker.state ≠ .opened)
    (opened : t.breaker.state = .opened) (last : ∀ id, s.caller id = .running → event.records id) :
    Cooling t.breaker.cooldownS t.clock t := by
  have quiet : ∀ id, t.caller id = .running → ∃ now flag, event = .allow id now true flag := by
    intro id running
    rcases taken.running_origin running with out | admitted
    · have recorded := taken.records_caller (last id out)
      rw [running] at recorded
      cases recorded
    · exact admitted
  cases taken with
  | allow idle allowed =>
    rcases allow_cases allowed with ⟨closed, _, rfl⟩ | ⟨_, was, _⟩ | ⟨_, was, _⟩ | ⟨halfOpen, _, rfl⟩
    · exact absurd opened before
    · exact absurd was before
    · exact absurd was before
    · exact absurd opened before
  | success _ _ => cases opened
  | failure now active =>
    refine ⟨opened, ?_, rfl, fun id running => ?_⟩
    · rcases s.breaker.recordFailure_cases now with ⟨closed, _, same⟩ | ⟨was, _⟩ | ⟨_, since, _⟩
      · rw [same] at opened
        exact absurd opened before
      · exact absurd was before
      · exact since
    · obtain ⟨_, _, same⟩ := quiet id running
      cases same

/-- An `allow` of a cooling circuit is decided by the cooldown alone. -/
theorem Cooling.allow {openedAt now : ℚ} {admitted flag : Bool} (cooling : Cooling cooldownS openedAt s)
    (taken : Step s (.allow id now admitted flag) t) :
    (now < openedAt + cooldownS ∧ admitted = false ∧ Cooling cooldownS openedAt t) ∨
      (openedAt + cooldownS ≤ now ∧ admitted = true ∧ flag = true) := by
  obtain ⟨opened, since, cooldown, quiet⟩ := cooling
  obtain ⟨_, allowed, probes⟩ := taken.allow_inv
  rcases allow_cases allowed with ⟨closed, _⟩ | ⟨at', _, known, cooled, rfl, _⟩ |
    ⟨at', _, known, hot, rfl, same⟩ | ⟨halfOpen, _⟩
  · exact absurd (opened.symm.trans closed) (by decide)
  · cases since.symm.trans known
    rw [cooldown] at cooled
    exact Or.inr ⟨by linarith, rfl, by simpa [opened] using probes⟩
  · cases since.symm.trans known
    rw [cooldown] at hot
    refine Or.inl ⟨by linarith, rfl, same ▸ opened, same ▸ since, same ▸ cooldown, fun other running => ?_⟩
    rcases taken.running_origin running with out | ⟨_, _, admitted⟩
    · exact quiet other out
    · cases admitted
  · exact absurd (opened.symm.trans halfOpen) (by decide)

theorem Cooling.run {openedAt : ℚ} (cooling : Cooling cooldownS openedAt t)
    (rest : Run Forward t later u)
    (early : ∀ id now admitted flag, .allow id now admitted flag ∈ later → now < openedAt + cooldownS) :
    Cooling cooldownS openedAt u := by
  induction rest with
  | start => exact cooling
  | @next past s' last t' _ taken ih =>
    have before := ih fun id now admitted flag member =>
      early id now admitted flag (List.mem_append_left _ member)
    cases last with
    | allow id now admitted flag =>
      rcases before.allow taken.1 with ⟨_, _, after⟩ | ⟨late, _⟩
      · exact after
      · have soon := early id now admitted flag (by simp)
        exact absurd late (not_le.mpr soon)
    | success id now => exact absurd (taken.1.running_of_records rfl) (before.quiet id)
    | failure id now => exact absurd (taken.1.running_of_records rfl) (before.quiet id)

/-- After the circuit opens, its calls are refused up to the end of the
cooldown and the first one from then on is the probe, exactly when the call
whose failure opened it was the last one out. -/
theorem cooldown_iff (run : Run Forward (start failureThreshold cooldownS clock) trace s)
    (taken : Forward s event t) (before : s.breaker.state ≠ .opened)
    (opened : t.breaker.state = .opened) :
    (∀ later u, Run Forward t later u →
      (∀ id now admitted flag, .allow id now admitted flag ∈ later → now < t.clock + cooldownS) →
      ∀ id now admitted flag v, Forward u (.allow id now admitted flag) v →
        (now < t.clock + cooldownS → admitted = false) ∧
        (t.clock + cooldownS ≤ now → admitted = true ∧ flag = true)) ↔
      ∀ id, s.caller id = .running → event.records id := by
  have whole := run.next taken
  constructor
  -- Again a late success: the circuit is closed in the middle of its cooldown.
  · intro honoured id running
    by_contra stays
    have still : t.caller id = .running := by
      by_cases other : id = event.caller
      · subst other
        cases taken.1 with
        | allow idle _ => exact absurd (idle.symm.trans running) (by decide)
        | success _ _ => exact absurd rfl stays
        | failure _ _ => exact absurd rfl stays
      · exact (taken.1.caller_other other).trans running
    obtain ⟨fresh, u, v, _, succeeded, admitted⟩ := stale_success_admits whole still
    obtain ⟨refused, probes⟩ := honoured _ u (.single succeeded) (by simp) fresh _ _ _ v admitted
    rcases lt_or_ge t.clock (t.clock + cooldownS) with hot | cooled
    · cases refused hot
    · cases (probes cooled).2
  · intro last later u rest early id now admitted flag v next
    have cooldown : t.breaker.cooldownS = cooldownS :=
      (config_of_run (step_of_forward whole)).2
    have cooling := (Cooling.of_step taken.1 before opened last).run rest (cooldown ▸ early)
    rw [cooldown] at cooling
    rcases cooling.allow next.1 with ⟨hot, refused, _⟩ | ⟨cooled, answer, probes⟩
    · exact ⟨fun _ => refused, fun late => absurd hot (not_lt.mpr late)⟩
    · exact ⟨fun early => absurd cooled (not_le.mpr early), fun _ => ⟨answer, probes⟩⟩

/-- The only call out fails at 1; the cooldown of 5 is honoured from there. -/
theorem cooldown_honoured :
    ∃ s t, Forward s (.failure 0 1) t ∧ t.clock = 1 ∧ ∀ later u, Run Forward t later u →
      (∀ id now admitted flag, .allow id now admitted flag ∈ later → now < t.clock + 5) →
      ∀ id now admitted flag v, Forward u (.allow id now admitted flag) v →
        (now < t.clock + 5 → admitted = false) ∧
        (t.clock + 5 ≤ now → admitted = true ∧ flag = true) := by
  have opening : ∃ s : Callers, Run Forward (start 1 5 0) [.allow 0 0 true false] s ∧
      s.breaker.state ≠ .opened ∧ (s.advance (.failure 0 1)).any (·.breaker.state = .opened) = true :=
    Run.exists_of_execute Forward.of_advance (by decide +kernel)
  obtain ⟨s, run, closed, opens⟩ := opening
  obtain ⟨t, performed, opened⟩ := (Option.any_eq_true _ _).mp opens
  have taken := Forward.of_advance s _ t performed
  refine ⟨s, t, taken, taken.1.clock_eq,
    (cooldown_iff run taken closed (of_decide_eq_true opened)).mpr fun id running => ?_⟩
  obtain ⟨now, flag, member⟩ := admitted_of_running (step_of_forward run) running
  have only : id = 0 := by simp_all
  exact only.symm

/-- Two calls are out when the breaker opens at 1 for a cooldown of 5. One of
them reports a success at 2, and a call at 2 is let in. -/
theorem stale_success_cuts_cooldown :
    ∃ s t u, Run Forward (start 1 5 0) [.allow 0 0 true false, .allow 1 0 true false] s ∧
      s.breaker.state = .closed ∧ Forward s (.failure 0 1) t ∧ t.breaker.state = .opened ∧
      Run Forward t [.success 1 2, .allow 2 2 true false] u := by
  have opening : ∃ s : Callers,
      Run Forward (start 1 5 0) [.allow 0 0 true false, .allow 1 0 true false] s ∧
        s.breaker.state = .closed ∧ (s.advance (.failure 0 1)).any (fun t =>
          t.breaker.state = .opened ∧
            (execute Callers.advance t [.success 1 2, .allow 2 2 true false]).isSome) = true :=
    Run.exists_of_execute Forward.of_advance (by decide +kernel)
  obtain ⟨s, run, closed, opens⟩ := opening
  obtain ⟨t, performed, more⟩ := (Option.any_eq_true _ _).mp opens
  obtain ⟨opened, continues⟩ := of_decide_eq_true more
  obtain ⟨u, executed⟩ := Option.isSome_iff_exists.mp continues
  exact ⟨s, t, u, run, closed, .of_advance s _ t performed, opened,
    .of_execute Forward.of_advance executed⟩

end

end CircuitBreaker
end UrlShortener
