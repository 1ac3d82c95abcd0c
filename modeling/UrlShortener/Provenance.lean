import UrlShortener.DeploymentSound

namespace UrlShortener
open Transition

/-- A statement about a code, a target and a clock that a stored link which has
not expired makes true, and that stays true as links are added. -/
structure Vouching (vouch : LinkStore → String → String → Int → Prop) : Prop where
  live : ∀ {links : LinkStore} {code target nowMs}, links.Live code target nowMs → vouch links code target nowMs
  grows : ∀ {links links' : LinkStore} {code target nowMs},
    (∀ {known link}, links.get known = some link → links'.get known = some link) →
    vouch links code target nowMs → vouch links' code target nowMs

namespace World

/-- Every target on its way to an answer is vouched for. -/
structure Vouched (vouch : LinkStore → String → String → Int → Prop) (w : World) : Prop where
  shared : ∀ {inst leader target}, ((w.instances inst).flight.object leader).value = some target →
    ∃ q, w.task leader = .resolve q ∧ q.inst = inst ∧ vouch w.links q.code target q.nowMs
  waiting : ∀ {id r leader}, w.task id = .resolve r → r.phase = .waiting leader →
    ∃ q, w.task leader = .resolve q ∧ q.inst = r.inst ∧ q.code = r.code
  carried : ∀ {id r target}, w.task id = .resolve r → r.phase.carries target →
    vouch w.links r.code target r.nowMs

/-- What a waiter is handed is vouched for by its own clock, too. -/
def Hands (vouch : LinkStore → String → String → Int → Prop) (w : World) (event : Event) : Prop :=
  ∀ {id r q leader target}, event = .step id → w.task id = .resolve r → r.phase = .waiting leader →
    w.task leader = .resolve q → q.code = r.code → vouch w.links r.code target q.nowMs →
    vouch w.links r.code target r.nowMs

variable {vouch : LinkStore → String → String → Int → Prop} {settings : Settings} {w w' : World} {event : Event}
  {id inst : Nat} {i : Instance} {r : Resolve} {phase : ResolvePhase}

theorem Vouched.start (vouch : LinkStore → String → String → Int → Prop) (settings : Settings) :
    (World.start settings).Vouched vouch where
  shared known := by cases known
  waiting known := by cases known
  carried known := by cases known

theorem Vouched.quiet (vouched : w.Vouched vouch) (vouching : Vouching vouch) (quiet : Quiet w w') :
    w'.Vouched vouch where
  shared {inst leader target} known := by
    rw [quiet.flight] at known
    obtain ⟨q, led, sameInst, known⟩ := vouched.shared known
    exact ⟨q, quiet.kept led, sameInst, vouching.grows quiet.links known⟩
  waiting {id r leader} known phase := by
    rcases quiet.begun known with before | ⟨_, checking⟩
    · obtain ⟨q, led, same⟩ := vouched.waiting before phase
      exact ⟨q, quiet.kept led, same⟩
    · rw [checking] at phase
      cases phase
  carried {id r target} known carries := by
    rcases quiet.begun known with before | ⟨_, checking⟩
    · exact vouching.grows quiet.links (vouched.carried before carries)
    · rw [checking] at carries
      exact carries.elim

/-- The target a resolve moves to is vouched for, if it moves to any. -/
theorem Vouched.move (vouched : w.Vouched vouch) (vouching : Vouching vouch) (sound : w.Sound)
    (known : w.task id = .resolve r) (move : r.Move w.links id (w.instances r.inst) i phase)
    (hands : ∀ {leader}, r.phase = .waiting leader → w.Hands vouch (.step id)) {target : String}
    (carries : phase.carries target) : vouch w.links r.code target r.nowMs := by
  rcases move.carries carries with before | hit | ⟨link, storing, rfl⟩ | ⟨leader, waiting, woken⟩
  · exact vouched.carried known before
  · exact vouching.live ((sound.backed r.inst).live hit)
  · obtain ⟨stored, fresh⟩ := sound.storing known storing
    exact vouching.live ⟨link, stored, rfl, fresh⟩
  -- Only a wake-up brings in an answer found by another clock.
  · obtain ⟨q, led, _, found⟩ := vouched.shared (SingleFlight.wake_value woken)
    obtain ⟨q', led', _, sameCode⟩ := vouched.waiting known waiting
    cases led.symm.trans led'
    rw [sameCode] at found
    exact hands waiting rfl known waiting led sameCode found

theorem Vouched.resolve (vouched : w.Vouched vouch) (sound : w.Sound) (known : w.task id = .resolve r)
    (move : r.Move w.links id (w.instances r.inst) i phase)
    (found : ∀ target, phase.carries target → vouch w.links r.code target r.nowMs) :
    (w.put r.inst i id (.resolve { r with phase := phase })).Vouched vouch where
  shared {inst leader target} value := by
    rw [w.put_links]
    have kept (before : ((w.instances inst).flight.object leader).value = some target) :
        ∃ q, (w.put r.inst i id (.resolve { r with phase := phase })).task leader = .resolve q ∧
          q.inst = inst ∧ vouch w.links q.code target q.nowMs := by
      obtain ⟨q, led, sameInst, alive⟩ := vouched.shared before
      obtain ⟨q', led', inst', code', nowMs'⟩ := World.put_keeps known led
      exact ⟨q', led', inst'.trans sameInst, by rw [code', nowMs']; exact alive⟩
    by_cases here : inst = r.inst
    · subst here
      rw [w.put_instance] at value
      rcases move.value value with before | ⟨rfl, carries⟩
      · exact kept before
      · exact ⟨_, w.put_task, rfl, found target carries⟩
    · rw [w.put_instance_other here] at value
      exact kept value
  waiting {other q leader} held waiting := by
    have led : ∃ q', w.task leader = .resolve q' ∧ q'.inst = q.inst ∧ q'.code = q.code := by
      by_cases own : other = id
      · subst own
        cases w.put_task.symm.trans held
        cases waiting
        obtain ⟨q', led, sameInst, sameCode, _⟩ := sound.led move.waiting
        exact ⟨q', led, sameInst, sameCode⟩
      · exact vouched.waiting ((w.put_task_other own).symm.trans held) waiting
    obtain ⟨q', led, sameInst, sameCode⟩ := led
    obtain ⟨q'', led', inst', code', _⟩ := World.put_keeps known led
    exact ⟨q'', led', inst'.trans sameInst, code'.trans sameCode⟩
  carried {other q target} held carries := by
    by_cases own : other = id
    · subst own
      cases w.put_task.symm.trans held
      exact found target carries
    · exact vouched.carried ((w.put_task_other own).symm.trans held) carries

theorem Vouched.restart (vouched : w.Vouched vouch) (settings : Settings) (inst : Nat) :
    (w.restart settings inst).Vouched vouch where
  shared {other leader target} value := by
    by_cases here : other = inst
    · rw [here, w.restart_instance] at value
      cases value
    · rw [w.restart_instance_other here] at value
      obtain ⟨q, led, sameInst, found⟩ := vouched.shared value
      exact ⟨q, World.restart_keeps led (sameInst ▸ here), sameInst, found⟩
  waiting {id r leader} held waiting := by
    obtain ⟨before, survived⟩ := Task.stop_resolve held
    have elsewhere : r.inst ≠ inst := Task.elsewhere_of_running (by rw [waiting]; rfl) survived
    obtain ⟨q, led, sameInst, sameCode⟩ := vouched.waiting before waiting
    exact ⟨q, World.restart_keeps led (sameInst ▸ elsewhere), sameInst, sameCode⟩
  carried held carries := vouched.carried (Task.stop_resolve held).1 carries

theorem Vouched.step (vouched : w.Vouched vouch) (vouching : Vouching vouch) (sound : w.Sound)
    (taken : w.Step settings event w') (hands : w.Hands vouch event) : w'.Vouched vouch := by
  cases taken.effect with
  | quiet quiet => exact vouched.quiet vouching quiet
  | resolve known move acting =>
    refine vouched.resolve sound known move fun target carries => ?_
    exact vouched.move vouching sound known move (fun waiting => acting _ waiting ▸ hands) carries
  | restart inst => exact vouched.restart settings inst

theorem vouched_of_run {step : World → Event → World → Prop} {trace : List Event} (vouching : Vouching vouch)
    (steps : ∀ u label v, step u label v → u.Step settings label v ∧ u.Hands vouch label)
    (run : Run step (World.start settings) trace w) : w.Vouched vouch := by
  induction run with
  | start => exact .start vouch settings
  | next before taken ih =>
    obtain ⟨took, hands⟩ := steps _ _ _ taken
    exact ih.step vouching (World.sound_of_run (before.weaken fun _ _ _ step => (steps _ _ _ step).1)) took hands

/-- The stored link of `code` leads to `target`. -/
def Leads (links : LinkStore) (code target : String) (_nowMs : Int) : Prop :=
  ∃ link, links.get code = some link ∧ link.target = target

theorem vouching_leads : Vouching Leads where
  live known := by
    obtain ⟨link, stored, same, _⟩ := known
    exact ⟨link, stored, same⟩
  grows growing known := by
    obtain ⟨link, stored, same⟩ := known
    exact ⟨link, growing stored, same⟩

/-- Whatever the clocks read, a request is sent to the target of its own link. -/
theorem leads_of_run {trace : List Event} {target : String}
    (run : Run (World.Step settings) (World.start settings) trace w) (known : w.task id = .resolve r)
    (carries : r.phase.carries target) : Leads w.links r.code target r.nowMs :=
  (vouched_of_run vouching_leads (fun _ _ _ step => ⟨step, fun _ _ _ _ _ found => found⟩) run).carried known carries

end World
end UrlShortener
