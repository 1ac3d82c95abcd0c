import UrlShortener.DeploymentEffect

namespace UrlShortener
open Transition

/-- Every cached target is that of the stored link, with its expiry. -/
def LinkStore.Backs (links : LinkStore) (cache : LruCache String String) : Prop :=
  ∀ code target expiresMs, cache.data.lookup code = some (target, expiresMs) →
    ∃ link, links.get code = some link ∧ link.target = target ∧ link.expiresMs = expiresMs

/-- The stored link of `code` leads to `target` and has not expired at `nowMs`. -/
def LinkStore.Live (links : LinkStore) (code target : String) (nowMs : Int) : Prop :=
  ∃ link, links.get code = some link ∧ link.target = target ∧ link.isExpired nowMs = false

theorem LinkStore.Backs.live {links : LinkStore} {cache : LruCache String String} {code target : String}
    {nowMs : Int} (backed : links.Backs cache) (hit : (cache.get code nowMs).1 = some target) :
    links.Live code target nowMs := by
  obtain ⟨expiresMs, held, fresh⟩ := LruCache.get_hit hit
  obtain ⟨link, stored, same, expiry⟩ := backed _ _ _ held
  refine ⟨link, stored, same, ?_⟩
  rw [Link.isExpired, expiry]
  exact fresh

/-- A world as the steps of its requests leave it. -/
structure World.Sound (w : World) : Prop where
  backed : ∀ inst, w.links.Backs (w.instances inst).cache
  led : ∀ {inst code leader}, (w.instances inst).flight.calls code = some leader →
    ∃ r, w.task leader = .resolve r ∧ r.inst = inst ∧ r.code = code ∧ r.phase.leads
  storing : ∀ {id r link}, w.task id = .resolve r → r.phase = .storing link →
    w.links.get r.code = some link ∧ link.isExpired r.nowMs = false

section
variable {settings : Settings} {w w' : World} {event : Event} {id inst : Nat} {i : Instance}
  {r : Resolve} {phase : ResolvePhase}

theorem Task.stop_resolve {t : Task} (stopped : t.stop inst = .resolve r) :
    t = .resolve r ∧ (Task.resolve r).runsOn ≠ some inst := by
  unfold stop at stopped
  split at stopped
  · cases stopped
  · rename_i elsewhere
    exact ⟨stopped, stopped ▸ elsewhere⟩

theorem Task.stop_elsewhere (elsewhere : r.inst ≠ inst) : (Task.resolve r).stop inst = .resolve r := by
  refine if_neg fun here => ?_
  obtain ⟨_, same⟩ := Option.ite_none_left_eq_some.mp here
  exact elsewhere (Option.some.inj same)

theorem Task.elsewhere_of_running (running : r.phase.over = false)
    (survived : (Task.resolve r).runsOn ≠ some inst) : r.inst ≠ inst := by
  rintro rfl
  exact survived (if_neg (by rw [running]; decide))

/-- A resolve that moves keeps what it was asked for. -/
theorem World.put_keeps (known : w.task id = .resolve r) {other : Nat} {q : Resolve}
    (held : w.task other = .resolve q) :
    ∃ q', (w.put inst i id (.resolve { r with phase := phase })).task other = .resolve q' ∧
      q'.inst = q.inst ∧ q'.code = q.code ∧ q'.nowMs = q.nowMs := by
  by_cases own : other = id
  · subst own
    cases known.symm.trans held
    exact ⟨_, w.put_task, rfl, rfl, rfl⟩
  · exact ⟨q, (w.put_task_other own).trans held, rfl, rfl, rfl⟩

theorem World.restart_keeps (known : w.task id = .resolve r) (elsewhere : r.inst ≠ inst) :
    (w.restart settings inst).task id = .resolve r := by
  show (w.task id).stop inst = _
  rw [known]
  exact Task.stop_elsewhere elsewhere

theorem World.Sound.start (settings : Settings) : (World.start settings).Sound where
  backed _ _ _ _ held := by cases (AList.lookup_empty _).symm.trans held
  led entered := by cases entered
  storing known := by cases known

theorem World.Sound.quiet (sound : w.Sound) (quiet : Quiet w w') : w'.Sound where
  backed inst code target expiresMs held := by
    obtain ⟨link, stored, same⟩ := sound.backed inst _ _ _ (quiet.cache held)
    exact ⟨link, quiet.links stored, same⟩
  led {inst code leader} entered := by
    rw [quiet.flight] at entered
    obtain ⟨r, known, own⟩ := sound.led entered
    exact ⟨r, quiet.kept known, own⟩
  storing {id r link} known phase := by
    rcases quiet.begun known with before | ⟨_, checking⟩
    · obtain ⟨stored, fresh⟩ := sound.storing before phase
      exact ⟨quiet.links stored, fresh⟩
    · rw [checking] at phase
      cases phase

/-- The links that a load reads may be fewer than those in the store. -/
theorem World.Sound.resolve {links : LinkStore} (sound : w.Sound) (known : w.task id = .resolve r)
    (kept : ∀ {code link}, links.get code = some link → w.links.get code = some link)
    (move : r.Move links id (w.instances r.inst) i phase) :
    (w.put r.inst i id (.resolve { r with phase := phase })).Sound where
  backed inst code target expiresMs held := by
    rw [w.put_links]
    by_cases here : inst = r.inst
    · rw [here, w.put_instance] at held
      rcases move.cache held with before | ⟨link, storing, rfl, same⟩
      · exact sound.backed r.inst _ _ _ before
      · cases same
        exact ⟨link, (sound.storing known storing).1, rfl, rfl⟩
    · rw [w.put_instance_other here] at held
      exact sound.backed inst _ _ _ held
  led {inst code leader} entered := by
    by_cases here : inst = r.inst
    · subst here
      rw [w.put_instance] at entered
      rcases move.calls entered with ⟨before, leads⟩ | ⟨rfl, rfl, leads⟩
      · obtain ⟨q, led, sameInst, sameCode, leading⟩ := sound.led before
        by_cases own : leader = id
        · subst own
          cases known.symm.trans led
          exact ⟨_, w.put_task, sameInst, sameCode, leads sameCode.symm leading⟩
        · exact ⟨q, (w.put_task_other own).trans led, sameInst, sameCode, leading⟩
      · exact ⟨_, w.put_task, rfl, rfl, leads⟩
    · rw [w.put_instance_other here] at entered
      obtain ⟨q, led, sameInst, sameCode, leading⟩ := sound.led entered
      have own : leader ≠ id := by
        rintro rfl
        cases known.symm.trans led
        exact here sameInst.symm
      exact ⟨q, (w.put_task_other own).trans led, sameInst, sameCode, leading⟩
  storing {other q link} held storing := by
    by_cases own : other = id
    · subst own
      cases w.put_task.symm.trans held
      cases storing
      exact move.storing.imp_left kept
    · exact sound.storing ((w.put_task_other own).symm.trans held) storing

theorem World.Sound.restart (sound : w.Sound) (settings : Settings) (inst : Nat) :
    (w.restart settings inst).Sound where
  backed other code target expiresMs held := by
    rw [w.restart_links]
    by_cases here : other = inst
    · rw [here, w.restart_instance] at held
      cases (AList.lookup_empty _).symm.trans held
    · rw [w.restart_instance_other here] at held
      exact sound.backed other _ _ _ held
  led {other code leader} entered := by
    by_cases here : other = inst
    · rw [here, w.restart_instance] at entered
      cases entered
    · rw [w.restart_instance_other here] at entered
      obtain ⟨q, led, sameInst, own⟩ := sound.led entered
      exact ⟨q, World.restart_keeps led (sameInst ▸ here), sameInst, own⟩
  storing {id r link} held storing := sound.storing (Task.stop_resolve held).1 storing

theorem World.Sound.step (sound : w.Sound) (taken : w.Step settings event w') : w'.Sound := by
  cases taken.effect with
  | quiet quiet => exact sound.quiet quiet
  | resolve known move _ => exact sound.resolve known id move
  | restart inst => exact sound.restart settings inst

theorem World.sound_of_run {trace : List Event}
    (run : Run (World.Step settings) (World.start settings) trace w) : w.Sound := by
  induction run with
  | start => exact .start settings
  | next _ taken ih => exact ih.step taken

end

end UrlShortener
