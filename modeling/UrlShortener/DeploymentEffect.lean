import UrlShortener.DeploymentSteps
import UrlShortener.ResolveMoves

namespace UrlShortener

/-- What every step that is not a resolve's own leaves as it was. -/
structure Quiet (w w' : World) : Prop where
  links : ∀ {code link}, w.links.get code = some link → w'.links.get code = some link
  flight : ∀ inst, (w'.instances inst).flight = (w.instances inst).flight
  cache : ∀ {inst code entry}, (w'.instances inst).cache.data.lookup code = some entry →
    (w.instances inst).cache.data.lookup code = some entry
  takedowns : ∀ {inst code}, (w.instances inst).takedowns.contains code = true →
    (w'.instances inst).takedowns.contains code = true
  kept : ∀ {id r}, w.task id = .resolve r → w'.task id = .resolve r
  begun : ∀ {id r}, w'.task id = .resolve r →
    w.task id = .resolve r ∨ (w.task id = .absent ∧ r.phase = .checking)
  present : ∀ {id}, w.task id ≠ .absent → w'.task id ≠ .absent
  elsewhere : ∃ acting, ∀ id, id ≠ acting → w'.task id = w.task id

/-- All that a step can do to the resolves and to what they read. -/
inductive Effect (settings : Settings) (w : World) (event : Event) : World → Prop
  | quiet {w'} : Quiet w w' → Effect settings w event w'
  | resolve {id r i phase} : w.task id = .resolve r →
      r.Move w.links id (w.instances r.inst) i phase →
      (∀ leader, r.phase = .waiting leader → event = .step id) →
      Effect settings w event (w.put r.inst i id (.resolve { r with phase := phase }))
  | restart (inst : Nat) : Effect settings w event (w.restart settings inst)

/-- All that a step can do to the resolves and to what they read, with the event
that does it. -/
inductive World.Act (settings : Settings) (w : World) : Event → World → Prop
  | quiet {event w'} : Quiet w w' → (∀ id r, event = .step id → w.task id ≠ .resolve r) →
      Act settings w event w'
  | resolved {id r i phase} : w.task id = .resolve r →
      r.advance w.links id (w.instances r.inst) = some (i, phase) →
      Act settings w (.step id) (w.put r.inst i id (.resolve { r with phase := phase }))
  | failed {id r fault i phase} : w.task id = .resolve r →
      r.fail id (w.instances r.inst) fault = some (i, phase) →
      Act settings w (.fail id fault) (w.put r.inst i id (.resolve { r with phase := phase }))
  | restarted (inst : Nat) : Act settings w (.restart inst) (w.restart settings inst)

section
variable {settings : Settings} {w w' : World} {event : Event} {id inst : Nat} {i : Instance} {t t' : Task}

theorem Quiet.begin (started : w.begin id t = some w')
    (first : ∀ r, t = .resolve r → r.phase = .checking) : Quiet w w' := by
  obtain ⟨absent, same⟩ := Option.ite_none_right_eq_some.mp started
  cases same
  have elsewhere {other : Nat} {r : Resolve} (known : w.task other = .resolve r) : other ≠ id := by
    rintro rfl
    rw [absent] at known
    cases known
  refine ⟨fun stored => stored, fun _ => rfl, fun held => held, fun marked => marked, ?_, ?_, ?_, id,
    fun other different => Function.update_of_ne different ..⟩
  · intro other r known
    exact (Function.update_of_ne (elsewhere known) ..).trans known
  · intro other r known
    by_cases same : other = id
    · subst same
      exact Or.inr ⟨absent, first r ((Function.update_self ..).symm.trans known)⟩
    · exact Or.inl ((Function.update_of_ne same ..).symm.trans known)
  · intro other known gone
    by_cases same : other = id
    · rw [same] at known
      exact known absent
    · exact known ((Function.update_of_ne same ..).symm.trans gone)

/-- A task that is no resolve moves on. To a resolve, what it does to its
instance is at most an eviction or a takedown. -/
theorem Quiet.of_task (known : w.task id = t') (before : ∀ r, t' ≠ .resolve r) (busy : t ≠ .absent)
    (after : ∀ r, t ≠ .resolve r) (task : w'.task = Function.update w.task id t)
    (links : ∀ {code link}, w.links.get code = some link → w'.links.get code = some link)
    (instances : w'.instances = Function.update w.instances inst i)
    (flight : i.flight = (w.instances inst).flight)
    (cache : ∀ {code entry}, i.cache.data.lookup code = some entry →
      (w.instances inst).cache.data.lookup code = some entry)
    (takedowns : ∀ {code}, (w.instances inst).takedowns.contains code = true →
      i.takedowns.contains code = true) : Quiet w w' := by
  refine ⟨links, ?_, ?_, ?_, ?_, ?_, ?_, id, fun other different => ?_⟩
  · intro other
    rw [instances]
    by_cases same : other = inst
    · rw [same, Function.update_self, flight]
    · rw [Function.update_of_ne same]
  · intro other code entry held
    rw [instances] at held
    by_cases same : other = inst
    · subst same
      rw [Function.update_self] at held
      exact cache held
    · rwa [Function.update_of_ne same] at held
  · intro other code marked
    rw [instances]
    by_cases same : other = inst
    · subst same
      rw [Function.update_self]
      exact takedowns marked
    · rwa [Function.update_of_ne same]
  · intro other r held
    have different : other ≠ id := by rintro rfl; exact before r (known.symm.trans held)
    rw [task, Function.update_of_ne different, held]
  · intro other r held
    rw [task] at held
    by_cases same : other = id
    · rw [same, Function.update_self] at held
      exact absurd held (after r)
    · rw [Function.update_of_ne same] at held
      exact Or.inl held
  · intro other present
    rw [task]
    by_cases same : other = id
    · rwa [same, Function.update_self]
    · rwa [Function.update_of_ne same]
  · rw [task, Function.update_of_ne different]

/-- As above, for a task that moves on without touching its instance. -/
theorem Quiet.of_task_only (known : w.task id = t') (before : ∀ r, t' ≠ .resolve r) (busy : t ≠ .absent)
    (after : ∀ r, t ≠ .resolve r) (task : w'.task = Function.update w.task id t)
    (links : ∀ {code link}, w.links.get code = some link → w'.links.get code = some link)
    (instances : w'.instances = w.instances) : Quiet w w' :=
  @Quiet.of_task w w' id 0 (w.instances 0) t t' known before busy after task links
    (instances.trans (Function.update_eq_self ..).symm) rfl (fun held => held) fun marked => marked

theorem Quiet.flushCache (w : World) (inst : Nat) : Quiet w (w.flushCache inst) := by
  refine ⟨fun stored => stored, ?_, ?_, ?_, fun known => known, fun known => Or.inl known,
    fun known => known, 0, fun _ _ => rfl⟩
  · intro other
    by_cases same : other = inst
    · rw [same, w.flushCache_instance]
    · rw [w.flushCache_instance_other same]
  · intro other code entry held
    by_cases same : other = inst
    · rw [same, w.flushCache_instance] at held
      cases (AList.lookup_empty code).symm.trans held
    · rwa [w.flushCache_instance_other same] at held
  · intro other code marked
    by_cases same : other = inst
    · rw [same] at marked ⊢
      rwa [w.flushCache_instance]
    · rwa [w.flushCache_instance_other same]

theorem World.Act.of_begin (begins : event.begins settings = some (id, t)) (absent : w.task id = .absent) :
    w.Act settings event { w with task := Function.update w.task id t } := by
  refine .quiet (.begin (if_pos absent) fun r same => ?_) fun other r same => ?_
  · subst same
    cases event <;> cases begins
    rfl
  · subst same
    cases begins

theorem World.Turn.act (turn : w.Turn settings event w') : w.Act settings event w' := by
  have other {id id' : Nat} {t : Task} (known : w.task id = t) (distinct : ∀ r, t ≠ .resolve r) (r : Resolve)
      (same : Event.step id = .step id') : w.task id' ≠ .resolve r := by
    cases same
    rw [known]
    exact distinct r
  cases turn with
  | begun begins absent => exact .of_begin begins absent
  | resolved known advanced => exact .resolved known advanced
  | resolveFailed known failed => exact .failed known failed
  | attempted known attempted =>
    refine .quiet (.of_task_only known (fun _ => Task.noConfusion) Task.noConfusion (fun _ => Task.noConfusion)
      rfl ?_ rfl) fun _ _ => Event.noConfusion
    intro code link stored
    exact Create.attempt_keeps attempted stored
  | created known advanced =>
    obtain ⟨flight, takedowns, cache⟩ := Create.advance_cases advanced
    refine .quiet (.of_task known (fun _ => Task.noConfusion) Task.noConfusion (fun _ => Task.noConfusion)
      rfl (fun stored => stored) rfl flight ?_ ?_) fun _ => other known fun _ => Task.noConfusion
    · intro code entry held
      exact cache ▸ held
    · intro code marked
      exact takedowns ▸ marked
  | createFailed known _ | takedownFailed known _ | pollFailed known _ =>
    exact .quiet (.of_task_only known (fun _ => Task.noConfusion) Task.noConfusion (fun _ => Task.noConfusion)
      rfl (fun stored => stored) rfl) fun _ _ => Event.noConfusion
  | tookDown known advanced =>
    obtain ⟨flight, cache, takedowns⟩ := Takedown.advance_cases advanced
    exact .quiet (.of_task known (fun _ => Task.noConfusion) Task.noConfusion (fun _ => Task.noConfusion)
      rfl (fun stored => stored) rfl flight cache takedowns) fun _ => other known fun _ => Task.noConfusion
  | polled known polled =>
    obtain ⟨flight, takedowns, cache⟩ := Instance.poll_cases polled
    exact .quiet (.of_task known (fun _ => Task.noConfusion) Task.noConfusion (fun _ => Task.noConfusion)
      rfl (fun stored => stored) rfl flight cache fun marked => takedowns ▸ marked)
      fun _ => other known fun _ => Task.noConfusion
  | flushed inst => exact .quiet (.flushCache w inst) fun _ _ => Event.noConfusion
  | restarted inst => exact .restarted inst

theorem World.Step.act (taken : w.Step settings event w') : w.Act settings event w' :=
  taken.turn.act

theorem World.Step.effect (taken : w.Step settings event w') : Effect settings w event w' := by
  cases taken.act with
  | quiet quiet _ => exact .quiet quiet
  | resolved known advanced => exact .resolve known (.of_advance advanced) fun _ _ => rfl
  | failed known failed =>
    refine .resolve known (.of_fail failed) fun leader waiting => ?_
    simp only [Resolve.fail, waiting] at failed
    cases failed
  | restarted inst => exact .restart inst

end

end UrlShortener
