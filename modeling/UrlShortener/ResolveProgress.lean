import UrlShortener.DeploymentSound

namespace UrlShortener
open Transition

/-- The steps of one resolve, as they act on its instance and its phase. -/
def Resolve.Alone (links : LinkStore) (id : Nat) (r : Resolve) (a : Instance × ResolvePhase) (_ : Unit)
    (b : Instance × ResolvePhase) : Prop :=
  Resolve.advance links id a.1 { r with phase := a.2 } = some b

/-- Left alone, the resolve is answered with `target`. -/
def Resolve.Reaches (r : Resolve) (links : LinkStore) (id : Nat) (a : Instance × ResolvePhase)
    (target : String) : Prop :=
  ∃ ticks i phase, Run (r.Alone links id) a ticks (i, phase) ∧
    ({ r with phase := phase } : Resolve).Shows target

section
variable {settings : Settings} {w : World} {trace : List Event} {id inst : Nat} {code : String}
  {i : Instance} {r : Resolve} {phase : ResolvePhase} {links : LinkStore} {link : Link}

theorem World.step_of_advance (known : w.task id = .resolve r)
    (advanced : r.advance w.links id (w.instances r.inst) = some (i, phase)) :
    w.Step settings (.step id) (w.put r.inst i id (.resolve { r with phase := phase })) := by
  show w.advance settings id = some _
  unfold World.advance
  rw [known]
  exact congrArg (Option.map _) advanced

theorem World.step_of_fail {fault : Fault} (known : w.task id = .resolve r)
    (failed : r.fail id (w.instances r.inst) fault = some (i, phase)) :
    w.Step settings (.fail id fault) (w.put r.inst i id (.resolve { r with phase := phase })) := by
  show w.fail id fault = some _
  unfold World.fail
  rw [known]
  exact congrArg (Option.map _) failed

/-- One resolve can go its way while every other task stands still. -/
theorem World.run_of_alone {ticks : List Unit} (known : w.task id = .resolve r)
    (alone : Run (r.Alone w.links id) (w.instances r.inst, r.phase) ticks (i, phase)) :
    ∃ later, Run (World.Step settings) w later (w.put r.inst i id (.resolve { r with phase := phase })) := by
  generalize reached : (i, phase) = last at alone
  induction alone generalizing i phase with
  | start =>
    cases reached
    exact ⟨[], by rw [← known, w.put_self]; exact .start⟩
  | @next past a tick b _ taken ih =>
    obtain ⟨j, middle⟩ := a
    subst reached
    obtain ⟨later, run⟩ := ih rfl
    have here : (w.put r.inst j id (.resolve { r with phase := middle })).task id =
        .resolve { r with phase := middle } := w.put_task
    have step := @World.step_of_advance settings _ _ i { r with phase := middle } phase here
      (w.put_instance.symm ▸ taken)
    rw [World.put_put] at step
    exact ⟨_, run.next step⟩

theorem Resolve.Reaches.after {a b : Instance × ResolvePhase} {target : String}
    (rest : r.Reaches links id b target) (taken : r.Alone links id a () b) :
    r.Reaches links id a target := by
  obtain ⟨ticks, i, phase, run, shows⟩ := rest
  exact ⟨() :: ticks, i, phase, .cons taken run, shows⟩

theorem Resolve.reaches_of_serving (r : Resolve) (links : LinkStore) (id : Nat) (i : Instance)
    (target : String) : r.Reaches links id (i, .serving (some target)) target := by
  cases flag : i.interstitials r.code with
  | none =>
    have served : r.Alone links id (i, .serving (some target)) () (i, .answered (.redirect target)) := by
      simp only [Alone, advance, flag, Option.isSome_none, Bool.false_eq_true, if_false]
    exact ⟨[()], i, _, .single served, Or.inl rfl⟩
  | some reason =>
    have served : r.Alone links id (i, .serving (some target)) () (i, .showing target) := by
      simp only [Alone, advance, flag, Option.isSome_some, if_true]
    have shown : r.Alone links id (i, .showing target) () (i, .answered (.page target reason)) := by
      simp only [Alone, advance, flag]
    exact Reaches.after ⟨[()], i, _, .single shown, Or.inr ⟨reason, rfl⟩⟩ served

theorem Resolve.reaches_of_settled (r : Resolve) (links : LinkStore) (id : Nat) (i : Instance)
    (target : String) :
    r.Reaches links id (i, .deregistering (.returned (some target))) target := by
  have served := r.reaches_of_serving links id
    { i with flight := (i.flight.deregister r.code).release id } target
  have released : r.Reaches links id
      ({ i with flight := i.flight.deregister r.code }, .releasing (.returned (some target))) target :=
    served.after rfl
  exact released.after rfl

theorem Resolve.target_of_hit {target : String} (backed : links.Backs i.cache)
    (stored : links.get r.code = some link) (hit : (i.cache.get r.code r.nowMs).1 = some target) :
    target = link.target := by
  obtain ⟨row, known, same, _⟩ := LinkStore.Backs.live backed hit
  cases stored.symm.trans known
  exact same.symm

/-- A leader brings the target from the cache or from the store. -/
theorem Resolve.reaches_of_loading (id : Nat) (backed : links.Backs i.cache)
    (stored : links.get r.code = some link) (fresh : link.isExpired r.nowMs = false) :
    r.Reaches links id (i, .loading) link.target := by
  cases found : (i.cache.get r.code r.nowMs).1 with
  | some target =>
    cases target_of_hit backed stored found
    have hit : r.Alone links id (i, .loading) ()
        (({ i with cache := (i.cache.get r.code r.nowMs).2 } : Instance).settle id
          (.returned (some link.target))) := by
      simp only [Alone, advance, found]
    exact (r.reaches_of_settled links id _ link.target).after hit
  | none =>
    have missed : r.Alone links id (i, .loading) ()
        ({ i with cache := (i.cache.get r.code r.nowMs).2 }, .fetching) := by
      simp only [Alone, advance, found]
    have fetched (j : Instance) : r.Alone links id (j, .fetching) () (j, .storing link) := by
      simp only [Alone, advance, stored, fresh, Bool.false_eq_true, if_false]
    have put (j : Instance) : r.Reaches links id (j, .storing link) link.target :=
      (r.reaches_of_settled links id
        (({ j with cache := j.cache.put r.code link.target link.expiresMs } : Instance).settle id
          (.returned (some link.target))).1 link.target).after rfl
    exact ((put _).after (fetched _)).after missed

theorem Resolve.reaches_of_joining (id : Nat) (free : i.flight.calls r.code = none)
    (backed : links.Backs i.cache) (stored : links.get r.code = some link)
    (fresh : link.isExpired r.nowMs = false) : r.Reaches links id (i, .joining) link.target := by
  have joined : (i.flight.join r.code id).1 = none := by simp only [SingleFlight.join, free]
  have leads : r.Alone links id (i, .joining) ()
      ({ i with flight := (i.flight.join r.code id).2 }, .loading) := by
    simp only [Alone, advance, joined]
  refine Reaches.after ?_ leads
  exact reaches_of_loading id backed stored fresh

/-- A resolve whose code is not on the list of its instance reaches the target
of its link, unless another one is loading it. -/
theorem Resolve.reaches_of_checking (id : Nat) (unlisted : i.takedowns.contains r.code = false)
    (free : i.flight.calls r.code = none) (backed : links.Backs i.cache)
    (stored : links.get r.code = some link) (fresh : link.isExpired r.nowMs = false) :
    r.Reaches links id (i, .checking) link.target := by
  have checked : r.Alone links id (i, .checking) () (i, .reading) := by
    simp only [Alone, advance, unlisted, Bool.false_eq_true, if_false]
  refine Reaches.after ?_ checked
  cases found : (i.cache.get r.code r.nowMs).1 with
  | some target =>
    cases target_of_hit backed stored found
    have hit : r.Alone links id (i, .reading) ()
        ({ i with cache := (i.cache.get r.code r.nowMs).2 }, .serving (some link.target)) := by
      simp only [Alone, advance, found]
    exact (r.reaches_of_serving links id _ link.target).after hit
  | none =>
    have missed : r.Alone links id (i, .reading) ()
        ({ i with cache := (i.cache.get r.code r.nowMs).2 }, .joining) := by
      simp only [Alone, advance, found]
    refine Reaches.after ?_ missed
    exact reaches_of_joining id free
      (fun code target expiresMs held => backed code target expiresMs (LruCache.lookup_get held)) stored fresh

theorem Resolve.fails (id : Nat) (i : Instance) (fault : Fault) (leads : r.phase.leads) :
    (∃ outcome, r.phase = .deregistering outcome) ∨ r.fail id i fault = some (i.settle id fault.outcome) := by
  unfold fail
  cases phase : r.phase with
  | loading => exact Or.inr rfl
  | fetching => exact Or.inr rfl
  | storing link => exact Or.inr rfl
  | deregistering outcome => exact Or.inl ⟨outcome, rfl⟩
  | _ =>
    rw [phase] at leads
    exact leads.elim

/-- A leader can always end its flight, if need be by an abort of its load. -/
theorem World.leader_leaves (known : w.task id = .resolve r) (leads : r.phase.leads) :
    ∃ later i phase, Run (World.Step settings) w later
        (w.put r.inst i id (.resolve { r with phase := phase })) ∧
      i.flight.calls r.code = none ∧ i.takedowns = (w.instances r.inst).takedowns := by
  rcases r.fails id (w.instances r.inst) .abort leads with ⟨outcome, phase⟩ | failed
  · have popped : r.advance w.links id (w.instances r.inst) =
        some ({ w.instances r.inst with flight := (w.instances r.inst).flight.deregister r.code },
          .releasing outcome) := by
      simp only [Resolve.advance, phase]
    exact ⟨_, _, _, .single (World.step_of_advance known popped), Function.update_self .., rfl⟩
  · have aborted := @World.step_of_fail settings _ _ _ _ _ _ known failed
    have here : (w.put r.inst ((w.instances r.inst).settle id .aborted).1 id
        (.resolve { r with phase := .deregistering .aborted })).task id =
          .resolve { r with phase := .deregistering .aborted } := w.put_task
    have popped := @World.step_of_advance settings _ _ _ _ _ here rfl
    rw [World.put_instance, World.put_put] at popped
    exact ⟨_, _, _, (Run.single aborted).next popped, Function.update_self .., rfl⟩

/-- A step starts one task at most. -/
theorem World.Step.absent_elsewhere {event : Event} {w' : World} (taken : w.Step settings event w') :
    ∃ acting, ∀ id, id ≠ acting → w.task id = .absent → w'.task id = .absent := by
  cases taken.effect with
  | quiet quiet =>
    obtain ⟨acting, same⟩ := quiet.elsewhere
    exact ⟨acting, fun id different absent => (same id different).trans absent⟩
  | @resolve acting r i phase known _ _ =>
    exact ⟨acting, fun id different absent => (w.put_task_other different).trans absent⟩
  | restart inst =>
    refine ⟨0, fun id _ absent => ?_⟩
    show (w.task id).stop inst = .absent
    rw [absent]
    rfl

/-- There are always numbers that no task has taken yet. -/
theorem World.absent_beyond (run : Run (World.Step settings) (World.start settings) trace w) :
    ∃ bound, ∀ id, bound ≤ id → w.task id = .absent := by
  induction run with
  | start => exact ⟨0, fun _ _ => rfl⟩
  | next _ taken ih =>
    obtain ⟨bound, absent⟩ := ih
    obtain ⟨acting, elsewhere⟩ := taken.absent_elsewhere
    refine ⟨max bound (acting + 1), fun id beyond => elsewhere id (by omega) (absent id (by omega))⟩

theorem World.step_of_begin {nowMs : Int} (free : w.task id = .absent) :
    w.Step settings (.resolve id inst code nowMs)
      { w with task := Function.update w.task id (.resolve ⟨inst, code, nowMs, .checking⟩) } :=
  if_pos free

theorem Link.exists_unexpired (link : Link) : ∃ nowMs, link.isExpired nowMs = false := by
  unfold isExpired
  cases link.expiresMs with
  | none => exact ⟨0, rfl⟩
  | some expiresMs =>
    refine ⟨expiresMs - 1, ?_⟩
    rw [Option.any_some, decide_eq_false_iff_not]
    omega

/-- A flight for the code of a resolve that has just begun can come to its end
before the resolve looks for one. -/
theorem World.flight_clears (sound : w.Sound) (known : w.task id = .resolve r)
    (checking : r.phase = .checking) :
    ∃ later w', Run (World.Step settings) w later w' ∧
      (w'.instances r.inst).flight.calls r.code = none ∧
      (w'.instances r.inst).takedowns = (w.instances r.inst).takedowns ∧
      w'.links = w.links ∧ w'.task id = .resolve r := by
  cases entered : (w.instances r.inst).flight.calls r.code with
  | none => exact ⟨[], w, .start, entered, rfl, rfl, known⟩
  | some leader =>
    obtain ⟨q, led, sameInst, sameCode, leads⟩ := sound.led entered
    -- The leader is another task: this one has not joined anything yet.
    have other : id ≠ leader := by
      rintro rfl
      cases known.symm.trans led
      rw [checking] at leads
      exact leads
    obtain ⟨later, i, phase, run, free, takedowns⟩ := @World.leader_leaves settings _ _ _ led leads
    rw [sameCode] at free
    rw [sameInst] at run takedowns
    refine ⟨later, _, run, ?_, ?_, rfl, (w.put_task_other other).trans known⟩
    · rw [w.put_instance]
      exact free
    · rw [w.put_instance]
      exact takedowns

/-- A resolve that begins on an instance without its code on the list can get
to the target of its link. -/
theorem World.target_reachable (run : Run (World.Step settings) (World.start settings) trace w)
    (stored : w.links.get code = some link)
    (unlisted : (w.instances inst).takedowns.contains code = false) :
    ∃ id nowMs w', w.Step settings (.resolve id inst code nowMs) w' ∧
      ∃ later u, Run (World.Step settings) w' later u ∧
        ∃ r, u.task id = .resolve r ∧ u.links.get code = some link ∧ r.Shows link.target := by
  obtain ⟨id, absent⟩ := World.absent_beyond run
  obtain ⟨nowMs, fresh⟩ := link.exists_unexpired
  have begun := @World.step_of_begin settings w id inst code nowMs (absent id le_rfl)
  refine ⟨id, nowMs, _, begun, ?_⟩
  have known : (Function.update w.task id (.resolve ⟨inst, code, nowMs, .checking⟩)) id =
      .resolve ⟨inst, code, nowMs, .checking⟩ := Function.update_self ..
  obtain ⟨later, w', cleared, free, takedowns, links, waiting⟩ :=
    @World.flight_clears settings _ _ _ (World.sound_of_run (run.next begun)) known rfl
  have sound := World.sound_of_run ((run.next begun).append cleared)
  have reaches : (Resolve.mk inst code nowMs .checking).Reaches w'.links id
      (w'.instances inst, .checking) link.target :=
    Resolve.reaches_of_checking id (by rw [takedowns]; exact unlisted) free (sound.backed inst)
      (by rw [links]; exact stored) fresh
  obtain ⟨ticks, i, phase, alone, shows⟩ := reaches
  obtain ⟨rest, finished⟩ := @World.run_of_alone settings _ _ _ _ _ _ waiting alone
  exact ⟨_, _, cleared.append finished, _, w'.put_task, by rw [w'.put_links, links, stored], shows⟩

end

end UrlShortener
