import UrlShortener.PooledWorld

namespace UrlShortener
open SingleWriter Transition

/-- Not on the way to the answer that there is no such link. -/
def ResolvePhase.finds : ResolvePhase → Prop
  | .deregistering outcome | .releasing outcome => outcome ≠ .returned none ∧ outcome ≠ .aborted
  | .serving found => found ≠ none
  | .answered answer => answer ≠ .notFound
  | _ => True

/-- A leader that is out of the table of calls. -/
def ResolvePhase.left : ResolvePhase → Prop
  | .releasing _ | .serving _ | .showing _ | .answered _ | .aborted => True
  | _ => False

/-- A call object that does not tell its waiters that there is no such link. -/
def FlightCall.finds {ν : Type} (call : FlightCall ν) : Prop :=
  call.value ≠ none ∨ call.error ≠ none

theorem FlightCall.finds.wake {κ ν : Type} {f : SingleFlight κ ν} {leader : Nat} (finds : (f.object leader).finds) :
    f.wake leader ≠ some (.ok none) := by
  intro woken
  obtain ⟨_, answer⟩ := Option.ite_none_right_eq_some.mp woken
  split at answer
  · cases answer
  · rename_i unraised
    rcases finds with value | error
    · exact value (Except.ok.inj (Option.some.inj answer))
    · exact error unraised

theorem Outcome.object_finds {ν : Type} {outcome : Outcome ν}
    (finds : outcome ≠ .returned none ∧ outcome ≠ .aborted) : outcome.object.finds := by
  cases outcome with
  | returned value => exact Or.inl fun missing => finds.1 (congrArg Outcome.returned missing)
  | raised error => exact Or.inr nofun
  | aborted => exact absurd rfl finds.2

namespace Resolve
variable {links : LinkStore} {id : Nat} {i i' : Instance} {r : Resolve} {phase : ResolvePhase} {link : Link}

/-- A resolve keeps finding its link, if that has no expiry and the resolve is
not told otherwise by another one. -/
theorem Move.finds (move : r.Move links id i i' phase) (stored : links.get r.code = some link)
    (lasting : link.expiresMs = none) (before : r.phase.finds) (unaborted : phase ≠ .deregistering .aborted)
    (woken : ∀ leader, r.phase = .waiting leader → i.flight.wake leader ≠ some (.ok none)) : phase.finds := by
  cases move with
  | hit _ _ => exact Option.some_ne_none _
  | woken here answer =>
    rintro rfl
    exact woken _ here answer
  | fetchedNone _ expired =>
    have late := expired link stored
    rw [Link.isExpired, lasting] at late
    cases late
  | loadHit _ _ | stored _ => simp [ResolvePhase.finds]
  | raised fault _ =>
    cases fault with
    | exception error => simp [ResolvePhase.finds, Fault.outcome]
    | abort => exact absurd rfl unaborted
  | deregistered here =>
    rw [here] at before
    exact before
  | released here =>
    rw [here] at before
    exact fun missing => before.1 (congrArg Outcome.returned missing)
  | notFound here =>
    rw [here] at before
    exact absurd rfl before
  | withdrawn _ | wokenByError _ _ | releasedError _ | redirected _ _ | shown _ _ | unflagged _ _ =>
    simp [ResolvePhase.finds]
  | _ => trivial

theorem Move.leads_before (move : r.Move links id i i' phase) (leads : phase.leads) :
    r.phase.leads ∨ r.phase = .joining := by
  cases move with
  | leads here _ => exact Or.inr here
  | loadHit here _ | loadMissed here _ | fetchedNone here _ | fetched here _ _ | stored here =>
    exact Or.inl (by rw [here]; trivial)
  | raised _ loading =>
    rcases loading with here | here | ⟨link, here⟩ <;> exact Or.inl (by rw [here]; trivial)
  | _ => exact leads.elim

theorem Move.leads_after (move : r.Move links id i i' phase) (leads : r.phase.leads) :
    phase.leads ∨ ∃ outcome, r.phase = .deregistering outcome ∧ phase = .releasing outcome := by
  cases move with
  | loadHit _ _ | loadMissed _ _ | fetchedNone _ _ | fetched _ _ _ | stored _ | raised _ _ => exact Or.inl trivial
  | deregistered here => exact Or.inr ⟨_, here, rfl⟩
  | _ here =>
    rw [here] at leads
    exact leads.elim

/-- What a leader leaves in its call object stays there. -/
theorem Move.left (move : r.Move links id i i' phase) (left : r.phase.left)
    (finds : (i.flight.object id).finds) : phase.left ∧ (i'.flight.object id).finds := by
  cases move with
  | released _ | releasedError _ | releasedAborted _ =>
    refine ⟨trivial, ?_⟩
    simp only [SingleFlight.release, Function.update_self]
    exact finds
  | notFound _ | flagged _ _ | redirected _ _ | shown _ _ | unflagged _ _ => exact ⟨trivial, finds⟩
  | raised _ loading =>
    rcases loading with here | here | ⟨link, here⟩ <;> rw [here] at left <;> exact left.elim
  | _ here =>
    rw [here] at left
    exact left.elim

end Resolve
namespace World

/-- The link of `code` is there to stay, and the resolve `id` and every leader of
`code` on `inst` find it. -/
structure Found (inst : Nat) (code : String) (id : Nat) (w : World) : Prop where
  stored : ∃ link, w.links.get code = some link ∧ link.expiresMs = none
  leaders : ∀ {leader phase}, w.resolving inst code leader = some phase → phase.leads → phase.finds
  own : ∀ {phase}, w.resolving inst code id = some phase → phase.finds
  waiting : ∀ {leader}, w.resolving inst code id = some (.waiting leader) →
    ∃ phase, w.resolving inst code leader = some phase ∧
      (phase.leads ∨ phase.left ∧ ((w.instances inst).flight.object leader).finds)

variable {settings : Settings} {w w' : World} {event : Event} {id inst : Nat} {code : String} {r : Resolve}
  {i : Instance} {phase : ResolvePhase} {trace later : List Event} {link : Link}

/-- While a leader is in the table its waiters sleep; later its object tells them. -/
theorem Found.woken (found : Found inst code id w) (flights : w.Flights) {leader : Nat}
    (waiting : w.resolving inst code id = some (.waiting leader)) :
    (w.instances inst).flight.wake leader ≠ some (.ok none) := by
  obtain ⟨phase, here, leads | ⟨_, finds⟩⟩ := found.waiting waiting
  · obtain ⟨q, known, rfl, rfl, rfl⟩ := resolving_iff.mp here
    have asleep : ((w.instances q.inst).flight.object leader).done = false := by
      cases phase : q.phase with
      | loading => rw [flights.object known (by rw [phase]; rfl)]
      | fetching => rw [flights.object known (by rw [phase]; rfl)]
      | storing link => rw [flights.object known (by rw [phase]; rfl)]
      | deregistering outcome =>
        rw [flights.object known (by rw [phase]; rfl)]
        cases outcome <;> rfl
      | _ =>
        rw [phase] at leads
        exact leads.elim
    intro woken
    obtain ⟨done, _⟩ := Option.ite_none_right_eq_some.mp woken
    rw [asleep] at done
    cases done
  · exact finds.wake

theorem Found.quiet (found : Found inst code id w) (quiet : Quiet w w') : Found inst code id w' := by
  have before {other : Nat} {phase : ResolvePhase} (here : w'.resolving inst code other = some phase) :
      w.resolving inst code other = some phase ∨ phase = .checking := by
    obtain ⟨q, known, sameInst, sameCode, samePhase⟩ := resolving_iff.mp here
    rcases quiet.begun known with before | ⟨_, checking⟩
    · exact Or.inl (resolving_iff.mpr ⟨q, before, sameInst, sameCode, samePhase⟩)
    · exact Or.inr (samePhase.symm.trans checking)
  constructor
  · obtain ⟨link, stored, lasting⟩ := found.stored
    exact ⟨link, quiet.links stored, lasting⟩
  · intro leader phase here leads
    rcases before here with known | rfl
    · exact found.leaders known leads
    · exact leads.elim
  · intro phase here
    rcases before here with known | rfl
    · exact found.own known
    · trivial
  · intro leader here
    rcases before here with known | checking
    · obtain ⟨phase, led, stands⟩ := found.waiting known
      obtain ⟨q, held, same⟩ := resolving_iff.mp led
      rw [quiet.flight]
      exact ⟨phase, resolving_iff.mpr ⟨q, quiet.kept held, same⟩, stands⟩
    · cases checking

/-- A leader that moves still has its waiters asleep, or tells them. -/
theorem Found.attended {links : LinkStore} {acting leader : Nat} (found : Found inst code id w) (flights : w.Flights)
    (known : w.task acting = .resolve r) (move : r.Move links acting (w.instances r.inst) i phase)
    (before : ∃ phase, w.resolving inst code leader = some phase ∧
      (phase.leads ∨ phase.left ∧ ((w.instances inst).flight.object leader).finds)) :
    ∃ after, (w.put r.inst i acting (.resolve { r with phase := phase })).resolving inst code leader = some after ∧
      (after.leads ∨ after.left ∧
        (((w.put r.inst i acting (.resolve { r with phase := phase })).instances inst).flight.object leader).finds) := by
  obtain ⟨ph, led, stands⟩ := before
  by_cases moves : leader = acting
  · subst moves
    obtain ⟨q, held, rfl, rfl, rfl⟩ := resolving_iff.mp led
    cases known.symm.trans held
    refine ⟨phase, resolving_iff.mpr ⟨_, w.put_task, rfl, rfl, rfl⟩, ?_⟩
    rw [w.put_instance]
    rcases stands with leads | ⟨left, finds⟩
    · rcases move.leads_after leads with still | ⟨outcome, settled, rfl⟩
      · exact Or.inl still
      -- It leaves the table, and its object holds its outcome.
      · have finds := found.leaders led leads
        rw [settled] at finds
        rw [move.object (fun _ => flights.object known) rfl]
        exact Or.inr ⟨trivial, Outcome.object_finds finds⟩
    · exact Or.inr (move.left left finds)
  · refine ⟨ph, by rw [w.put_resolving_other moves, led], ?_⟩
    by_cases here : inst = r.inst
    · subst here
      rw [w.put_instance, move.object_other moves]
      exact stands
    · rw [w.put_instance_other here]
      exact stands

/-- A resolve moves on; if it loads, then from links with that of `code`. -/
theorem Found.move {links : LinkStore} {acting : Nat} (found : Found inst code id w) (sound : w.Sound)
    (flights : w.Flights) (known : w.task acting = .resolve r) (seen : r.inst = inst → links.get code = w.links.get code)
    (move : r.Move links acting (w.instances r.inst) i phase) (unaborted : phase ≠ .deregistering .aborted) :
    Found inst code id (w.put r.inst i acting (.resolve { r with phase := phase })) := by
  obtain ⟨link, stored, lasting⟩ := found.stored
  constructor
  · exact ⟨link, stored, lasting⟩
  · intro leader ph here leads
    by_cases own : leader = acting
    · subst own
      obtain ⟨q, held, rfl, rfl, rfl⟩ := resolving_iff.mp here
      cases w.put_task.symm.trans held
      have before := move.leads_before leads
      refine move.finds ((seen rfl).trans stored) lasting ?_ unaborted fun other waiting => ?_
      · rcases before with leading | joining
        · exact found.leaders (resolving_iff.mpr ⟨r, known, rfl, rfl, rfl⟩) leading
        · rw [joining]
          trivial
      · rw [waiting] at before
        rcases before with leading | joining
        · exact leading.elim
        · cases joining
    · rw [w.put_resolving_other own] at here
      exact found.leaders here leads
  · intro ph here
    by_cases own : id = acting
    · subst own
      obtain ⟨q, held, rfl, rfl, rfl⟩ := resolving_iff.mp here
      cases w.put_task.symm.trans held
      have stands {phase : ResolvePhase} (same : r.phase = phase) :
          w.resolving r.inst r.code id = some phase := resolving_iff.mpr ⟨r, known, rfl, rfl, same⟩
      exact move.finds ((seen rfl).trans stored) lasting (found.own (stands rfl)) unaborted
        fun other waiting => found.woken flights (stands waiting)
    · rw [w.put_resolving_other own] at here
      exact found.own here
  · intro leader here
    by_cases own : id = acting
    · subst own
      obtain ⟨q, held, rfl, rfl, waiting⟩ := resolving_iff.mp here
      cases w.put_task.symm.trans held
      cases waiting
      obtain ⟨q, led, sameInst, sameCode, leads⟩ := sound.led move.waiting
      have other : leader ≠ id := by
        rintro rfl
        cases known.symm.trans led
        cases move with
        | follows joining _ =>
          rw [joining] at leads
          exact leads
      refine ⟨q.phase, ?_, Or.inl leads⟩
      rw [w.put_resolving_other other]
      exact resolving_iff.mpr ⟨q, led, sameInst, sameCode, rfl⟩
    · rw [w.put_resolving_other own] at here
      exact found.attended flights known move (found.waiting here)

theorem Found.restart (found : Found inst code id w) (settings : Settings) (stopped : Nat) :
    Found inst code id (w.restart settings stopped) := by
  have before {other : Nat} {phase : ResolvePhase}
      (here : (w.restart settings stopped).resolving inst code other = some phase) :
      w.resolving inst code other = some phase ∧ (phase.over = false → inst ≠ stopped) := by
    obtain ⟨q, known, rfl, rfl, rfl⟩ := resolving_iff.mp here
    obtain ⟨held, survived⟩ := Task.stop_resolve known
    exact ⟨resolving_iff.mpr ⟨q, held, rfl, rfl, rfl⟩, fun running => Task.elsewhere_of_running running survived⟩
  refine ⟨found.stored, fun here leads => found.leaders (before here).1 leads, fun here => found.own (before here).1, ?_⟩
  intro leader here
  obtain ⟨known, elsewhere⟩ := before here
  obtain ⟨phase, led, stands⟩ := found.waiting known
  obtain ⟨q, held, rfl, rfl, rfl⟩ := resolving_iff.mp led
  have running := elsewhere rfl
  rw [w.restart_instance_other running]
  exact ⟨q.phase, resolving_iff.mpr ⟨q, restart_keeps held running, rfl, rfl, rfl⟩, stands⟩

theorem Found.step (found : Found inst code id w) (sound : w.Sound) (flights : w.Flights)
    (taken : w.UnabortedStep settings event w') : Found inst code id w' := by
  obtain ⟨taken, unaborted⟩ := taken
  cases taken.act with
  | quiet quiet _ => exact found.quiet quiet
  | resolved known advanced =>
    refine found.move sound flights known (fun _ => rfl) (.of_advance advanced) ?_
    rintro rfl
    obtain ⟨value, same⟩ := Resolve.advance_settles advanced
    cases same
  | @failed _ _ fault _ _ known failed =>
    refine found.move sound flights known (fun _ => rfl) (.of_fail failed) ?_
    obtain ⟨_, rfl⟩ := Resolve.fail_cases failed
    cases fault with
    | exception error => exact nofun
    | abort =>
      simp only [aborts, known] at unaborted
      cases unaborted
  | restarted stopped => exact found.restart settings stopped

end World

namespace Resolve
variable {links : LinkStore} {id leader : Nat} {i : Instance} {r : Resolve}

/-- A resolve of a code that is being loaded comes to wait for its leader. -/
theorem joins_leader (links : LinkStore) (id : Nat) (unlisted : i.takedowns.contains r.code = false)
    (uncached : i.cache.data.lookup r.code = none) (led : i.flight.calls r.code = some leader) :
    ∃ ticks j, Run (r.Alone links id) (i, .checking) ticks (j, .waiting leader) ∧ j.flight = i.flight := by
  have missed : (i.cache.get r.code r.nowMs).1 = none := by
    rw [LruCache.get_value, uncached, Option.bind_none]
  have joined : i.flight.join r.code id = (some leader, i.flight) := by
    simp only [SingleFlight.join, led]
  have checks : r.Alone links id (i, .checking) () (i, .reading) := by
    simp only [Alone, advance, unlisted, Bool.false_eq_true, if_false]
  have reads : r.Alone links id (i, .reading) () ({ i with cache := (i.cache.get r.code r.nowMs).2 }, .joining) := by
    simp only [Alone, advance, missed]
  have joins (cache : LruCache String String) :
      r.Alone links id ({ i with cache := cache }, .joining) () ({ i with cache := cache }, .waiting leader) := by
    simp only [Alone, advance, joined]
  exact ⟨_, _, .cons checks (.cons reads (.single (joins _))), rfl⟩

/-- A leader that has found nothing leaves the table. -/
theorem leader_leaves (links : LinkStore) (id : Nat) (i : Instance) (r : Resolve) :
    ∃ ticks j, Run (r.Alone links id) (i, .deregistering (.returned none)) ticks (j, .serving none) ∧
      j.flight = (i.flight.deregister r.code).release id := by
  have pops : r.Alone links id (i, .deregistering (.returned none)) ()
      ({ i with flight := i.flight.deregister r.code }, .releasing (.returned none)) := rfl
  have wakes (j : Instance) : r.Alone links id (j, .releasing (.returned none)) ()
      ({ j with flight := j.flight.release id }, .serving none) := rfl
  exact ⟨_, _, .cons pops (.single (wakes _)), rfl⟩

theorem told_missing (links : LinkStore) (id : Nat) (woken : i.flight.wake leader = some (.ok none)) :
    ∃ ticks, Run (r.Alone links id) (i, .waiting leader) ticks (i, .answered .notFound) := by
  have wakes : r.Alone links id (i, .waiting leader) () (i, .serving none) := by
    simp only [Alone, advance, woken, Option.map_some]
  have answers : r.Alone links id (i, .serving none) () (i, .answered .notFound) := rfl
  exact ⟨_, .cons wakes (.single answers)⟩

/-- A resolve that no cache and no leader helps answers what its connection reads. -/
theorem loads_missing (links : LinkStore) (id : Nat) (unlisted : i.takedowns.contains r.code = false)
    (uncached : i.cache.data.lookup r.code = none) (free : i.flight.calls r.code = none)
    (unseen : links.get r.code = none) :
    ∃ ticks j, Run (r.Alone links id) (i, .checking) ticks (j, .answered .notFound) := by
  have missed {cache : LruCache String String} (absent : cache.data.lookup r.code = none) :
      (cache.get r.code r.nowMs).1 = none := by
    rw [LruCache.get_value, absent, Option.bind_none]
  have joined : (i.flight.join r.code id).1 = none := by simp only [SingleFlight.join, free]
  have checks : r.Alone links id (i, .checking) () (i, .reading) := by
    simp only [Alone, advance, unlisted, Bool.false_eq_true, if_false]
  have reads : r.Alone links id (i, .reading) () ({ i with cache := (i.cache.get r.code r.nowMs).2 }, .joining) := by
    simp only [Alone, advance, missed uncached]
  have leads (cache : LruCache String String) : r.Alone links id ({ i with cache := cache }, .joining) ()
      ({ i with cache := cache, flight := (i.flight.join r.code id).2 }, .loading) := by
    simp only [Alone, advance, joined]
  have loads {j : Instance} (absent : j.cache.data.lookup r.code = none) : r.Alone links id (j, .loading) ()
      ({ j with cache := (j.cache.get r.code r.nowMs).2 }, .fetching) := by
    simp only [Alone, advance, missed absent]
  have fetches (j : Instance) : r.Alone links id (j, .fetching) () (j.settle id (.returned none)) := by
    simp only [Alone, advance, unseen]
  have answers (j : Instance) : r.Alone links id (j, .serving none) () (j, .answered .notFound) := rfl
  have absent := LruCache.lookup_get_missed (missed uncached)
  obtain ⟨ticks, j, left, _⟩ := leader_leaves links id _ r
  exact ⟨_, j, .cons checks (.cons reads (.cons (leads _) (.cons (loads absent)
    (.cons (fetches _) (left.next (answers j))))))⟩

end Resolve

namespace PooledWorld
variable {settings : Settings} {p q : PooledWorld} {event : PooledEvent} {id inst : Nat} {code : String} {r : Resolve}
  {i : Instance} {phase : ResolvePhase} {trace later : List PooledEvent} {link : Link}

/-- A connection reads a snapshot that is without `code`. -/
def misses (p : PooledWorld) (c : Nat × Nat) (code : String) : Bool :=
  match p.db.access c with
  | .reading _ snapshot => (snapshot.get code).isNone
  | _ => false

/-- No connection of `inst` does. -/
def Seen (p : PooledWorld) (inst : Nat) (code : String) : Prop :=
  ∀ thread, p.misses (inst, thread) code = false

/-- No resolve of `code` that begins on `inst` now is ever answered that there is
no such link. -/
def ReadsCreate (settings : Settings) (p : PooledWorld) (inst : Nat) (code : String) : Prop :=
  ∀ thread id nowMs q, p.Step settings (.request thread (.resolve id inst code nowMs)) q →
    ∀ later u, Run (Step settings) q later u → u.world.resolving inst code id ≠ some (.answered .notFound)

theorem misses_iff {c : Nat × Nat} : p.misses c code = true ↔
    ∃ version snapshot, p.db.access c = .reading version snapshot ∧ snapshot.get code = none := by
  unfold misses
  split
  · rename_i version snapshot reading
    rw [Option.isNone_iff_eq_none]
    constructor
    · exact fun unseen => ⟨version, snapshot, reading, unseen⟩
    · rintro ⟨version', snapshot', reading', unseen⟩
      cases reading.symm.trans reading'
      exact unseen
  · rename_i unread
    exact ⟨nofun, fun ⟨version, snapshot, reading, _⟩ => absurd reading (unread version snapshot)⟩

theorem Seen.view (seen : p.Seen inst code) (coherent : p.Coherent) {c : Nat × Nat} (own : c.1 = inst)
    (stored : p.world.links.get code = some link) : (p.db.view c).get code = some link := by
  obtain ⟨inst, thread⟩ := c
  cases own
  cases access : p.db.access (inst, thread) with
  | reading version snapshot =>
    have view := Database.view_reading access
    have unmissed : snapshot.get code ≠ none := fun unseen =>
      ne_true_of_eq_false (seen thread) (misses_iff.mpr ⟨version, snapshot, access, unseen⟩)
    obtain ⟨row, found⟩ := Option.ne_none_iff_exists'.mp unmissed
    rw [← view] at found
    rw [found, ← stored, coherent.view _ found]
  | _ =>
    rw [Database.view_other (by rw [access]; exact nofun), coherent.lags.store_view, coherent.links, stored]

theorem Seen.step (seen : p.Seen inst code) (effect : p.Effect settings q) (stored : p.world.links.get code = some link) :
    q.Seen inst code := by
  intro thread
  refine eq_false_of_ne_true fun misses => ?_
  obtain ⟨version, snapshot, reading, unseen⟩ := misses_iff.mp misses
  rcases effect.reading reading with before | rfl
  · exact ne_true_of_eq_false (seen thread) (misses_iff.mpr ⟨version, snapshot, before, unseen⟩)
  · cases stored.symm.trans unseen

theorem Seen.found_step (seen : p.Seen inst code) (found : World.Found inst code id p.world) (healthy : p.Healthy)
    (taken : p.Step settings event q) : World.Found inst code id q.world ∧ q.Seen inst code := by
  have effect := healthy.coherent.step taken
  obtain ⟨link, stored, _⟩ := found.stored
  refine ⟨?_, seen.step effect stored⟩
  have moves := effect.moves
  generalize q.world = w at moves
  cases moves with
  | stood => exact found
  | stepped step => exact found.step healthy.sound healthy.flights step
  | @loaded acting loading _ _ known move unaborted =>
    refine found.move healthy.sound healthy.flights known (fun own => ?_) move unaborted
    rw [seen.view healthy.coherent ((healthy.assigned acting loading known).trans own) stored, stored]

theorem Seen.found_run {u : PooledWorld} (seen : p.Seen inst code) (found : World.Found inst code id p.world)
    (run : Run (Step settings) (start settings) trace p) (rest : Run (Step settings) p later u) :
    World.Found inst code id u.world ∧ u.Seen inst code := by
  induction rest with
  | start => exact ⟨found, seen⟩
  | next before taken ih => exact ih.2.found_step ih.1 (healthy_of_run (run.append before)) taken

/-- Only a database that was locked leaves a connection with a snapshot. -/
theorem Seen.of_quiet (run : Run (Step settings) (start settings) trace p)
    (quiet : ∀ event ∈ trace, event.enters = false) : p.Seen inst code := by
  intro thread
  refine eq_false_of_ne_true fun misses => ?_
  obtain ⟨_, _, reading, _⟩ := misses_iff.mp misses
  exact (prompt_of_run run quiet).unread reading

/-- Once a create has been answered, its link is found by all resolves that begin. -/
theorem found_of_created (healthy : p.Healthy) {creator : Nat} {c : Create} {target reason : String} {flagged : Bool}
    (known : p.world.task creator = .create c)
    (created : c.phase = .answered (.created code target none flagged reason))
    (unmissed : ∀ leader, p.world.resolving inst code leader ≠ some (.deregistering (.returned none)))
    (absent : p.world.task id = .absent) : World.Found inst code id p.world := by
  obtain ⟨link, stored, _, lasting⟩ := healthy.recorded.created known created
  have nowhere {phase : ResolvePhase} : p.world.resolving inst code id ≠ some phase := by
    simp [World.resolving, absent]
  refine ⟨⟨link, stored, lasting⟩, fun {leader phase} here leads => ?_, fun here => absurd here nowhere,
    fun here => absurd here nowhere⟩
  cases phase with
  | loading => trivial
  | fetching => trivial
  | storing link => trivial
  | deregistering outcome =>
    obtain ⟨q, led, _, _, phase⟩ := World.resolving_iff.mp here
    refine ⟨?_, ?_⟩
    · rintro rfl
      exact unmissed leader here
    · rintro rfl
      exact healthy.unaborted leader q led phase
  | _ => exact leads.elim

theorem step_of_app (settings : Settings) {event : UrlShortener.Event} {w : World} (apart : p.apart event = true)
    (step : p.world.Step settings event w) : p.Step settings (.app event) { p with world := w } := by
  show (if p.apart event = true then _ else none) = _
  rw [if_pos apart]
  exact congrArg (Option.map _) step

theorem step_of_fail {fault : Fault} {w : World} (known : p.world.task id = .resolve r)
    (unaborted : p.world.aborts (.fail id fault) = false) (step : p.world.Step settings (.fail id fault) w) :
    p.Step settings (.fail id fault .untouched) { p with world := w } := by
  have leaves : p.leaves id .untouched = true := by simp [leaves, known]
  show (if _ ∧ _ then _ else none) = _
  rw [if_pos ⟨unaborted, leaves⟩]
  exact congrArg (Option.map _) step

theorem step_of_fetch (settings : Settings) (known : p.world.task id = .resolve r) (fetching : r.phase = .fetching)
    (advanced : r.advance (p.db.view (p.worker id)) id (p.world.instances r.inst) = some (i, phase)) :
    p.Step settings (.fetch id) { p with
      world := p.world.put r.inst i id (.resolve { r with phase := phase }), db := p.db.read (p.worker id) } := by
  show p.fetch id = _
  unfold fetch
  simp only [known, fetching, if_true, advanced, Option.map_some]

/-- Only a load reads the links. -/
theorem advance_apart (other : r.phase ≠ .fetching) (links links' : LinkStore) (id : Nat) (i : Instance) :
    r.advance links id i = r.advance links' id i := by
  unfold Resolve.advance
  split <;> first | rfl | contradiction

/-- One resolve can go its way, by what its connection reads, while every other
task stands still. -/
theorem run_of_alone (settings : Settings) {ticks : List Unit} (coherent : p.Coherent)
    (known : p.world.task id = .resolve r)
    (alone : Run (r.Alone (p.db.view (p.worker id)) id) (p.world.instances r.inst, r.phase) ticks (i, phase)) :
    ∃ later q, Run (Step settings) p later q ∧ q.world = p.world.put r.inst i id (.resolve { r with phase := phase }) ∧
      q.Coherent ∧ q.worker = p.worker ∧ q.db.view (p.worker id) = p.db.view (p.worker id) := by
  generalize reached : (i, phase) = last at alone
  induction alone generalizing i phase with
  | start =>
    cases reached
    exact ⟨[], p, .start, by rw [← known, p.world.put_self], coherent, rfl, rfl⟩
  | @next past a tick b _ taken ih =>
    obtain ⟨j, middle⟩ := a
    subst reached
    obtain ⟨later, q, run, world, coherent, worker, view⟩ := ih rfl
    have here : q.world.task id = .resolve { r with phase := middle } := by rw [world, p.world.put_task]
    have instances : q.world.instances r.inst = j := by rw [world, p.world.put_instance]
    by_cases fetching : middle = .fetching
    · subst fetching
      have fetched : Resolve.advance (q.db.view (q.worker id)) id (q.world.instances r.inst)
          { r with phase := .fetching } = some (i, phase) := by
        rw [worker, view, instances]
        exact taken
      have step := step_of_fetch settings here rfl fetched
      refine ⟨_, _, run.next step, ?_, (coherent.step step).coherent, worker, ?_⟩
      · show q.world.put r.inst i id _ = _
        rw [world, World.put_put]
      · rw [← view, ← worker]
        exact coherent.lags.read_view _
    · have advanced : Resolve.advance q.world.links id (q.world.instances r.inst) { r with phase := middle } =
          some (i, phase) := by
        rw [instances, ← taken]
        exact advance_apart fetching ..
      have apart : q.apart (.step id) = true := by simpa only [apart, here, decide_eq_true_iff] using fetching
      have step := step_of_app settings apart (World.step_of_advance here advanced)
      refine ⟨_, _, run.next step, ?_, (coherent.step step).coherent, worker, view⟩
      show q.world.put r.inst i id _ = _
      rw [world, World.put_put]

/-- A resolve can begin on a free thread. -/
theorem begin_resolve (settings : Settings) (nowMs : Int) (inst : Nat) (code : String) {thread : Nat}
    (free : p.free (inst, thread) = true)
    (absent : p.world.task id = .absent) :
    ∃ q, p.Step settings (.request thread (.resolve id inst code nowMs)) q ∧
      q.world.task id = .resolve ⟨inst, code, nowMs, .checking⟩ ∧
      (∀ other, other ≠ id → q.world.task other = p.world.task other) ∧ q.world.instances = p.world.instances ∧
      q.worker id = (inst, thread) ∧ q.db = p.db := by
  have step : p.Step settings (.request thread (.resolve id inst code nowMs)) { p with
      world := { p.world with task := Function.update p.world.task id (.resolve ⟨inst, code, nowMs, .checking⟩) }
      worker := Function.update p.worker id (inst, thread)
      last := Function.update p.last (inst, thread) (some id) } := by
    show (if p.free (inst, thread) = true then _ else none) = _
    rw [if_pos free]
    exact congrArg (Option.map _) (World.step_of_begin absent)
  exact ⟨_, step, Function.update_self .., fun other different => Function.update_of_ne different .., rfl,
    Function.update_self .., rfl⟩

/-- A resolve that joins a leader which has found nothing is answered so. -/
theorem missing_of_leader {leader : Nat} {r : Resolve} (run : Run (Step settings) (start settings) trace p)
    (unlisted : (p.world.instances r.inst).takedowns.contains r.code = false) (led : p.world.task leader = .resolve r)
    (settled : r.phase = .deregistering (.returned none)) : ¬ p.ReadsCreate settings r.inst r.code := by
  intro reads
  have healthy := healthy_of_run run
  have calls := healthy.flights.entered led (by rw [settled]; trivial)
  have uncached := healthy.flights.uncached led (by rw [settled]; trivial)
  have object := healthy.flights.object led (by rw [settled]; rfl)
  obtain ⟨bound, spare⟩ := spare_of_run run
  obtain ⟨absent, unserving⟩ := spare bound (Nat.le_refl bound)
  have other : leader ≠ bound := by
    rintro rfl
    cases absent.symm.trans led
  obtain ⟨q, begun, own, others, instances, _⟩ :=
    begin_resolve settings 0 r.inst r.code (by rw [PooledWorld.free, unserving]) absent
  rw [← instances] at unlisted calls uncached object
  -- The new resolve comes to wait, the leader leaves, and the new resolve is woken.
  obtain ⟨_, i, alone, flight⟩ := Resolve.joins_leader (r := ⟨r.inst, r.code, 0, .checking⟩)
    (q.db.view (q.worker bound)) bound unlisted uncached calls
  obtain ⟨joining, u, joined, joins, coherent, _⟩ :=
    run_of_alone settings (healthy.coherent.step begun).coherent own alone
  have leading : u.world.task leader = .resolve r := by
    rw [joins, q.world.put_task_other other, others leader other, led]
  have here : u.world.instances r.inst = i := by rw [joins, q.world.put_instance]
  obtain ⟨_, j, alone, left⟩ := Resolve.leader_leaves (u.db.view (u.worker leader)) leader i r
  rw [← here, ← settled] at alone
  obtain ⟨leaving, v, gone, leaves, coherent, _⟩ := run_of_alone settings coherent leading alone
  have waiting : v.world.task bound = .resolve ⟨r.inst, r.code, 0, .waiting leader⟩ := by
    rw [leaves, u.world.put_task_other other.symm, joins, q.world.put_task]
  have woken : (v.world.instances r.inst).flight.wake leader = some (.ok none) := by
    rw [leaves, u.world.put_instance, left, flight]
    simp only [SingleFlight.wake, SingleFlight.release, SingleFlight.deregister, Function.update_self, object,
      Outcome.object, if_true]
  obtain ⟨_, alone⟩ := Resolve.told_missing (r := ⟨r.inst, r.code, 0, .waiting leader⟩)
    (v.db.view (v.worker bound)) bound woken
  obtain ⟨ending, x, told, answered, _⟩ := run_of_alone settings coherent waiting alone
  refine reads bound bound 0 q begun _ x ((joined.append gone).append told) ?_
  refine World.resolving_iff.mpr ⟨⟨r.inst, r.code, 0, .answered .notFound⟩, ?_, rfl, rfl, rfl⟩
  rw [answered, v.world.put_task]

/-- A leader can end its flight, if need be with an exception. -/
theorem leader_ends (settings : Settings) {leader : Nat} (known : p.world.task leader = .resolve r)
    (leads : r.phase.leads) :
    ∃ later i phase, Run (Step settings) p later
        { p with world := p.world.put r.inst i leader (.resolve { r with phase := phase }) } ∧
      i.flight.calls r.code = none ∧ i.takedowns = (p.world.instances r.inst).takedowns := by
  have pops {w : World} {i : Instance} {outcome : Outcome String}
      (settled : w.task leader = .resolve { r with phase := .deregistering outcome }) (here : w.instances r.inst = i) :
      Step settings { p with world := w } (.app (.step leader)) { p with
        world := w.put r.inst { i with flight := i.flight.deregister r.code } leader
          (.resolve { r with phase := .releasing outcome }) } := by
    have apart : PooledWorld.apart { p with world := w } (.step leader) = true := by simp [apart, settled]
    have step := @World.step_of_advance settings w leader { i with flight := i.flight.deregister r.code }
      { r with phase := .deregistering outcome } (.releasing outcome) settled (by rw [here]; rfl)
    exact step_of_app settings apart step
  rcases r.fails leader (p.world.instances r.inst) (.exception "") leads with ⟨outcome, phase⟩ | failed
  · have settled : p.world.task leader = .resolve { r with phase := .deregistering outcome } := by
      rw [known, ← phase]
    exact ⟨_, _, _, .single (pops settled rfl), Function.update_self .., rfl⟩
  · have raises := step_of_fail known rfl (@World.step_of_fail settings _ _ _ _ _ _ known failed)
    have popped := @pops (p.world.put r.inst ((p.world.instances r.inst).settle leader (.raised "")).1 leader
      (.resolve { r with phase := .deregistering (.raised "") })) _ (.raised "") p.world.put_task p.world.put_instance
    rw [World.put_put] at popped
    exact ⟨_, _, _, (Run.single raises).next popped, Function.update_self .., rfl⟩

/-- So a flight can come to its end, and the cache be flushed. -/
theorem misses_ahead (settings : Settings) (sound : p.world.Sound) (inst : Nat) (code : String) :
    ∃ later w, Run (Step settings) p later { p with world := w } ∧
      (∀ id r, p.world.task id = .resolve r → ¬ r.phase.leads → w.task id = .resolve r) ∧
      (w.instances inst).takedowns = (p.world.instances inst).takedowns ∧
      (w.instances inst).flight.calls code = none ∧ (w.instances inst).cache.data.lookup code = none := by
  have flush (w : World) :
      Step settings { p with world := w } (.app (.flushCache inst)) { p with world := w.flushCache inst } :=
    step_of_app settings rfl rfl
  cases entered : (p.world.instances inst).flight.calls code with
  | none =>
    refine ⟨_, _, .single (flush p.world), fun id r known _ => known, ?_, ?_, ?_⟩ <;> rw [World.flushCache_instance]
    · exact entered
    · exact AList.lookup_empty code
  | some leader =>
    obtain ⟨r, known, rfl, rfl, leads⟩ := sound.led entered
    obtain ⟨later, i, phase, ended, free, takedowns⟩ := leader_ends settings known leads
    refine ⟨_, _, ended.next (flush (p.world.put r.inst i leader (.resolve { r with phase := phase }))),
      fun id q held other => ?_, ?_, ?_, ?_⟩
    · have different : id ≠ leader := by
        rintro rfl
        cases known.symm.trans held
        exact other leads
      show (p.world.put r.inst i leader _).task id = _
      rw [p.world.put_task_other different, held]
    · rw [World.flushCache_instance, World.put_instance]
      exact takedowns
    · rw [World.flushCache_instance, World.put_instance]
      exact free
    · rw [World.flushCache_instance]
      exact AList.lookup_empty _

/-- On a thread whose connection reads a snapshot without the link, a resolve of
it can be answered so. -/
theorem missing_of_snapshot {thread : Nat} (run : Run (Step settings) (start settings) trace p)
    (unlisted : (p.world.instances inst).takedowns.contains code = false) (free : p.free (inst, thread) = true)
    (misses : p.misses (inst, thread) code = true) : ¬ p.ReadsCreate settings inst code := by
  intro reads
  obtain ⟨version, snapshot, reading, unseen⟩ := misses_iff.mp misses
  have healthy := healthy_of_run run
  obtain ⟨bound, spare⟩ := spare_of_run run
  obtain ⟨absent, _⟩ := spare bound (Nat.le_refl bound)
  obtain ⟨q, begun, own, _, instances, worker, db⟩ := begin_resolve settings 0 inst code free absent
  have healthy := healthy.step begun
  obtain ⟨clearing, w, cleared, kept, takedowns, calls, uncached⟩ := misses_ahead settings healthy.sound inst code
  have view : q.db.view (q.worker bound) = snapshot := by rw [worker, db, Database.view_reading reading]
  rw [instances] at takedowns
  rw [← takedowns] at unlisted
  have coherent : Coherent { q with world := w } := (healthy_of_run ((run.next begun).append cleared)).coherent
  obtain ⟨_, i, alone⟩ := Resolve.loads_missing (r := ⟨inst, code, 0, .checking⟩) snapshot bound unlisted
    uncached calls unseen
  rw [← view] at alone
  obtain ⟨ending, u, told, answered, _⟩ := run_of_alone settings coherent (kept bound _ own nofun) alone
  refine reads thread bound 0 q begun _ u (cleared.append told) ?_
  refine World.resolving_iff.mpr ⟨⟨inst, code, 0, .answered .notFound⟩, ?_, rfl, rfl, rfl⟩
  rw [answered, w.put_task]

/-- Once a create has been answered, the resolves that begin find its link, if no
leader has looked for it in vain and no connection of their instance reads a
snapshot without it. Such a leader, or such a connection of a free thread, is
enough for one of them to miss it. -/
theorem reads_create_iff (run : Run (Step settings) (start settings) trace p) {creator : Nat} {c : Create}
    {target reason : String} {flagged : Bool} (known : p.world.task creator = .create c)
    (created : c.phase = .answered (.created code target none flagged reason))
    (unlisted : (p.world.instances inst).takedowns.contains code = false) :
    ((∀ leader, p.world.resolving inst code leader ≠ some (.deregistering (.returned none))) → p.Seen inst code →
      p.ReadsCreate settings inst code) ∧
    (∀ leader, p.world.resolving inst code leader = some (.deregistering (.returned none)) →
      ¬ p.ReadsCreate settings inst code) ∧
    ∀ thread, p.free (inst, thread) = true → p.misses (inst, thread) code = true →
      ¬ p.ReadsCreate settings inst code := by
  refine ⟨fun unmissed seen thread id nowMs q begun later u rest missing => ?_, fun leader settled => ?_,
    fun thread free misses => missing_of_snapshot run unlisted free misses⟩
  · have absent : p.world.task id = .absent := by
      cases begun.turn with
      | request request _ step => exact step.turn.absent_of_request rfl
    have found := found_of_created (healthy_of_run run) known created unmissed absent
    exact (seen.found_run found run (.cons begun rest)).1.own missing rfl
  · obtain ⟨q, led, rfl, rfl, phase⟩ := World.resolving_iff.mp settled
    exact missing_of_leader run unlisted led phase

/-- The request that looked for the link before it was there has left the table
when the create is answered. -/
theorem reads_create_after_miss : ∃ p : PooledWorld, Run (Step .lenient) (start .lenient)
      [.request 1 (.resolve 1 0 "c" 0), .app (.step 1), .app (.step 1), .app (.step 1), .app (.step 1), .fetch 1,
        .request 0 (.create 0 0 "https://example.com" none), .attempt 0 "c" 0, .app (.step 1), .app (.step 0)] p ∧
    p.ReadsCreate .lenient 0 "c" := by
  have executed : ∃ p : PooledWorld, Run (Step .lenient) (start .lenient)
      [.request 1 (.resolve 1 0 "c" 0), .app (.step 1), .app (.step 1), .app (.step 1), .app (.step 1), .fetch 1,
        .request 0 (.create 0 0 "https://example.com" none), .attempt 0 "c" 0, .app (.step 1), .app (.step 0)] p ∧
      p.world.task 0 = .create ⟨0, "https://example.com", none, ⟨.allow, "ok", ""⟩,
        .answered (.created "c" "https://example.com" none false "ok")⟩ ∧
      (p.world.instances 0).takedowns.contains "c" = false ∧ (p.world.instances 0).flight.calls "c" = none :=
    Run.exists_of_execute (fun _ _ _ done => done) (by decide +kernel)
  obtain ⟨p, run, created, unlisted, idle⟩ := executed
  refine ⟨p, run, (reads_create_iff run created rfl unlisted).1 (fun leader settled => ?_) (.of_quiet run (by decide))⟩
  obtain ⟨q, led, inst, code, phase⟩ := World.resolving_iff.mp settled
  have entered := (healthy_of_run run).flights.entered led (by rw [phase]; trivial)
  rw [inst, code, idle] at entered
  cases entered

/-- A create that has only drawn the taken code "a" keeps the lock, and the next one
on another thread finds the database locked. -/
def lockedOut : List PooledEvent :=
  [.request 0 (.create 0 0 "https://example.com" none), .attempt 0 "a" 0, .app (.step 0),
    .request 0 (.create 1 0 "https://example.com" none), .attempt 1 "a" 1, .attempt 1 "a" 1, .attempt 1 "a" 1,
    .attempt 1 "a" 1, .attempt 1 "a" 1, .app (.step 1), .request 1 (.create 2 0 "https://example.org" none),
    .fail 2 (.exception "database is locked") .entered]

/-- The create is answered while a request that looked for the link too early is
still in the table of calls. The next request joins it and is answered 404. And
where a thread has found the database locked and then read "a", it goes on to miss
the next link. -/
theorem created_link_missing :
    (∃ p : PooledWorld, Run (Step .lenient) (start .lenient)
        [.request 1 (.resolve 1 0 "c" 0), .app (.step 1), .app (.step 1), .app (.step 1), .app (.step 1), .fetch 1,
          .request 0 (.create 0 0 "https://example.com" none), .attempt 0 "c" 0, .app (.step 0)] p ∧
      p.world.task 0 = .create ⟨0, "https://example.com", none, ⟨.allow, "ok", ""⟩,
        .answered (.created "c" "https://example.com" none false "ok")⟩ ∧
      (p.world.instances 0).takedowns.contains "c" = false ∧ ¬ p.ReadsCreate .lenient 0 "c") ∧
    ∃ p : PooledWorld, Run (Step .lenient) (start .lenient) (lockedOut ++
        [.request 1 (.resolve 3 0 "a" 0), .app (.step 3), .app (.step 3), .app (.step 3), .app (.step 3), .fetch 3,
          .app (.step 3), .app (.step 3), .app (.step 3), .app (.step 3),
          .request 0 (.create 4 0 "https://example.net" none), .attempt 4 "c" 2, .app (.step 4)]) p ∧
      p.world.task 4 = .create ⟨0, "https://example.net", none, ⟨.allow, "ok", ""⟩,
        .answered (.created "c" "https://example.net" none false "ok")⟩ ∧
      (p.world.instances 0).takedowns.contains "c" = false ∧ ¬ p.ReadsCreate .lenient 0 "c" := by
  constructor
  · have executed : ∃ p : PooledWorld, Run (Step .lenient) (start .lenient)
        [.request 1 (.resolve 1 0 "c" 0), .app (.step 1), .app (.step 1), .app (.step 1), .app (.step 1), .fetch 1,
          .request 0 (.create 0 0 "https://example.com" none), .attempt 0 "c" 0, .app (.step 0)] p ∧
        p.world.task 0 = .create ⟨0, "https://example.com", none, ⟨.allow, "ok", ""⟩,
          .answered (.created "c" "https://example.com" none false "ok")⟩ ∧
        (p.world.instances 0).takedowns.contains "c" = false ∧
        p.world.resolving 0 "c" 1 = some (.deregistering (.returned none)) :=
      Run.exists_of_execute (fun _ _ _ done => done) (by decide +kernel)
    obtain ⟨p, run, created, unlisted, settled⟩ := executed
    obtain ⟨q, led, inst, code, phase⟩ := World.resolving_iff.mp settled
    rw [← inst, ← code] at unlisted
    exact ⟨p, run, created, inst ▸ code ▸ unlisted, inst ▸ code ▸ missing_of_leader run unlisted led phase⟩
  · have executed : ∃ p : PooledWorld, Run (Step .lenient) (start .lenient) (lockedOut ++
        [.request 1 (.resolve 3 0 "a" 0), .app (.step 3), .app (.step 3), .app (.step 3), .app (.step 3), .fetch 3,
          .app (.step 3), .app (.step 3), .app (.step 3), .app (.step 3),
          .request 0 (.create 4 0 "https://example.net" none), .attempt 4 "c" 2, .app (.step 4)]) p ∧
        p.world.task 4 = .create ⟨0, "https://example.net", none, ⟨.allow, "ok", ""⟩,
          .answered (.created "c" "https://example.net" none false "ok")⟩ ∧
        (p.world.instances 0).takedowns.contains "c" = false ∧ p.free (0, 1) = true ∧
        p.misses (0, 1) "c" = true :=
      Run.exists_of_execute (fun _ _ _ done => done) (by decide +kernel)
    obtain ⟨p, run, created, unlisted, free, misses⟩ := executed
    exact ⟨p, run, created, unlisted, missing_of_snapshot run unlisted free misses⟩

end PooledWorld
end UrlShortener
