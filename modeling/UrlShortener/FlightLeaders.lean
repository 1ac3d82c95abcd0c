import UrlShortener.DeploymentSound

namespace UrlShortener
open Transition

/-- What a call object holds between the end of the function and the release. -/
def Outcome.object {ν : Type} : Outcome ν → FlightCall ν
  | .returned value => { value := value }
  | .raised error => { error := some error }
  | .aborted => {}

theorem SingleFlight.settle_object {κ ν : Type} {f : SingleFlight κ ν} {leader : Nat} (outcome : Outcome ν)
    (fresh : f.object leader = {}) : (f.settle leader outcome).object leader = outcome.object := by
  cases outcome with
  | returned value =>
    simp only [settle, Function.update_self, fresh]
    rfl
  | raised error =>
    simp only [settle, Function.update_self, fresh]
    rfl
  | aborted => exact fresh

theorem Instance.settle_object (i : Instance) {leader : Nat} (outcome : Outcome String)
    (fresh : i.flight.object leader = {}) : (i.settle leader outcome).1.flight.object leader = outcome.object :=
  SingleFlight.settle_object outcome fresh

theorem Instance.settle_object_other (i : Instance) {leader other : Nat} (outcome : Outcome String)
    (different : other ≠ leader) : (i.settle leader outcome).1.flight.object other = i.flight.object other :=
  SingleFlight.settle_object_other outcome different

/-- What the call object of a leader holds. -/
def ResolvePhase.object : ResolvePhase → Option (FlightCall String)
  | .loading | .fetching | .storing _ => some {}
  | .deregistering outcome | .releasing outcome => some outcome.object
  | _ => none

/-- A load that has missed the cache and has put nothing there. -/
def ResolvePhase.missed : ResolvePhase → Prop
  | .fetching | .storing _ | .deregistering (.returned none) => True
  | _ => False

theorem ResolvePhase.missed.leads {phase : ResolvePhase} (missed : phase.missed) : phase.leads := by
  cases phase with
  | fetching => trivial
  | storing link => trivial
  | deregistering outcome => trivial
  | _ => exact missed.elim

theorem ResolvePhase.leads.running {phase : ResolvePhase} (leads : phase.leads) : phase.over = false := by
  cases phase with
  | answered answer => exact leads.elim
  | aborted => exact leads.elim
  | _ => rfl

/-- The leaders are those in the tables of calls, and no one else writes to
their call objects or stores their code. -/
structure World.Flights (w : World) : Prop where
  entered : ∀ {id r}, w.task id = .resolve r → r.phase.leads →
    (w.instances r.inst).flight.calls r.code = some id
  object : ∀ {id r call}, w.task id = .resolve r → r.phase.object = some call →
    (w.instances r.inst).flight.object id = call
  uncached : ∀ {id r}, w.task id = .resolve r → r.phase.missed →
    (w.instances r.inst).cache.data.lookup r.code = none

namespace Resolve
variable {links : LinkStore} {id : Nat} {i i' : Instance} {r : Resolve} {phase : ResolvePhase}

theorem Move.entered (move : r.Move links id i i' phase)
    (before : r.phase.leads → i.flight.calls r.code = some id) (leads : phase.leads) :
    i'.flight.calls r.code = some id := by
  cases move with
  | leads here free =>
    show (i.flight.join r.code id).2.calls r.code = some id
    rw [SingleFlight.join_calls free, Function.update_self]
  | loadHit here _ | loadMissed here _ | fetchedNone here _ | fetched here _ _ | stored here =>
    exact before (by rw [here]; trivial)
  | raised fault loading =>
    show (i.flight.settle id fault.outcome).calls r.code = some id
    rw [SingleFlight.settle_calls]
    rcases loading with here | here | ⟨link, here⟩ <;> exact before (by rw [here]; trivial)
  | _ => exact leads.elim

/-- A resolve leaves the entries of other leaders in the table. -/
theorem Move.calls_other (move : r.Move links id i i' phase)
    (before : r.phase.leads → i.flight.calls r.code = some id) {code : String} {other : Nat} (different : other ≠ id)
    (entered : i.flight.calls code = some other) : i'.flight.calls code = some other := by
  cases move with
  | leads here free =>
    have elsewhere : code ≠ r.code := by
      rintro rfl
      cases free.symm.trans entered
    show (i.flight.join r.code id).2.calls code = some other
    rw [SingleFlight.join_calls free, Function.update_of_ne elsewhere, entered]
  | deregistered here =>
    have elsewhere : code ≠ r.code := by
      rintro rfl
      exact different (Option.some.inj (entered.symm.trans (before (by rw [here]; trivial))))
    exact (Function.update_of_ne elsewhere ..).trans entered
  | raised fault _ => exact (i.flight.settle_calls id fault.outcome) ▸ entered
  | _ => exact entered

theorem Move.object (move : r.Move links id i i' phase)
    (before : ∀ call, r.phase.object = some call → i.flight.object id = call) {call : FlightCall String}
    (known : phase.object = some call) : i'.flight.object id = call := by
  -- A load leaves its object as it was made until it settles.
  have fresh (loading : r.phase.object = some {}) : i.flight.object id = {} := before _ loading
  cases move with
  | leads here free =>
    cases known
    show (i.flight.join r.code id).2.object id = {}
    rw [SingleFlight.join_object free, Function.update_self]
  | loadHit here _ | fetchedNone here _ | stored here =>
    cases known
    exact Instance.settle_object _ _ (fresh (by rw [here]; rfl))
  | raised fault loading =>
    cases known
    refine Instance.settle_object _ _ (fresh ?_)
    rcases loading with here | here | ⟨link, here⟩ <;> rw [here] <;> rfl
  | loadMissed here _ | fetched here _ _ =>
    cases known
    exact fresh (by rw [here]; rfl)
  | deregistered here =>
    cases known
    exact before _ (by rw [here]; rfl)
  | _ => cases known

theorem Move.object_other (move : r.Move links id i i' phase) {other : Nat} (different : other ≠ id) :
    i'.flight.object other = i.flight.object other := by
  cases move with
  | leads here free =>
    show (i.flight.join r.code id).2.object other = _
    rw [SingleFlight.join_object free, Function.update_of_ne different]
  | loadHit _ _ | fetchedNone _ _ | stored _ | raised _ _ => exact Instance.settle_object_other _ _ different
  | released _ | releasedError _ | releasedAborted _ => exact Function.update_of_ne different ..
  | _ => rfl

theorem Move.uncached (move : r.Move links id i i' phase)
    (before : r.phase.missed → i.cache.data.lookup r.code = none) (missed : phase.missed) :
    i'.cache.data.lookup r.code = none := by
  cases move with
  | loadMissed here absent => exact LruCache.lookup_get_missed absent
  | fetchedNone here _ | fetched here _ _ => exact before (by rw [here]; trivial)
  | deregistered here => exact missed.elim
  | raised fault _ => cases fault <;> exact missed.elim
  | _ => exact missed.elim

end Resolve

namespace World
variable {settings : Settings} {w w' : World} {event : Event} {id inst : Nat} {i : Instance} {r : Resolve}
  {phase : ResolvePhase} {trace : List Event}

theorem Flights.start (settings : Settings) : (World.start settings).Flights where
  entered known := by cases known
  object known := by cases known
  uncached known := by cases known

theorem Flights.quiet (flights : w.Flights) (quiet : Quiet w w') : w'.Flights where
  entered {id r} known leads := by
    rw [quiet.flight]
    rcases quiet.begun known with before | ⟨_, checking⟩
    · exact flights.entered before leads
    · rw [checking] at leads
      exact leads.elim
  object {id r call} known here := by
    rw [quiet.flight]
    rcases quiet.begun known with before | ⟨_, checking⟩
    · exact flights.object before here
    · rw [checking] at here
      cases here
  uncached {id r} known missed := by
    rcases quiet.begun known with before | ⟨_, checking⟩
    · refine Option.eq_none_iff_forall_not_mem.mpr fun entry held => ?_
      cases (flights.uncached before missed).symm.trans (quiet.cache held)
    · rw [checking] at missed
      exact missed.elim

theorem Flights.restart (flights : w.Flights) (settings : Settings) (inst : Nat) :
    (w.restart settings inst).Flights := by
  have elsewhere {id : Nat} {r : Resolve} (known : (w.restart settings inst).task id = .resolve r)
      (running : r.phase.over = false) :
      w.task id = .resolve r ∧ (w.restart settings inst).instances r.inst = w.instances r.inst := by
    obtain ⟨before, survived⟩ := Task.stop_resolve known
    exact ⟨before, w.restart_instance_other (Task.elsewhere_of_running running survived)⟩
  constructor
  · intro id r known leads
    obtain ⟨before, same⟩ := elsewhere known leads.running
    rw [same]
    exact flights.entered before leads
  · intro id r call known here
    have running : r.phase.over = false := by
      cases phase : r.phase with
      | answered answer => rw [phase] at here; cases here
      | aborted => rw [phase] at here; cases here
      | _ => rfl
    obtain ⟨before, same⟩ := elsewhere known running
    rw [same]
    exact flights.object before here
  · intro id r known missed
    obtain ⟨before, same⟩ := elsewhere known missed.leads.running
    rw [same]
    exact flights.uncached before missed

theorem Flights.resolve {links : LinkStore} (flights : w.Flights) (known : w.task id = .resolve r)
    (move : r.Move links id (w.instances r.inst) i phase) :
    (w.put r.inst i id (.resolve { r with phase := phase })).Flights := by
  have own := flights.entered known
  constructor
  · intro other q held leads
    by_cases acting : other = id
    · subst acting
      cases w.put_task.symm.trans held
      rw [w.put_instance]
      exact move.entered own leads
    · have before := flights.entered ((w.put_task_other acting).symm.trans held) leads
      by_cases here : q.inst = r.inst
      · rw [here, w.put_instance]
        rw [here] at before
        exact move.calls_other own acting before
      · rw [w.put_instance_other here, before]
  · intro other q call held here
    by_cases acting : other = id
    · subst acting
      cases w.put_task.symm.trans held
      rw [w.put_instance]
      exact move.object (fun call => flights.object known) here
    · have before := flights.object ((w.put_task_other acting).symm.trans held) here
      by_cases here : q.inst = r.inst
      · rw [here, w.put_instance, move.object_other acting, ← here, before]
      · rw [w.put_instance_other here, before]
  · intro other q held missed
    by_cases acting : other = id
    · subst acting
      cases w.put_task.symm.trans held
      rw [w.put_instance]
      exact move.uncached (flights.uncached known) missed
    · have running := (w.put_task_other acting).symm.trans held
      have before := flights.uncached running missed
      by_cases here : q.inst = r.inst
      · rw [here, w.put_instance]
        refine Option.eq_none_iff_forall_not_mem.mpr fun entry cached => ?_
        rcases move.cache cached with kept | ⟨link, storing, same, _⟩
        · rw [here] at before
          cases before.symm.trans kept
        -- Two leaders of one code would share its entry in the table.
        · have mine := own (by rw [storing]; trivial)
          have theirs := flights.entered running missed.leads
          rw [here, same, mine] at theirs
          exact acting (Option.some.inj theirs).symm
      · rw [w.put_instance_other here, before]

theorem Flights.step (flights : w.Flights) (taken : w.Step settings event w') : w'.Flights := by
  cases taken.effect with
  | quiet quiet => exact flights.quiet quiet
  | resolve known move _ => exact flights.resolve known move
  | restart inst => exact flights.restart settings inst

theorem flights_of_run (run : Run (World.Step settings) (World.start settings) trace w) : w.Flights := by
  induction run with
  | start => exact .start settings
  | next _ taken ih => exact ih.step taken

/-- There is at most one leader for a code of an instance. -/
theorem Flights.alone (flights : w.Flights) {other : Nat} {q : Resolve} (known : w.task id = .resolve r)
    (leads : r.phase.leads) (known' : w.task other = .resolve q) (leads' : q.phase.leads)
    (sameInst : q.inst = r.inst) (sameCode : q.code = r.code) : other = id := by
  have theirs := flights.entered known' leads'
  rw [sameInst, sameCode, flights.entered known leads] at theirs
  exact (Option.some.inj theirs).symm

/-- Where the task `id` stands with a resolve of `code` on `inst`, if that is what it is. -/
def resolving (w : World) (inst : Nat) (code : String) (id : Nat) : Option ResolvePhase :=
  match w.task id with
  | .resolve r => if r.inst = inst ∧ r.code = code then some r.phase else none
  | _ => none

/-- The cache of `inst` has an entry for `code`. -/
def holds (w : World) (inst : Nat) (code : String) : Bool :=
  ((w.instances inst).cache.data.lookup code).isSome

section
variable {code : String} {link : Link}

theorem resolving_iff : w.resolving inst code id = some phase ↔
    ∃ r, w.task id = .resolve r ∧ r.inst = inst ∧ r.code = code ∧ r.phase = phase := by
  unfold resolving
  constructor
  · intro known
    split at known
    · rename_i r here
      obtain ⟨⟨sameInst, sameCode⟩, same⟩ := Option.ite_none_right_eq_some.mp known
      exact ⟨r, here, sameInst, sameCode, Option.some.inj same⟩
    · cases known
  · rintro ⟨r, here, rfl, rfl, rfl⟩
    simp only [here, and_self, if_true]

/-- Only the tasks that have begun can be resolves. -/
theorem resolving_of_begun (good : Option ResolvePhase → Prop) (none : good none)
    (run : Run (World.Step settings) (World.start settings) trace w)
    (begun : ∀ id ∈ trace.filterMap (Event.starts settings), good (w.resolving inst code id)) (id : Nat) :
    good (w.resolving inst code id) := by
  by_cases known : id ∈ trace.filterMap (Event.starts settings)
  · exact begun id known
  · rw [resolving, absent_of_unbegun run known]
    exact none

theorem put_resolving_other (w : World) {acting : Nat} {i : Instance} {t : Task} {other : Nat}
    (different : other ≠ id) :
    (w.put acting i id t).resolving inst code other = w.resolving inst code other := by
  rw [resolving, w.put_task_other different]
  rfl

/-- The links only grow. -/
theorem Step.links (taken : w.Step settings event w') (stored : w.links.get code = some link) :
    w'.links.get code = some link := by
  cases taken.effect with
  | quiet quiet => exact quiet.links stored
  | resolve _ _ _ => exact stored
  | restart _ => exact stored

/-- Where a resolve stood a step before. -/
theorem Step.resolving_before (taken : w.Step settings event w') (here : w'.resolving inst code id = some phase) :
    w.resolving inst code id = some phase ∨ phase = .checking ∨
    ∃ r, w.task id = .resolve r ∧ r.inst = inst ∧ r.code = code ∧
      r.Move w.links id (w.instances inst) (w'.instances inst) phase ∧
      (event = .step id ∨ ∃ outcome, phase = .deregistering outcome) := by
  obtain ⟨q, known, rfl, rfl, rfl⟩ := resolving_iff.mp here
  cases taken.act with
  | quiet quiet _ =>
    rcases quiet.begun known with before | ⟨_, checking⟩
    · exact Or.inl (resolving_iff.mpr ⟨q, before, rfl, rfl, rfl⟩)
    · exact Or.inr (Or.inl checking)
  | @resolved acting r i phase held advanced =>
    by_cases own : id = acting
    · subst own
      cases w.put_task.symm.trans known
      refine Or.inr (Or.inr ⟨r, held, rfl, rfl, ?_, Or.inl rfl⟩)
      rw [w.put_instance]
      exact .of_advance advanced
    · exact Or.inl (resolving_iff.mpr ⟨q, (w.put_task_other own).symm.trans known, rfl, rfl, rfl⟩)
  | @failed acting r fault i phase held failed =>
    by_cases own : id = acting
    · subst own
      cases w.put_task.symm.trans known
      refine Or.inr (Or.inr ⟨r, held, rfl, rfl, ?_, Or.inr ⟨_, (Resolve.fail_cases failed).2⟩⟩)
      rw [w.put_instance]
      exact .of_fail failed
    · exact Or.inl (resolving_iff.mpr ⟨q, (w.put_task_other own).symm.trans known, rfl, rfl, rfl⟩)
  | restarted stopped => exact Or.inl (resolving_iff.mpr ⟨q, (Task.stop_resolve known).1, rfl, rfl, rfl⟩)

/-- A listed code stays listed while its instance runs. -/
theorem Step.listed (taken : w.Step settings event w') (running : event ≠ .restart inst)
    (listed : (w.instances inst).takedowns.contains code = true) :
    (w'.instances inst).takedowns.contains code = true := by
  have moved {i : Instance} {acting : Nat} (same : i.takedowns = (w.instances acting).takedowns) :
      (Function.update w.instances acting i inst).takedowns.contains code = true :=
    update_keeps (fun j => j.takedowns.contains code = true) (fun _ before => same ▸ before) listed
  cases taken.act with
  | quiet quiet _ => exact quiet.takedowns listed
  | resolved _ advanced => exact moved (Resolve.Move.of_advance advanced).takedowns
  | failed _ failed => exact moved (by rw [(Resolve.fail_cases failed).1]; rfl)
  | restarted stopped =>
    have elsewhere : inst ≠ stopped := by
      rintro rfl
      exact running rfl
    rw [w.restart_instance_other elsewhere, listed]

/-- A resolve stands still while it neither moves nor stops. -/
theorem Step.resolving (taken : w.Step settings event w') (here : w.resolving inst code id = some phase)
    (still : event ≠ .step id) (unraised : ∀ fault, event ≠ .fail id fault) (running : event ≠ .restart inst) :
    w'.resolving inst code id = some phase := by
  obtain ⟨r, known, sameInst, sameCode, samePhase⟩ := resolving_iff.mp here
  refine resolving_iff.mpr ⟨r, ?_, sameInst, sameCode, samePhase⟩
  cases taken.act with
  | quiet quiet _ => exact quiet.kept known
  | @resolved acting _ _ _ _ _ =>
    have other : id ≠ acting := by rintro rfl; exact still rfl
    rw [w.put_task_other other, known]
  | @failed acting _ fault _ _ _ _ =>
    have other : id ≠ acting := by rintro rfl; exact unraised fault rfl
    rw [w.put_task_other other, known]
  | restarted stopped =>
    refine restart_keeps known ?_
    rintro rfl
    exact running (congrArg Event.restart sameInst)

end

end World
end UrlShortener
