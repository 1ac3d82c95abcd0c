import UrlShortener.FlightLeaders
import UrlShortener.ResolveProgress
import UrlShortener.General.Watch

namespace UrlShortener
open Transition

/-- What has happened to the loads of a code since some moment. -/
structure LoadLog where
  /-- The loads that have run `links.get`. -/
  read : List Nat := []
  /-- The load that has run `cache.put` last. -/
  put : Option Nat := none

/-- The code whose entry the next step of a poll evicts. -/
def InvalidationBus.Poll.evicts : Poll → Option String
  | .applying _ (row :: _) => some row.code
  | _ => none

def Takedown.evicts (t : Takedown) : Option String :=
  match t.phase with
  | .purging => some t.code
  | .draining _ poll => poll.evicts
  | _ => none

def Task.evicts : Task → Option (Nat × String)
  | .takedown t => t.evicts.map fun code => (t.inst, code)
  | .poll inst progress => progress.evicts.map fun code => (inst, code)
  | _ => none

theorem Instance.poll_evicts {i j : Instance} {log : List Invalidation} {poll poll' : InvalidationBus.Poll}
    {code : String} (h : i.poll log poll = some (j, poll')) (evicts : poll.evicts = some code) :
    j.cache.data.lookup code = none := by
  cases poll with
  | applying rows rest =>
    cases rest with
    | nil => cases evicts
    | cons row rest =>
      cases evicts
      cases h
      exact i.cache.lookup_invalidate_self row.code
  | _ => cases evicts

theorem Takedown.advance_evicts {t : Takedown} {i j : Instance} {log log' : List Invalidation}
    {phase : TakedownPhase} {code : String} (h : t.advance log i = some (j, log', phase))
    (evicts : t.evicts = some code) : j.cache.data.lookup code = none := by
  obtain ⟨inst, own, reason, here⟩ := t
  cases here with
  | purging =>
    cases evicts
    cases h
    exact i.cache.lookup_invalidate_self own
  | draining seq poll =>
    cases poll with
    | applying rows rest =>
      obtain ⟨⟨k, next⟩, polled, same⟩ := Option.map_eq_some_iff.mp h
      cases same
      exact Instance.poll_evicts polled evicts
    | _ => cases evicts
  | _ => cases evicts

theorem Resolve.Move.fetching {links : LinkStore} {id : Nat} {i i' : Instance} {r : Resolve} {link : Link}
    (move : r.Move links id i i' (.storing link)) : r.phase = .fetching := by
  cases move with
  | fetched here _ _ => exact here

namespace World

def noteLoads (inst : Nat) (code : String) (log : LoadLog) (w : World) : Event → LoadLog
  | .step id => match w.resolving inst code id with
    | some .fetching => { log with read := id :: log.read }
    | some (.storing _) => { log with put := some id }
    | _ => log
  | _ => log

/-- The next step is `cache.invalidate(code)` on `inst`, by a takedown or by a poll. -/
def invalidates (w : World) (inst : Nat) (code : String) : Event → Bool
  | .step id => (w.task id).evicts = some (inst, code)
  | _ => false

/-- From now on the cache of `inst` holds an entry for `code` only if it was put
there by a load that has read the link since. -/
def InvalidationHolds (settings : Settings) (w : World) (inst : Nat) (code : String) : Prop :=
  ∀ later log u, Run (Watched (World.Step settings) (noteLoads inst code)) ({}, w) later (log, u) →
    u.holds inst code = true → ∃ id, log.put = some id ∧ id ∈ log.read

variable {settings : Settings} {w w' : World} {event : Event} {id inst : Nat} {code : String} {log : LoadLog}
  {trace : List Event} {link : Link}

theorem holds_iff : w.holds inst code = true ↔ ∃ entry, (w.instances inst).cache.data.lookup code = some entry :=
  Option.isSome_iff_exists

/-- An entry is old, unless a load puts it there. -/
theorem Step.held (taken : w.Step settings event w') (held : w'.holds inst code = true) :
    w.holds inst code = true ∨ ∃ id link, event = .step id ∧ w.resolving inst code id = some (.storing link) := by
  obtain ⟨entry, held⟩ := holds_iff.mp held
  have moved {id : Nat} {r : Resolve} {i : Instance} {phase : ResolvePhase}
      (move : r.Move w.links id (w.instances r.inst) i phase)
      (held : ((w.put r.inst i id (.resolve { r with phase := phase })).instances inst).cache.data.lookup code =
        some entry) :
      w.holds inst code = true ∨ r.inst = inst ∧ r.code = code ∧ ∃ link, r.phase = .storing link := by
    by_cases here : inst = r.inst
    · subst here
      rw [w.put_instance] at held
      rcases move.cache held with before | ⟨link, storing, rfl, _⟩
      · exact Or.inl (holds_iff.mpr ⟨entry, before⟩)
      · exact Or.inr ⟨rfl, rfl, link, storing⟩
    · rw [w.put_instance_other here] at held
      exact Or.inl (holds_iff.mpr ⟨entry, held⟩)
  cases taken.act with
  | quiet quiet _ => exact Or.inl (holds_iff.mpr ⟨entry, quiet.cache held⟩)
  | resolved known advanced =>
    refine (moved (.of_advance advanced) held).imp_right ?_
    rintro ⟨sameInst, sameCode, link, storing⟩
    exact ⟨_, link, rfl, resolving_iff.mpr ⟨_, known, sameInst, sameCode, storing⟩⟩
  | @failed _ r _ _ _ known failed =>
    obtain ⟨rfl, rfl⟩ := Resolve.fail_cases failed
    refine Or.inl (holds_iff.mpr ⟨entry, ?_⟩)
    by_cases here : inst = r.inst
    · subst here
      rw [w.put_instance] at held
      exact held
    · rwa [w.put_instance_other here] at held
  | restarted stopped =>
    by_cases here : inst = stopped
    · subst here
      rw [w.restart_instance] at held
      cases (AList.lookup_empty code).symm.trans held
    · rw [w.restart_instance_other here] at held
      exact Or.inl (holds_iff.mpr ⟨entry, held⟩)

/-- A load that is about to store the link has read it a step before. -/
theorem Step.storing (taken : w.Step settings event w') (storing : w'.resolving inst code id = some (.storing link)) :
    w.resolving inst code id = some (.storing link) ∨
      event = .step id ∧ w.resolving inst code id = some .fetching := by
  rcases taken.resolving_before storing with before | checking | ⟨r, known, sameInst, sameCode, move, acting⟩
  · exact Or.inl before
  · cases checking
  · rcases acting with rfl | ⟨_, same⟩
    · exact Or.inr ⟨rfl, resolving_iff.mpr ⟨r, known, sameInst, sameCode, move.fetching⟩⟩
    · cases same

/-- Every load that is about to store the link has read it since, and so has the
one whose entry the cache holds. -/
structure ReadSince (inst : Nat) (code : String) (log : LoadLog) (w : World) : Prop where
  storing : ∀ {id link}, w.resolving inst code id = some (.storing link) → id ∈ log.read
  held : w.holds inst code = true → ∃ id, log.put = some id ∧ id ∈ log.read

theorem mem_noteLoads (known : id ∈ log.read) : id ∈ (noteLoads inst code log w event).read := by
  unfold noteLoads
  split
  · split
    · exact List.mem_cons_of_mem _ known
    · exact known
    · exact known
  · exact known

theorem noteLoads_put (inst : Nat) (code : String) (log : LoadLog) (w : World) (event : Event) :
    (noteLoads inst code log w event).put = log.put ∨
      ∃ id link, w.resolving inst code id = some (.storing link) ∧ (noteLoads inst code log w event).put = some id := by
  unfold noteLoads
  split
  · split
    · exact Or.inl rfl
    · rename_i id _ link storing
      exact Or.inr ⟨id, link, storing, rfl⟩
    · exact Or.inl rfl
  · exact Or.inl rfl

theorem ReadSince.step (since : ReadSince inst code log w) (taken : w.Step settings event w') :
    ReadSince inst code (noteLoads inst code log w event) w' := by
  constructor
  · intro id link storing
    rcases taken.storing storing with before | ⟨rfl, fetching⟩
    · exact mem_noteLoads (since.storing before)
    · simp only [noteLoads, fetching]
      exact List.mem_cons_self ..
  · intro held
    rcases taken.held held with before | ⟨id, link, rfl, storing⟩
    · obtain ⟨id, put, read⟩ := since.held before
      rcases noteLoads_put inst code log w event with same | ⟨other, link, storing, put'⟩
      · exact ⟨id, same.trans put, mem_noteLoads read⟩
      · exact ⟨other, put', mem_noteLoads (since.storing storing)⟩
    · refine ⟨id, ?_, mem_noteLoads (since.storing storing)⟩
      simp only [noteLoads, storing]

/-- No cache is ever resized. -/
theorem capacity_of_run (run : Run (World.Step settings) (World.start settings) trace w) (inst : Nat) :
    (w.instances inst).cache.capacity = settings.cacheCapacity := by
  induction run with
  | start => rfl
  | @next _ before _ _ _ taken ih =>
    have kept {acting : Nat} {i : Instance} (same : i.cache.capacity = (before.instances acting).cache.capacity) :
        (Function.update before.instances acting i inst).cache.capacity = settings.cacheCapacity :=
      update_keeps (fun j => j.cache.capacity = settings.cacheCapacity) (fun _ sized => same.trans sized) ih
    cases taken.turn with
    | resolved _ advanced => exact kept (Resolve.Move.of_advance advanced).capacity
    | resolveFailed _ failed => exact kept (by rw [(Resolve.fail_cases failed).1]; rfl)
    | created _ advanced => exact kept (congrArg LruCache.capacity (Create.advance_cases advanced).2.2)
    | tookDown _ advanced => exact kept (Takedown.advance_capacity advanced)
    | polled _ polled => exact kept (Instance.poll_capacity polled)
    | flushed acting => exact kept rfl
    | restarted stopped =>
      exact update_keeps (fun j => j.cache.capacity = settings.cacheCapacity) (fun _ _ => rfl) ih
    | _ => exact ih

theorem step_of_storing (w : World) (settings : Settings) (storing : w.resolving inst code id = some (.storing link))
    (room : 0 < (w.instances inst).cache.capacity) :
    ∃ w', w.Step settings (.step id) w' ∧ w'.holds inst code = true := by
  obtain ⟨r, known, rfl, rfl, phase⟩ := resolving_iff.mp storing
  have stored : r.advance w.links id (w.instances r.inst) =
      some (({ w.instances r.inst with cache := (w.instances r.inst).cache.put r.code link.target link.expiresMs } :
        Instance).settle id (.returned (some link.target))) := by
    simp only [Resolve.advance, phase]
  refine ⟨_, World.step_of_advance known stored, holds_iff.mpr ⟨(link.target, link.expiresMs), ?_⟩⟩
  rw [w.put_instance]
  exact LruCache.lookup_put_self room r.code link.target link.expiresMs

/-- An invalidation is a step of a takedown or a poll, and leaves no entry. -/
theorem Step.invalidated (taken : w.Step settings event w') (invalidates : w.invalidates inst code event = true) :
    w'.holds inst code = false ∧ ∃ id, event = .step id ∧ ∀ r, w.task id ≠ .resolve r := by
  unfold World.invalidates at invalidates
  split at invalidates
  · rename_i id
    have evicts := of_decide_eq_true invalidates
    refine ⟨?_, id, rfl, fun r known => by rw [known] at evicts; cases evicts⟩
    cases taken.turn with
    | begun begins _ => cases begins
    | resolved known _ => rw [known] at evicts; cases evicts
    | created known _ => rw [known] at evicts; cases evicts
    | tookDown known advanced =>
      rw [known] at evicts
      obtain ⟨own, evicted, same⟩ := Option.map_eq_some_iff.mp evicts
      cases same
      show ((Function.update w.instances _ _ _).cache.data.lookup _).isSome = false
      rw [Function.update_self, Takedown.advance_evicts advanced evicted]
      rfl
    | polled known polled =>
      rw [known] at evicts
      obtain ⟨own, evicted, same⟩ := Option.map_eq_some_iff.mp evicts
      cases same
      rw [World.holds, w.put_instance, Instance.poll_evicts polled evicted]
      rfl
  · cases invalidates

/-- An invalidation holds unless a load of its code stands between its read and
its write of the cache. -/
theorem invalidation_holds_iff (run : Run (World.Step settings) (World.start settings) trace w)
    (taken : w.Step settings event w') (invalidates : w.invalidates inst code event = true) :
    w'.InvalidationHolds settings inst code ↔
      settings.cacheCapacity = 0 ∨ ∀ id link, w.resolving inst code id ≠ some (.storing link) := by
  obtain ⟨evicted, acting, acts, unresolved⟩ := taken.invalidated invalidates
  have run' := run.next taken
  constructor
  · intro holds
    by_contra broken
    push Not at broken
    obtain ⟨sized, id, link, storing⟩ := broken
    have still : w'.resolving inst code id = some (.storing link) := by
      refine taken.resolving storing ?_ ?_ ?_
      · rintro rfl
        cases acts
        obtain ⟨r, known, _⟩ := resolving_iff.mp storing
        exact unresolved r known
      · rintro fault rfl
        cases acts
      · rintro rfl
        cases acts
    -- The load goes on and stores what it read before the invalidation.
    obtain ⟨u, taken', held⟩ := w'.step_of_storing settings still (capacity_of_run run' inst ▸ Nat.pos_of_ne_zero sized)
    obtain ⟨owner, _, read⟩ := holds _ _ u (.single ⟨taken', rfl⟩) held
    simp only [still] at read
    cases read
  · rintro (empty | quiet) later log u rest held
    · have sized := capacity_of_run (run'.append rest.unwatched) inst
      obtain ⟨entry, found⟩ := holds_iff.mp held
      cases (LruCache.lookup_of_capacity_zero (sized.trans empty) code).symm.trans found
    · have since : ReadSince inst code log u := by
        refine rest.watched_invariant (ReadSince inst code) ⟨fun {id link} storing => ?_, fun held => ?_⟩
          fun _ before taken => before.step taken
        · rcases taken.storing storing with before | ⟨rfl, fetching⟩
          · exact absurd before (quiet id link)
          · cases acts
            obtain ⟨r, known, _⟩ := resolving_iff.mp fetching
            exact absurd known (unresolved r)
        · rw [evicted] at held
          cases held
      exact since.held held

/-- A takedown evicts the code while the only load of it has not come to its read. -/
theorem invalidation_holds_unread :
    ∃ w w' : World, Run (World.Step .lenient) (World.start .lenient)
        [.create 0 0 "https://example.com" none, .attempt 0 "c" 0, .step 0, .resolve 1 0 "c" 0, .step 1, .step 1,
          .step 1, .step 1, .takedown 2 0 "c" "policy violation", .step 2] w ∧
      w.Step .lenient (.step 2) w' ∧ w'.InvalidationHolds .lenient 0 "c" := by
  have executed : ∃ w, Run (World.Step .lenient) (World.start .lenient)
      [.create 0 0 "https://example.com" none, .attempt 0 "c" 0, .step 0, .resolve 1 0 "c" 0, .step 1, .step 1,
        .step 1, .step 1, .takedown 2 0 "c" "policy violation", .step 2] w ∧
      w.invalidates 0 "c" (.step 2) = true ∧ (w.perform .lenient (.step 2)).isSome = true ∧
      w.resolving 0 "c" 0 = none ∧ w.resolving 0 "c" 1 = some .fetching ∧ w.resolving 0 "c" 2 = none :=
    Run.exists_of_execute (fun _ _ _ done => done) (by decide +kernel)
  obtain ⟨w, run, invalidates, possible, zero, one, two⟩ := executed
  obtain ⟨w', taken⟩ := Option.isSome_iff_exists.mp possible
  have unstored : ∀ id link, w.resolving 0 "c" id ≠ some (.storing link) := by
    refine resolving_of_begun (fun here => ∀ link, here ≠ some (.storing link)) nofun run fun id known => ?_
    have known : id ∈ [0, 1, 2] := known
    simp only [List.mem_cons, List.not_mem_nil, or_false] at known
    rcases known with rfl | rfl | rfl <;> simp [zero, one, two]
  exact ⟨w, w', run, taken, (invalidation_holds_iff run taken invalidates).mpr (Or.inr unstored)⟩

/-- The load has read the link when a takedown evicts the code, and then puts
the entry back. -/
theorem load_undoes_invalidation :
    ∃ w w' : World, Run (World.Step .lenient) (World.start .lenient)
        [.create 0 0 "https://example.com" none, .attempt 0 "c" 0, .step 0, .resolve 1 0 "c" 0, .step 1, .step 1,
          .step 1, .step 1, .step 1, .takedown 2 0 "c" "policy violation", .step 2] w ∧
      w.invalidates 0 "c" (.step 2) = true ∧ w.Step .lenient (.step 2) w' ∧
      ¬ w'.InvalidationHolds .lenient 0 "c" := by
  have executed : ∃ w, Run (World.Step .lenient) (World.start .lenient)
      [.create 0 0 "https://example.com" none, .attempt 0 "c" 0, .step 0, .resolve 1 0 "c" 0, .step 1, .step 1,
        .step 1, .step 1, .step 1, .takedown 2 0 "c" "policy violation", .step 2] w ∧
      w.invalidates 0 "c" (.step 2) = true ∧
      (w.perform .lenient (.step 2)).any (fun w' => (w'.perform .lenient (.step 1)).any fun u =>
        w'.resolving 0 "c" 1 = some (.storing ⟨"c", "https://example.com", 0, none⟩) ∧ u.holds 0 "c" = true) = true :=
    Run.exists_of_execute (fun _ _ _ done => done) (by decide +kernel)
  obtain ⟨w, run, invalidates, more⟩ := executed
  obtain ⟨w', taken, next⟩ := (Option.any_eq_true _ _).mp more
  obtain ⟨u, put, holds⟩ := (Option.any_eq_true _ _).mp next
  obtain ⟨storing, held⟩ := of_decide_eq_true holds
  refine ⟨w, w', run, invalidates, taken, fun kept => ?_⟩
  obtain ⟨owner, _, read⟩ := kept _ _ u (.single ⟨put, rfl⟩) held
  simp only [storing] at read
  cases read

end World
end UrlShortener
