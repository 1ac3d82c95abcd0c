import UrlShortener.CreateRecords
import UrlShortener.ResolveProgress
import UrlShortener.General.Snapshots

namespace UrlShortener
open SingleWriter Transition

/-- A request that takes a thread of its instance, with its number. -/
def Event.request : Event → Option (Nat × Nat)
  | .resolve id inst _ _ | .create id inst _ _ | .takedown id inst _ _ => some (id, inst)
  | _ => none

/-- The next step ends a load with a BaseException that is no Exception. -/
def World.aborts (w : World) : Event → Bool
  | .fail id .abort => match w.task id with
    | .resolve _ => true
    | _ => false
  | _ => false

def World.UnabortedStep (settings : Settings) (w : World) (event : Event) (w' : World) : Prop :=
  w.Step settings event w' ∧ w.aborts event = false

/-- No load has ended so. -/
def World.Unaborted (w : World) : Prop :=
  ∀ id r, w.task id = .resolve r → r.phase ≠ .deregistering .aborted

theorem World.Unaborted.resolve {w : World} {id inst : Nat} {i : Instance} {r : Resolve} (unaborted : w.Unaborted)
    (other : r.phase ≠ .deregistering .aborted) : (w.put inst i id (.resolve r)).Unaborted := by
  intro acting q known
  rcases updated known with before | ⟨_, same⟩
  · exact unaborted acting q before
  · cases same
    exact other

theorem World.Unaborted.step {settings : Settings} {w w' : World} {event : Event} (before : w.Unaborted)
    (taken : w.UnabortedStep settings event w') : w'.Unaborted := by
  obtain ⟨taken, unaborted⟩ := taken
  cases taken.act with
  | quiet quiet _ =>
    intro id r known
    rcases quiet.begun known with held | ⟨_, checking⟩
    · exact before id r held
    · rw [checking]
      exact nofun
  | resolved _ advanced =>
    refine before.resolve ?_
    rintro rfl
    obtain ⟨value, same⟩ := Resolve.advance_settles advanced
    cases same
  | @failed _ _ fault _ _ held failed =>
    refine before.resolve ?_
    obtain ⟨_, rfl⟩ := Resolve.fail_cases failed
    cases fault with
    | exception error => exact nofun
    | abort =>
      simp only [aborts, held] at unaborted
      cases unaborted
  | restarted stopped => exact fun id r known => before id r (Task.stop_resolve known).1

theorem World.Turn.absent_of_request {settings : Settings} {w w' : World} {event : Event} {id inst : Nat}
    (turn : w.Turn settings event w') (request : event.request = some (id, inst)) : w.task id = .absent := by
  cases turn with
  | @begun _ other t begins absent =>
    have same : other = id := by
      cases event <;> cases request <;> cases begins <;> rfl
    exact same ▸ absent
  | _ => cases request

/-- Only an INSERT changes the links. -/
theorem World.Turn.same_links {settings : Settings} {w w' : World} {event : Event} (turn : w.Turn settings event w')
    (other : ∀ id code clock, event ≠ .attempt id code clock) : w'.links = w.links := by
  cases turn with
  | attempted _ _ => exact absurd rfl (other _ _ _)
  | _ => rfl

theorem Event.request_of_begins {settings : Settings} {event : Event} {id : Nat} {r : Resolve}
    (begins : event.begins settings = some (id, .resolve r)) : event.request = some (id, r.inst) := by
  cases event <;> cases begins
  rfl

/-- A deployment with the threads that serve its requests. Each has its own
connection to the links, which no error closes. No load ends with a BaseException
that is no Exception. -/
structure PooledWorld where
  world : World
  /-- The connections, by instance and thread. -/
  db : Database (Nat × Nat) LinkStore
  /-- The connection of the thread that serves a request. -/
  worker : Nat → Nat × Nat := fun _ => (0, 0)
  /-- The last request that a thread has begun. -/
  last : Nat × Nat → Option Nat := fun _ => none

inductive PooledEvent
  /-- A step of `app` that uses no connection. -/
  | app (event : Event)
  | request (thread : Nat) (event : Event)
  /-- The route `stats` counts the links. -/
  | stats (inst thread : Nat)
  /-- The SELECT of a load. -/
  | fetch (id : Nat)
  | attempt (id : Nat) (code : String) (clock : Int)
  /-- A step raises, as an INSERT does while the database is locked. -/
  | fail (id : Nat) (fault : Fault) (left : Leaving)
  /-- To count its hit, a resolve flushes the hits, or tries to. -/
  | flush (id : Nat) (left : Option Leaving)
  | restart (inst : Nat)
  deriving DecidableEq

/-- A statement fails and leaves its connection in a transaction that it has only
begun: the database was locked. -/
def PooledEvent.enters : PooledEvent → Bool
  | .fail _ _ left => left = .entered
  | .flush _ left => left = some .entered
  | _ => false

namespace PooledWorld

def start (settings : Settings) : PooledWorld :=
  ⟨.start settings, { store := { committed := .empty } }, fun _ => (0, 0), fun _ => none⟩

/-- The thread serves no request. -/
def free (p : PooledWorld) (c : Nat × Nat) : Bool :=
  match p.last c with
  | some id => (p.world.task id).runsOn ≠ some c.1
  | none => true

/-- The step of `app` uses no connection to the links. -/
def apart (p : PooledWorld) : Event → Bool
  | .limited _ | .poll _ _ | .flushCache _ => true
  | .step id => match p.world.task id with
    | .resolve r => r.phase ≠ .fetching
    | _ => true
  | _ => false

/-- An error of the task `id` can leave its connection so. -/
def leaves (p : PooledWorld) (id : Nat) (left : Leaving) : Bool :=
  match p.world.task id with
  | .create _ => left ≠ .pinned
  | .resolve r => left = .untouched || r.phase = .fetching && left ≠ .entered && left ≠ .locking
  | _ => left = .untouched

/-- The rows of a flush are of another table; an exception of it is caught. -/
def flushed (p : PooledWorld) (c : Nat × Nat) : Option Leaving → Option (Database (Nat × Nat) LinkStore)
  | none => (p.db.acquire c).map fun db => db.commit c
  | some .pinned => none
  | some left => p.db.leave c left

def flush (p : PooledWorld) (id : Nat) (left : Option Leaving) : Option PooledWorld :=
  match p.world.task id with
  | .resolve { phase := .serving (some _), .. } => (p.flushed (p.worker id) left).map fun db => { p with db := db }
  | _ => none

/-- The INSERT of a create, and the COMMIT if its code is free. A taken code
leaves the transaction open. -/
def attempt (p : PooledWorld) (id : Nat) (code : String) (clock : Int) : Option PooledWorld :=
  let c := p.worker id
  match p.world.task id with
  | .create create => (p.db.acquire c).bind fun db =>
    (create.attempt (db.view c) code clock).map fun (links, phase) =>
      { p with
        world := { p.world with
          links := links, task := Function.update p.world.task id (.create { create with phase := phase }) }
        db := match phase with
          | .flagging _ => (db.write c fun _ => links).commit c
          | _ => db }
  | _ => none

def fetch (p : PooledWorld) (id : Nat) : Option PooledWorld :=
  let c := p.worker id
  match p.world.task id with
  | .resolve r =>
    if r.phase = .fetching then
      (r.advance (p.db.view c) id (p.world.instances r.inst)).map fun (i, phase) =>
        { p with world := p.world.put r.inst i id (.resolve { r with phase := phase }), db := p.db.read c }
    else none
  | _ => none

def perform (settings : Settings) (p : PooledWorld) : PooledEvent → Option PooledWorld
  | .app event => if p.apart event then (p.world.perform settings event).map fun w => { p with world := w } else none
  | .request thread event => event.request.bind fun (id, inst) =>
    if p.free (inst, thread) then
      (p.world.perform settings event).map fun w => { p with
        world := w
        worker := Function.update p.worker id (inst, thread)
        last := Function.update p.last (inst, thread) (some id) }
    else none
  | .stats inst thread => if p.free (inst, thread) then some { p with db := p.db.read (inst, thread) } else none
  | .fetch id => p.fetch id
  | .attempt id code clock => p.attempt id code clock
  | .fail id fault left =>
    if p.world.aborts (.fail id fault) = false ∧ p.leaves id left then
      (p.db.leave (p.worker id) left).bind fun db => (p.world.fail id fault).map fun w => { p with world := w, db := db }
    else none
  | .flush id left => p.flush id left
  | .restart inst => some { p with world := p.world.restart settings inst, db := p.db.disconnect (·.1 = inst) }

def Step (settings : Settings) (p : PooledWorld) (event : PooledEvent) (q : PooledWorld) : Prop :=
  p.perform settings event = some q

/-- No connection reads what is not committed, and what is committed are the
links of the deployment. -/
structure Coherent (p : PooledWorld) : Prop where
  links : p.db.committed = p.world.links
  lags : p.db.Lags fun known links => ∀ code link, known.get code = some link → links.get code = some link

/-- The requests use the connections of their instances. -/
def Assigned (p : PooledWorld) : Prop :=
  ∀ id r, p.world.task id = .resolve r → (p.worker id).1 = r.inst

structure Healthy (p : PooledWorld) : Prop where
  coherent : p.Coherent
  assigned : p.Assigned
  sound : p.world.Sound
  flights : p.world.Flights
  recorded : p.world.Recorded
  unaborted : p.world.Unaborted

section
variable {settings : Settings} {p q : PooledWorld} {event : PooledEvent} {id : Nat} {trace : List PooledEvent}

/-- The steps one by one, with what each finds and leaves. -/
inductive Turn (settings : Settings) (p : PooledWorld) : PooledEvent → PooledWorld → Prop
  | app {event w} : p.apart event = true → p.world.Step settings event w →
      Turn settings p (.app event) { p with world := w }
  | request {thread event id inst w} : event.request = some (id, inst) → p.free (inst, thread) = true →
      p.world.Step settings event w →
      Turn settings p (.request thread event) { p with
        world := w
        worker := Function.update p.worker id (inst, thread)
        last := Function.update p.last (inst, thread) (some id) }
  | stats {inst thread} : Turn settings p (.stats inst thread) { p with db := p.db.read (inst, thread) }
  | fetch {id r i phase} : p.world.task id = .resolve r → r.phase = .fetching →
      r.advance (p.db.view (p.worker id)) id (p.world.instances r.inst) = some (i, phase) →
      Turn settings p (.fetch id) { p with
        world := p.world.put r.inst i id (.resolve { r with phase := phase }), db := p.db.read (p.worker id) }
  | inserted {id c left link links code clock opened} : p.world.task id = .create c → c.phase = .attempting (left + 1) →
      p.db.acquire (p.worker id) = some opened →
      (opened.view (p.worker id)).create code c.target c.ttlSeconds none clock = some (link, links) →
      Turn settings p (.attempt id code clock) { p with
        world := { p.world with
          links := links, task := Function.update p.world.task id (.create { c with phase := .flagging link }) }
        db := (opened.write (p.worker id) fun _ => links).commit (p.worker id) }
  | collided {id c left code clock opened} : p.world.task id = .create c → c.phase = .attempting (left + 1) →
      p.db.acquire (p.worker id) = some opened →
      (opened.view (p.worker id)).create code c.target c.ttlSeconds none clock = none →
      Turn settings p (.attempt id code clock) { p with
        world := { p.world with
          links := opened.view (p.worker id)
          task := Function.update p.world.task id (.create { c with phase := .attempting left }) }
        db := opened }
  | fail {id fault left db w} : p.world.aborts (.fail id fault) = false → p.db.leave (p.worker id) left = some db →
      p.world.Step settings (.fail id fault) w → Turn settings p (.fail id fault left) { p with world := w, db := db }
  | flushed {id left db} : p.flushed (p.worker id) left = some db → Turn settings p (.flush id left) { p with db := db }
  | restart {inst} : Turn settings p (.restart inst)
      { p with world := p.world.restart settings inst, db := p.db.disconnect (·.1 = inst) }

theorem Turn.of_attempt {code : String} {clock : Int} (taken : p.attempt id code clock = some q) :
    p.Turn settings (.attempt id code clock) q := by
  unfold attempt at taken
  dsimp only at taken
  split at taken
  · rename_i create known
    obtain ⟨opened, acquired, taken⟩ := Option.bind_eq_some_iff.mp taken
    obtain ⟨⟨links, phase⟩, attempted, same⟩ := Option.map_eq_some_iff.mp taken
    cases same
    unfold Create.attempt at attempted
    split at attempted
    · rename_i left attempting
      split at attempted
      · rename_i made
        cases attempted
        exact .inserted known attempting acquired made
      · rename_i clash
        cases attempted
        exact .collided known attempting acquired clash
    · cases attempted
  · cases taken

theorem Turn.of_fetch (taken : p.fetch id = some q) : p.Turn settings (.fetch id) q := by
  unfold PooledWorld.fetch at taken
  dsimp only at taken
  split at taken
  · rename_i r known
    obtain ⟨fetching, taken⟩ := Option.ite_none_right_eq_some.mp taken
    obtain ⟨⟨i, phase⟩, advanced, same⟩ := Option.map_eq_some_iff.mp taken
    cases same
    exact .fetch known fetching advanced
  · cases taken

theorem Step.turn (taken : p.Step settings event q) : p.Turn settings event q := by
  cases event with
  | app event =>
    obtain ⟨apart, taken⟩ := Option.ite_none_right_eq_some.mp taken
    obtain ⟨w, step, same⟩ := Option.map_eq_some_iff.mp taken
    cases same
    exact .app apart step
  | request thread event =>
    obtain ⟨⟨id, inst⟩, request, taken⟩ := Option.bind_eq_some_iff.mp taken
    obtain ⟨free, taken⟩ := Option.ite_none_right_eq_some.mp taken
    obtain ⟨w, step, same⟩ := Option.map_eq_some_iff.mp taken
    cases same
    exact .request request free step
  | stats inst thread =>
    obtain ⟨_, same⟩ := Option.ite_none_right_eq_some.mp taken
    cases same
    exact .stats
  | fetch id => exact .of_fetch taken
  | attempt id code clock => exact .of_attempt taken
  | fail id fault left =>
    obtain ⟨⟨unaborted, _⟩, taken⟩ := Option.ite_none_right_eq_some.mp taken
    obtain ⟨db, leaves, taken⟩ := Option.bind_eq_some_iff.mp taken
    obtain ⟨w, failed, same⟩ := Option.map_eq_some_iff.mp taken
    cases same
    exact .fail unaborted leaves failed
  | flush id left =>
    unfold Step perform flush at taken
    dsimp only at taken
    split at taken
    · obtain ⟨db, done, same⟩ := Option.map_eq_some_iff.mp taken
      cases same
      exact .flushed done
    · cases taken
  | restart inst =>
    cases Option.some.inj taken
    exact .restart

/-- How the world moves: as without the connections, or by a load that reads
what its connection does. -/
inductive Moves (settings : Settings) (p : PooledWorld) : World → Prop
  | stood : Moves settings p p.world
  | stepped {event w} : p.world.UnabortedStep settings event w → Moves settings p w
  | loaded {id r i phase} : p.world.task id = .resolve r →
      r.Move (p.db.view (p.worker id)) id (p.world.instances r.inst) i phase → phase ≠ .deregistering .aborted →
      Moves settings p (p.world.put r.inst i id (.resolve { r with phase := phase }))

/-- All that a step does to the links, with where the snapshots come from. -/
structure Effect (settings : Settings) (p q : PooledWorld) : Prop where
  coherent : q.Coherent
  moves : p.Moves settings q.world
  reading : ∀ {c version snapshot}, q.db.access c = .reading version snapshot →
    p.db.access c = .reading version snapshot ∨ snapshot = p.world.links

theorem Coherent.still (coherent : p.Coherent) (moves : p.Moves settings q.world) (links : q.world.links = p.world.links)
    (db : q.db = p.db) : p.Effect settings q :=
  ⟨⟨by rw [db, links, coherent.links], db ▸ coherent.lags⟩, moves, fun reading => Or.inl (db ▸ reading)⟩

theorem Coherent.left (coherent : p.Coherent) (left : Leaving) {c : Nat × Nat} (moves : p.Moves settings q.world)
    (links : q.world.links = p.world.links) (leaves : p.db.leave c left = some q.db) : p.Effect settings q := by
  refine ⟨⟨?_, coherent.lags.leave (fun _ _ _ => id) leaves⟩, moves, fun reading => ?_⟩
  · rw [Database.leave_committed leaves, links, coherent.links]
  · rw [← coherent.links]
    exact (Database.leave_reading leaves reading).imp_right And.right

theorem Coherent.flushed (coherent : p.Coherent) {c : Nat × Nat} {left : Option Leaving} (moves : p.Moves settings q.world)
    (links : q.world.links = p.world.links) (flushed : p.flushed c left = some q.db) : p.Effect settings q := by
  unfold PooledWorld.flushed at flushed
  split at flushed
  · obtain ⟨opened, acquired, same⟩ := Option.map_eq_some_iff.mp flushed
    obtain ⟨lags, committed⟩ := (coherent.lags.acquire acquired).commit_store c
    rw [same] at lags committed
    refine ⟨⟨?_, lags⟩, moves, fun reading => Or.inl ?_⟩
    · rw [committed, Database.acquire_committed acquired, links, coherent.links]
    · rw [← same] at reading
      exact Database.acquire_reading acquired (Database.commit_reading reading).2
  · cases flushed
  · exact coherent.left _ moves links flushed

/-- Where a connection has the lock, it reads what is committed. -/
theorem Coherent.acquired (coherent : p.Coherent) {c : Nat × Nat} {opened : Database (Nat × Nat) LinkStore}
    (acquired : p.db.acquire c = some opened) : opened.view c = p.world.links := by
  rw [Database.acquire_view acquired, coherent.lags.store_view, coherent.links]

theorem Coherent.step (coherent : p.Coherent) (taken : p.Step settings event q) : p.Effect settings q := by
  cases taken.turn with
  | @app event w apart step =>
    have unaborted : p.world.aborts event = false := by
      cases event <;> first | rfl | cases apart
    refine coherent.still (.stepped ⟨step, unaborted⟩) (step.turn.same_links ?_) rfl
    rintro id code clock rfl
    cases apart
  | @request thread event id inst w request _ step =>
    have unaborted : p.world.aborts event = false := by
      cases event <;> first | rfl | cases request
    refine coherent.still (.stepped ⟨step, unaborted⟩) (step.turn.same_links ?_) rfl
    rintro id code clock rfl
    cases request
  | stats => exact coherent.left .pinned .stood rfl rfl
  | fetch known _ advanced =>
    refine coherent.left .pinned (.loaded known (.of_advance advanced) ?_) rfl rfl
    rintro rfl
    obtain ⟨value, same⟩ := Resolve.advance_settles advanced
    cases same
  | @inserted id c left link links code clock opened known attempting acquired made =>
    rw [coherent.acquired acquired] at made
    have step : p.world.Step settings (.attempt id code clock)
        { p.world with
          links := links, task := Function.update p.world.task id (.create { c with phase := .flagging link }) } := by
      show p.world.attempt id code clock = _
      simp only [World.attempt, known, Create.attempt, attempting, made, Option.map_some]
    have grows : ∀ code link, p.db.committed.get code = some link → links.get code = some link := by
      rw [coherent.links]
      exact fun code link => LinkStore.get_create made
    obtain ⟨lags, committed⟩ := coherent.lags.publish (f := fun _ => links)
      (fun first second code link known => second code link (first code link known)) acquired grows
    exact ⟨⟨committed, lags⟩, .stepped ⟨step, rfl⟩, fun reading =>
      Or.inl (Database.acquire_reading acquired (Database.commit_reading reading).2)⟩
  | @collided id c left code clock opened known attempting acquired clash =>
    rw [coherent.acquired acquired] at clash ⊢
    have step : p.world.Step settings (.attempt id code clock)
        { p.world with task := Function.update p.world.task id (.create { c with phase := .attempting left }) } := by
      show p.world.attempt id code clock = _
      simp only [World.attempt, known, Create.attempt, attempting, clash, Option.map_some]
    exact coherent.left .locking (.stepped ⟨step, rfl⟩) rfl acquired
  | fail unaborted leaves step => exact coherent.left _ (.stepped ⟨step, unaborted⟩) (step.turn.same_links nofun) leaves
  | flushed done => exact coherent.flushed .stood rfl done
  | @restart inst =>
    obtain ⟨lags, committed⟩ := coherent.lags.disconnect (·.1 = inst)
    exact ⟨⟨committed.trans coherent.links, lags⟩, @Moves.stepped _ _ (.restart inst) _ ⟨rfl, rfl⟩, fun reading =>
      Or.inl (Database.disconnect_reading reading).2⟩

/-- A load that reads less than the store reads nothing else. -/
theorem Coherent.view (coherent : p.Coherent) (c : Nat × Nat) {code : String} {link : Link}
    (seen : (p.db.view c).get code = some link) : p.world.links.get code = some link := by
  rw [← coherent.links]
  exact coherent.lags.view (fun _ _ _ => id) c code link seen

/-- A request is given a thread of its instance. -/
theorem Assigned.step (assigned : p.Assigned) (taken : p.Step settings event q) : q.Assigned := by
  have kept {event : UrlShortener.Event} {w : World} (step : p.world.Step settings event w)
      (none : event.request = none) {id : Nat} {r : Resolve} (held : w.task id = .resolve r) :
      (p.worker id).1 = r.inst := by
    rcases step.turn.resolve held with ⟨before, known, same⟩ | ⟨_, begins⟩
    · exact (assigned id before known).trans same
    · cases none.symm.trans (Event.request_of_begins begins)
  intro id r known
  cases taken.turn with
  | @app event w apart step =>
    refine kept step ?_ known
    cases event <;> first | rfl | cases apart
  | @request thread event own inst w request _ step =>
    show (Function.update p.worker own (inst, thread) id).1 = r.inst
    rcases step.turn.resolve known with ⟨before, held, same⟩ | ⟨_, begins⟩
    · have other : id ≠ own := by
        rintro rfl
        have absent := step.turn.absent_of_request request
        cases absent.symm.trans held
      rw [Function.update_of_ne other, assigned id before held, same]
    · cases request.symm.trans (Event.request_of_begins begins)
      rw [Function.update_self]
  | stats => exact assigned id r known
  | @fetch own loading i phase here _ _ =>
    rcases World.updated known with before | ⟨rfl, same⟩
    · exact assigned id r before
    · cases same
      exact assigned id loading here
  | inserted here _ _ _ | collided here _ _ _ =>
    rcases World.updated known with before | ⟨_, same⟩
    · exact assigned id r before
    · cases same
  | fail _ _ step => exact kept step rfl known
  | flushed _ => exact assigned id r known
  | restart => exact assigned id r (Task.eq_of_stop known Task.noConfusion)

theorem Healthy.step (healthy : p.Healthy) (taken : p.Step settings event q) : q.Healthy := by
  obtain ⟨coherent, moves, _⟩ := healthy.coherent.step taken
  have assigned := healthy.assigned.step taken
  suffices good : q.world.Sound ∧ q.world.Flights ∧ q.world.Recorded ∧ q.world.Unaborted from
    ⟨coherent, assigned, good.1, good.2.1, good.2.2.1, good.2.2.2⟩
  generalize q.world = w at moves
  cases moves with
  | stood => exact ⟨healthy.sound, healthy.flights, healthy.recorded, healthy.unaborted⟩
  | stepped step =>
    exact ⟨healthy.sound.step step.1, healthy.flights.step step.1, healthy.recorded.step step.1,
      healthy.unaborted.step step⟩
  | loaded known move unaborted =>
    exact ⟨healthy.sound.resolve known (healthy.coherent.view _) move, healthy.flights.resolve known move,
      healthy.recorded.resolve, healthy.unaborted.resolve unaborted⟩

theorem healthy_of_run (run : Run (Step settings) (start settings) trace p) : p.Healthy := by
  induction run with
  | start =>
    exact ⟨⟨rfl, ⟨nofun, nofun⟩⟩, nofun, .start settings, .start settings, .start settings, nofun⟩
  | next _ taken ih => exact ih.step taken

theorem Moves.absent_elsewhere {w : World} (moves : p.Moves settings w) :
    ∃ acting, ∀ id, id ≠ acting → p.world.task id = .absent → w.task id = .absent := by
  cases moves with
  | stood => exact ⟨0, fun _ _ absent => absent⟩
  | stepped step => exact step.1.absent_elsewhere
  | @loaded acting _ _ _ _ _ _ =>
    exact ⟨acting, fun id different absent => (p.world.put_task_other different).trans absent⟩

theorem Step.last_elsewhere (taken : p.Step settings event q) :
    ∃ thread, ∀ n, n ≠ thread → ∀ inst, q.last (inst, n) = p.last (inst, n) := by
  cases taken.turn with
  | @request thread event id inst w _ _ _ =>
    refine ⟨thread, fun n different other => Function.update_of_ne ?_ ..⟩
    exact fun same => different (congrArg Prod.snd same)
  | _ => exact ⟨0, fun _ _ _ => rfl⟩

/-- There are always numbers that no request has, and threads that are free. -/
theorem spare_of_run (run : Run (Step settings) (start settings) trace p) :
    ∃ bound, ∀ n, bound ≤ n → p.world.task n = .absent ∧ ∀ inst, p.last (inst, n) = none := by
  induction run with
  | start => exact ⟨0, fun _ _ => ⟨rfl, fun _ => rfl⟩⟩
  | next before taken ih =>
    obtain ⟨bound, spare⟩ := ih
    obtain ⟨acting, absent⟩ := ((healthy_of_run before).coherent.step taken).moves.absent_elsewhere
    obtain ⟨thread, last⟩ := taken.last_elsewhere
    refine ⟨max bound (max acting thread + 1), fun n beyond => ?_⟩
    obtain ⟨unused, free⟩ := spare n (by omega)
    exact ⟨absent n (by omega) unused, fun inst => (last n (by omega) inst).trans (free inst)⟩

theorem prompt_of_run (run : Run (Step settings) (start settings) trace p)
    (quiet : ∀ event ∈ trace, event.enters = false) : p.db.Prompt := by
  induction run with
  | start => exact fun _ => Or.inl rfl
  | @next trace before event after _ taken ih =>
    have prompt := ih fun event member => quiet event (List.mem_append_left _ member)
    have quiet := quiet event (List.mem_append_right _ (List.mem_singleton_self _))
    cases taken.turn with
    | app _ _ | request _ _ _ => exact prompt
    | stats | fetch _ _ _ => rwa [prompt.read]
    | inserted _ _ acquired _ => exact (prompt.acquire acquired).put (Or.inl rfl) _
    | collided _ _ acquired _ => exact prompt.acquire acquired
    | fail _ leaves _ => exact prompt.leave (of_decide_eq_false quiet) leaves
    | @flushed id left db done =>
      unfold PooledWorld.flushed at done
      split at done
      · obtain ⟨opened, acquired, same⟩ := Option.map_eq_some_iff.mp done
        cases same
        exact (prompt.acquire acquired).put (Or.inl rfl) _
      · cases done
      · exact prompt.leave (fun same => of_decide_eq_false quiet (congrArg some same)) done
    | @restart inst => exact prompt.disconnect (·.1 = inst)

end

end PooledWorld
end UrlShortener
