import UrlShortener.General.Whereabouts
import UrlShortener.HitCounter
import UrlShortener.Takedowns

namespace UrlShortener
open Transition Whereabouts

/-- The target is found, and its hit is to be counted before anything is shown. -/
def ResolvePhase.counting : ResolvePhase → Bool
  | .serving (some _) => true
  | _ => false

/-- A deployment that counts its hits, and the requests that have called
`record`, with their codes. A request counts on its own thread; the shutdown
hook of an instance is a thread, too. -/
structure CountedWorld where
  world : World
  hits : HitCounting Nat (Nat ⊕ Nat)
  counted : List (Nat × String)

inductive CountedEvent
  | app (event : Event)
  | hits (event : HitCounting.Event Nat (Nat ⊕ Nat))
  /-- A process is replaced by a new one, whose counter starts at `now`. -/
  | restart (inst : Nat) (now : ℚ)

namespace CountedWorld

def start (settings : Settings) (created : Nat → ℚ) : CountedWorld :=
  ⟨.start settings, .start (fun _ => 2) (fun _ => 10000) created, []⟩

/-- A request goes on to its answer when `record` has returned. -/
def ready (s : CountedWorld) : Event → Bool
  | .step id => match s.world.task id with
    | .resolve r => !r.phase.counting || (s.counted.map Prod.fst).contains id && (s.hits.thread (.inl id)).free
    | _ => true
  | .restart _ => false
  | _ => true

/-- Requests record, each of them once, and the shutdown hooks flush. -/
def allows (s : CountedWorld) : HitCounting.Event Nat (Nat ⊕ Nat) → Bool
  | .record (.inl id) inst code => match s.world.task id with
    | .resolve r => r.phase.counting && r.inst = inst && r.code = code && !(s.counted.map Prod.fst).contains id
    | _ => false
  | .record (.inr _) _ _ | .flush (.inl _) _ => false
  | .flush (.inr hook) inst => hook = inst
  | _ => true

def logged : HitCounting.Event Nat (Nat ⊕ Nat) → List (Nat × String)
  | .record (.inl id) _ code => [(id, code)]
  | _ => []

def runsOn (s : CountedWorld) (inst : Nat) : Nat ⊕ Nat → Bool
  | .inl id => (s.world.task id).runsOn = some inst
  | .inr hook => hook = inst

/-- What a process that stops leaves of the counting. -/
def stopped (s : CountedWorld) (inst : Nat) (now : ℚ) : HitCounting Nat (Nat ⊕ Nat) :=
  { s.hits with
    counter := Function.update s.hits.counter inst { lastFlush := now }
    thread := fun t => if s.runsOn inst t then .idle else s.hits.thread t }

def perform (settings : Settings) (s : CountedWorld) : CountedEvent → Option CountedWorld
  | .app event =>
    if s.ready event then (s.world.perform settings event).map fun w => { s with world := w } else none
  | .hits event =>
    if s.allows event then (s.hits.perform event).map fun h => { s with hits := h, counted := s.counted ++ logged event }
    else none
  | .restart inst now => some { s with world := s.world.restart settings inst, hits := s.stopped inst now }

def Step (settings : Settings) (s : CountedWorld) (event : CountedEvent) (t : CountedWorld) : Prop :=
  s.perform settings event = some t

/-- Where the hit of a request is. -/
inductive Place
  | uncounted
  | pending (inst : Nat)
  | taken (thread : Nat ⊕ Nat)
  | stored
  | lost
  deriving DecidableEq

/-- What a process that stops takes with it. -/
def doomed (s : CountedWorld) (inst : Nat) : Place → Bool
  | .pending k => k = inst
  | .taken t => s.runsOn inst t
  | _ => false

/-- Where the hits are after a step. -/
def moved (place : Nat → Place) (s : CountedWorld) : CountedEvent → Nat → Place
  | .hits (.record (.inl id) inst _) => Function.update place id (.pending inst)
  | .hits (.swap t inst _) => pour place (.pending inst) (.taken t)
  | .hits (.write t) => pour place (.taken t) .stored
  | .hits (.merge t) => match s.hits.thread t with
    | .merging inst _ => pour place (.taken t) (.pending inst)
    | _ => place
  | .restart inst _ => clear place (s.doomed inst) .lost
  | _ => place

/-- The hits of a code that are in a place. -/
def holds (s : CountedWorld) : Place → String → Nat
  | .pending inst, code => (s.hits.counter inst).counts.count code
  | .taken t, code => (s.hits.thread t).batch.count code
  | .stored, code => s.hits.hits code
  | .uncounted, _ | .lost, _ => 0

def Place.kept : Place → Bool
  | .pending _ | .taken _ | .stored => true
  | .uncounted | .lost => false

/-- Every hit that was counted is in one place, and nothing else is there. -/
structure Located (place : Nat → Place) (s : CountedWorld) : Prop where
  amounts : ∀ p code, p.kept = true → amount s.counted place p code = s.holds p code
  known : ∀ entry ∈ s.counted, place entry.1 ≠ .uncounted
  once : (s.counted.map Prod.fst).Nodup

variable {settings : Settings} {place : Nat → Place} {s t : CountedWorld} {source target : Place} {inst id : Nat}
  {code : String}

/-- The hits of one place are brought to another. -/
theorem Located.pour (located : Located place s) (counted : t.counted = s.counted) (different : source ≠ target)
    (kept : source.kept = true ∧ target.kept = true) (emptied : ∀ code, t.holds source code = 0)
    (filled : ∀ code, t.holds target code = s.holds target code + s.holds source code)
    (others : ∀ p, p ≠ source → p ≠ target → ∀ code, t.holds p code = s.holds p code) :
    Located (pour place source target) t where
  amounts p code tracked := by
    rw [counted]
    by_cases atSource : p = source
    · rw [atSource, amount_source different, emptied]
    · by_cases atTarget : p = target
      · rw [atTarget, amount_poured different, located.amounts _ _ kept.1, located.amounts _ _ kept.2, filled]
      · rw [amount_other atSource atTarget, others p atSource atTarget, located.amounts p code tracked]
  known entry member := by
    rw [counted] at member
    unfold Whereabouts.pour clear
    split
    · rintro rfl
      cases kept.2
    · exact located.known entry member
  once := counted ▸ located.once

/-- Nothing is moved. -/
theorem Located.still (located : Located place s) (counted : t.counted = s.counted)
    (same : ∀ p code, t.holds p code = s.holds p code) : Located place t where
  amounts p code tracked := by rw [counted, same, located.amounts p code tracked]
  known := counted ▸ located.known
  once := counted ▸ located.once

section
variable {k : Nat} {c : HitCounter} {thread : Nat ⊕ Nat} {phase : HitPhase Nat} {h : HitCounting Nat (Nat ⊕ Nat)}
  {event : HitCounting.Event Nat (Nat ⊕ Nat)} {log : List (Nat × String)} {p : Place}

/-- A counter and a thread of the counting have changed. -/
structure Changed (s t : CountedWorld) (k : Nat) (c : HitCounter) (thread : Nat ⊕ Nat) (phase : HitPhase Nat) : Prop where
  counter : t.hits.counter = Function.update s.hits.counter k c
  thread : t.hits.thread = Function.update s.hits.thread thread phase

theorem Changed.holds_counter (changed : Changed s t k c thread phase) (code : String) :
    t.holds (.pending k) code = c.counts.count code := by
  rw [holds, changed.counter, Function.update_self]

theorem Changed.holds_thread (changed : Changed s t k c thread phase) (code : String) :
    t.holds (.taken thread) code = phase.batch.count code := by
  rw [holds, changed.thread, Function.update_self]

theorem Changed.holds_other (changed : Changed s t k c thread phase) (apart : p ≠ .pending k)
    (different : p ≠ .taken thread) (stored : p ≠ .stored) (code : String) : t.holds p code = s.holds p code := by
  cases p with
  | pending j => rw [holds, holds, changed.counter, Function.update_of_ne fun same => apart (congrArg _ same)]
  | taken other => rw [holds, holds, changed.thread, Function.update_of_ne fun same => different (congrArg _ same)]
  | stored => exact absurd rfl stored
  | uncounted => rfl
  | lost => rfl

/-- A thread goes on with the batch that it has. -/
theorem Located.turn (located : Located place s) (same : phase.batch = (s.hits.thread thread).batch) :
    Located place { s with hits := s.hits.turn thread phase, counted := s.counted ++ [] } := by
  refine located.still (List.append_nil _) fun p code => ?_
  cases p with
  | taken other =>
    show ((Function.update s.hits.thread thread phase) other).batch.count code = (s.hits.thread other).batch.count code
    by_cases own : other = thread
    · rw [own, Function.update_self, same]
    · rw [Function.update_of_ne own]
  | _ => rfl

theorem Located.record {inst : Nat} (located : Located place s) (free : (s.hits.thread (.inl id)).free = true)
    (fresh : id ∉ s.counted.map Prod.fst) :
    Located (Function.update place id (.pending inst))
      { s with
        hits := s.hits.put inst ((s.hits.counter inst).record code).2 (.inl id)
          (.recorded inst ((s.hits.counter inst).record code).1)
        counted := s.counted ++ [(id, code)] } where
  amounts p other tracked := by
    have changed : Changed s { s with
        hits := s.hits.put inst ((s.hits.counter inst).record code).2 (.inl id)
          (.recorded inst ((s.hits.counter inst).record code).1)
        counted := s.counted ++ [(id, code)] } inst ((s.hits.counter inst).record code).2 (.inl id)
          (.recorded inst ((s.hits.counter inst).record code).1) := ⟨rfl, rfl⟩
    rw [amount_put fresh, located.amounts p other tracked]
    by_cases own : p = .pending inst
    · rw [own, changed.holds_counter, HitCounter.record, Multiset.count_cons, holds]
      simp only [eq_comm, and_true]
    · rw [if_neg fun both => own both.2.symm, Nat.add_zero]
      by_cases mine : p = .taken (.inl id)
      · rw [mine, changed.holds_thread, holds, HitPhase.batch_of_free free]
        rfl
      · by_cases durable : p = .stored
        · rw [durable]
          rfl
        · exact (changed.holds_other own mine durable other).symm
  known entry member := by
    by_cases own : entry.1 = id
    · rw [own, Function.update_self]
      exact Place.noConfusion
    · rw [Function.update_of_ne own]
      rcases List.mem_append.mp member with earlier | new
      · exact located.known entry earlier
      · rw [List.mem_singleton.mp new] at own
        exact absurd rfl own
  once := by
    rw [List.map_append]
    exact List.nodup_append.mpr ⟨located.once, List.pairwise_singleton _ id, fun a member b single => by
      rw [List.mem_singleton.mp single]
      exact ne_of_mem_of_not_mem member fresh⟩

theorem Located.hits (located : Located place s) (allowed : s.allows event = true)
    (taken : HitCounting.Step s.hits event h) :
    Located (moved place s (.hits event)) { s with hits := h, counted := s.counted ++ logged event } := by
  cases taken.move with
  | @recorded thread k code free =>
    cases thread with
    | inl id =>
      have fresh : id ∉ s.counted.map Prod.fst := by
        simp only [allows] at allowed
        split at allowed
        · simp only [Bool.and_eq_true, Bool.not_eq_true', List.contains_eq_mem, decide_eq_false_iff_not] at allowed
          exact allowed.2
        · cases allowed
      exact located.record free fresh
    | inr hook => cases allowed
  | @triggered thread k pending now phase here empty _ =>
    refine located.turn ?_
    rw [here, empty]
    rfl
  | @begun thread k free =>
    refine located.turn ?_
    rw [HitPhase.batch_of_free free]
    rfl
  | @swapped thread k now phase here batch _ =>
    have changed : Changed s
        { s with hits := s.hits.put k ((s.hits.counter k).swap now).2 thread phase, counted := s.counted ++ [] }
        k ((s.hits.counter k).swap now).2 thread phase := ⟨rfl, rfl⟩
    refine located.pour (List.append_nil _) Place.noConfusion ⟨rfl, rfl⟩ (fun code => ?_) (fun code => ?_) ?_
    · exact (changed.holds_counter code).trans (Multiset.count_zero code)
    · refine (changed.holds_thread code).trans ?_
      rw [holds, holds, here, batch]
      exact (Nat.zero_add _).symm
    · intro p atSource atTarget code
      by_cases durable : p = .stored
      · rw [durable]
        rfl
      · exact changed.holds_other atSource atTarget durable code
  | @written thread k batch here =>
    refine located.pour (List.append_nil _) Place.noConfusion ⟨rfl, rfl⟩ (fun code => ?_) (fun code => ?_) ?_
    · show ((Function.update s.hits.thread thread (.flushed batch.toFinset.card)) thread).batch.count code = 0
      rw [Function.update_self]
      rfl
    · show s.hits.hits code + batch.count code = s.hits.hits code + (s.hits.thread thread).batch.count code
      rw [here]
      rfl
    · intro p atSource atTarget code
      cases p with
      | pending j =>
        by_cases own : j = k
        · show ((Function.update s.hits.counter k _) j).counts.count code = (s.hits.counter j).counts.count code
          rw [own, Function.update_self]
        · show ((Function.update s.hits.counter k _) j).counts.count code = (s.hits.counter j).counts.count code
          rw [Function.update_of_ne own]
      | taken other =>
        show ((Function.update s.hits.thread thread _) other).batch.count code = (s.hits.thread other).batch.count code
        rw [Function.update_of_ne fun same => atSource (congrArg _ same)]
      | stored => exact absurd rfl atTarget
      | uncounted => rfl
      | lost => rfl
  | @rejected thread k batch here =>
    refine located.turn ?_
    rw [here]
    rfl
  | @merged thread k batch here =>
    have changed : Changed s
        { s with hits := s.hits.put k ((s.hits.counter k).merge batch) thread (.flushed 0), counted := s.counted ++ [] }
        k ((s.hits.counter k).merge batch) thread (.flushed 0) := ⟨rfl, rfl⟩
    simp only [moved, here]
    refine located.pour (List.append_nil _) Place.noConfusion ⟨rfl, rfl⟩ (fun code => ?_) (fun code => ?_) ?_
    · exact (changed.holds_thread code).trans (Multiset.count_zero code)
    · refine (changed.holds_counter code).trans ?_
      rw [holds, holds, here, HitCounter.merge, Multiset.count_add]
      rfl
    · intro p atSource atTarget code
      by_cases durable : p = .stored
      · rw [durable]
        rfl
      · exact changed.holds_other atTarget atSource durable code

end

theorem Located.restart (located : Located place s) (settings : Settings) (inst : Nat) (now : ℚ) :
    Located (clear place (s.doomed inst) .lost)
      { s with world := s.world.restart settings inst, hits := s.stopped inst now } where
  amounts p code tracked := by
    have apart : p ≠ .lost := by
      rintro rfl
      cases tracked
    cases gone : s.doomed inst p with
    | true =>
      rw [amount_cleared apart gone]
      cases p with
      | pending k =>
        cases of_decide_eq_true gone
        show 0 = ((Function.update s.hits.counter inst _) inst).counts.count code
        rw [Function.update_self]
        rfl
      | taken t =>
        show 0 = (if s.runsOn inst t then HitPhase.idle else s.hits.thread t).batch.count code
        rw [if_pos (show s.runsOn inst t = true from gone)]
        rfl
      | _ => cases gone
    | false =>
      rw [amount_kept apart gone, located.amounts p code tracked]
      cases p with
      | pending k =>
        show _ = ((Function.update s.hits.counter inst _) k).counts.count code
        rw [Function.update_of_ne (of_decide_eq_false gone)]
        rfl
      | taken t =>
        show _ = (if s.runsOn inst t then HitPhase.idle else s.hits.thread t).batch.count code
        rw [if_neg (by rw [show s.runsOn inst t = false from gone]; exact Bool.false_ne_true)]
        rfl
      | _ => rfl
  known entry member := by
    unfold clear
    split
    · exact Place.noConfusion
    · exact located.known entry member
  once := located.once

end CountedWorld

/-- The client is shown the target, or about to be. -/
def ResolvePhase.told : ResolvePhase → Prop
  | .showing _ | .answered (.redirect _) | .answered (.page _ _) => True
  | _ => False

/-- Where a request can be that has counted its hit. -/
def ResolvePhase.served : ResolvePhase → Prop
  | .serving (some _) | .showing _ | .answered (.redirect _) | .answered (.page _ _) | .answered .serverError => True
  | _ => False

namespace Resolve
variable {links : LinkStore} {id : Nat} {i i' : Instance} {r : Resolve} {phase : ResolvePhase}

theorem Move.served (move : r.Move links id i i' phase) (served : r.phase.served) : phase.served := by
  cases move with
  | flagged here _ | redirected here _ | shown here _ | unflagged here _ => trivial
  | raised fault here =>
    obtain here | here | ⟨link, here⟩ := here <;> rw [here] at served <;> exact served.elim
  | listed here _ | unlisted here _ | withdrawn here | hit here _ | missed here _ | leads here _ | follows here _
  | woken here _ | wokenByError here _ | loadHit here _ | loadMissed here _ | fetchedNone here _ | fetched here _ _
  | stored here | deregistered here | released here | releasedError here | releasedAborted here | notFound here =>
    rw [here] at served
    exact served.elim

/-- Nothing is shown before it was to be counted. -/
theorem Move.told (move : r.Move links id i i' phase) (told : phase.told) :
    r.phase.told ∨ r.phase.counting = true := by
  cases move with
  | flagged here _ | redirected here _ => exact Or.inr (by rw [here]; rfl)
  | shown here _ => exact Or.inl (by rw [here]; trivial)
  | raised fault _ => cases fault <;> exact told.elim
  | _ => exact told.elim

theorem served_of_counting (counting : r.phase.counting = true) : r.phase.served := by
  unfold ResolvePhase.counting at counting
  split at counting
  · rename_i here
    rw [here]
    trivial
  · cases counting

end Resolve

namespace CountedWorld
variable {settings : Settings} {place : Nat → Place} {s t : CountedWorld} {event : CountedEvent}

/-- Who has counted a hit was served, and who is shown a target has counted. -/
structure Billed (s : CountedWorld) : Prop where
  counted : ∀ {id code}, (id, code) ∈ s.counted → s.world.task id ≠ .absent ∧
    ∀ r, s.world.task id = .resolve r → r.code = code ∧ r.phase.served
  shown : ∀ {id r}, s.world.task id = .resolve r → r.phase.told → (id, r.code) ∈ s.counted

theorem Billed.quiet {w : World} (billed : s.Billed) (quiet : Quiet s.world w) : ({ s with world := w } : CountedWorld).Billed where
  counted {id code} member := by
    obtain ⟨present, served⟩ := billed.counted member
    refine ⟨quiet.present present, fun r known => ?_⟩
    rcases quiet.begun known with earlier | ⟨absent, _⟩
    · exact served r earlier
    · exact absurd absent present
  shown known told := by
    rcases quiet.begun known with earlier | ⟨_, checking⟩
    · exact billed.shown earlier told
    · rw [checking] at told
      exact told.elim

theorem Billed.resolve {id : Nat} {r : Resolve} {i : Instance} {phase : ResolvePhase} (billed : s.Billed)
    (known : s.world.task id = .resolve r) (move : r.Move s.world.links id (s.world.instances r.inst) i phase)
    (paid : r.phase.counting = true → phase.told → id ∈ s.counted.map Prod.fst) :
    ({ s with world := s.world.put r.inst i id (.resolve { r with phase := phase }) } : CountedWorld).Billed where
  counted {other code} member := by
    obtain ⟨present, served⟩ := billed.counted member
    by_cases own : other = id
    · subst own
      obtain ⟨same, before⟩ := served r known
      refine ⟨by rw [s.world.put_task]; exact Task.noConfusion, fun q held => ?_⟩
      cases s.world.put_task.symm.trans held
      exact ⟨same, move.served before⟩
    · refine ⟨by rwa [s.world.put_task_other own], fun q held => served q ?_⟩
      exact (s.world.put_task_other own).symm.trans held
  shown {other q} held told := by
    by_cases own : other = id
    · subst own
      cases s.world.put_task.symm.trans held
      rcases move.told told with before | counting
      · have earlier := billed.shown known before
        exact earlier
      · obtain ⟨⟨other, code⟩, member, rfl⟩ := List.mem_map.mp (paid counting told)
        obtain ⟨same, _⟩ := (billed.counted member).2 r known
        exact same ▸ member
    · exact billed.shown ((s.world.put_task_other own).symm.trans held) told

theorem Billed.restart (billed : s.Billed) (settings : Settings) (inst : Nat) (now : ℚ) :
    ({ s with world := s.world.restart settings inst, hits := s.stopped inst now } : CountedWorld).Billed where
  counted {id code} member := by
    obtain ⟨present, served⟩ := billed.counted member
    exact ⟨Task.stop_present present, fun r held => served r (Task.stop_resolve held).1⟩
  shown held told := billed.shown (Task.stop_resolve held).1 told

theorem Billed.hits {event : HitCounting.Event Nat (Nat ⊕ Nat)} {h : HitCounting Nat (Nat ⊕ Nat)} (billed : s.Billed)
    (allowed : s.allows event = true) :
    ({ s with hits := h, counted := s.counted ++ logged event } : CountedWorld).Billed where
  counted {id code} member := by
    rcases List.mem_append.mp member with earlier | new
    · exact billed.counted earlier
    · unfold logged at new
      split at new
      · rename_i caller inst asked
        cases List.mem_singleton.mp new
        simp only [allows] at allowed
        split at allowed
        · rename_i r known
          simp only [Bool.and_eq_true, decide_eq_true_eq] at allowed
          obtain ⟨⟨⟨counting, _⟩, same⟩, _⟩ := allowed
          refine ⟨by rw [known]; exact Task.noConfusion, fun q held => ?_⟩
          cases known.symm.trans held
          exact ⟨same, Resolve.served_of_counting counting⟩
        · cases allowed
      · cases new
  shown known told := List.mem_append_left _ (billed.shown known told)

theorem Billed.app {event : Event} {w : World} (billed : s.Billed) (ready : s.ready event = true)
    (taken : s.world.Step settings event w) : ({ s with world := w } : CountedWorld).Billed := by
  cases taken.act with
  | quiet quiet _ => exact billed.quiet quiet
  | @resolved id r i phase known advanced =>
    refine billed.resolve known (.of_advance advanced) fun counting _ => ?_
    simp only [CountedWorld.ready, known, counting, Bool.not_true, Bool.false_or, Bool.and_eq_true] at ready
    exact List.contains_iff_mem.mp ready.1
  | @failed id r fault i phase known failed =>
    refine billed.resolve known (.of_fail failed) fun _ told => ?_
    obtain ⟨_, rfl⟩ := Resolve.fail_cases failed
    exact told.elim
  | restarted inst => cases ready

theorem pour_lost {source target : Place} {id : Nat} (kept : target ≠ .lost) (lost : pour place source target id = .lost) :
    place id = .lost := by
  unfold pour clear at lost
  split at lost
  · exact absurd lost kept
  · exact lost

/-- Only a process that stops loses hits. -/
theorem moved_lost {id : Nat} (lost : moved place s event id = .lost) :
    place id = .lost ∨ ∃ inst now, event = .restart inst now := by
  cases event with
  | app event => exact Or.inl lost
  | restart inst now => exact Or.inr ⟨inst, now, rfl⟩
  | hits event =>
    left
    cases event with
    | record thread inst code =>
      cases thread with
      | inl caller =>
        simp only [moved] at lost
        by_cases own : id = caller
        · rw [own, Function.update_self] at lost
          cases lost
        · rwa [Function.update_of_ne own] at lost
      | inr hook => exact lost
    | swap thread inst now => exact pour_lost Place.noConfusion lost
    | write thread => exact pour_lost Place.noConfusion lost
    | merge thread =>
      cases phase : s.hits.thread thread with
      | merging inst batch =>
        simp only [moved, phase] at lost
        exact pour_lost Place.noConfusion lost
      | _ =>
        simp only [moved, phase] at lost
        exact lost
    | _ => exact lost

theorem Located.step (located : Located place s) (taken : Step settings s event t) : Located (moved place s event) t := by
  cases event with
  | app event =>
    obtain ⟨_, performed⟩ := Option.ite_none_right_eq_some.mp taken
    obtain ⟨w, _, rfl⟩ := Option.map_eq_some_iff.mp performed
    exact located.still rfl fun p code => by cases p <;> rfl
  | hits event =>
    obtain ⟨allowed, performed⟩ := Option.ite_none_right_eq_some.mp taken
    obtain ⟨h, stepped, rfl⟩ := Option.map_eq_some_iff.mp performed
    exact located.hits allowed stepped
  | restart inst now =>
    cases Option.some.inj taken
    exact located.restart settings inst now

theorem Billed.step (billed : s.Billed) (taken : Step settings s event t) : t.Billed := by
  cases event with
  | app event =>
    obtain ⟨ready, performed⟩ := Option.ite_none_right_eq_some.mp taken
    obtain ⟨w, stepped, rfl⟩ := Option.map_eq_some_iff.mp performed
    exact billed.app ready stepped
  | hits event =>
    obtain ⟨allowed, performed⟩ := Option.ite_none_right_eq_some.mp taken
    obtain ⟨h, _, rfl⟩ := Option.map_eq_some_iff.mp performed
    exact billed.hits allowed
  | restart inst now =>
    cases Option.some.inj taken
    exact billed.restart settings inst now

variable {created : Nat → ℚ} {trace : List CountedEvent}

theorem billed_of_run (run : Run (Step settings) (start settings created) trace s) : s.Billed := by
  induction run with
  | start => exact ⟨fun member => (List.not_mem_nil member).elim, fun known => Task.noConfusion known⟩
  | next _ taken ih => exact ih.step taken

theorem located_of_run (run : Run (Step settings) (start settings created) trace s) :
    ∃ place, Located place s ∧ ∀ id, place id = .lost → ∃ inst now, .restart inst now ∈ trace := by
  induction run with
  | start =>
    refine ⟨fun _ => .uncounted, ⟨fun p code _ => ?_, fun entry member => ?_, .nil⟩, fun _ => Place.noConfusion⟩
    · cases p <;> rfl
    · cases member
  | @next trace s event t _ taken ih =>
    obtain ⟨place, located, stopped⟩ := ih
    refine ⟨moved place s event, located.step taken, fun id lost => ?_⟩
    rcases moved_lost lost with earlier | ⟨inst, now, rfl⟩
    · obtain ⟨inst, now, member⟩ := stopped id earlier
      exact ⟨inst, now, List.mem_append_left _ member⟩
    · exact ⟨inst, now, List.mem_append_right _ (List.mem_singleton_self _)⟩

/-- Exactly the requests that were served have counted a hit, each of them one;
and every hit is in one place: in the table, in the counter of an instance, in a
batch on its way, or lost with a process that stopped. Without such a stop, the
table has all of them when nothing is pending. -/
theorem hits_accounted (run : Run (Step settings) (start settings created) trace s) :
    (s.counted.map Prod.fst).Nodup ∧
    (∀ id r target, s.world.task id = .resolve r → r.Shows target → (id, r.code) ∈ s.counted) ∧
    (∀ id r code, s.world.task id = .resolve r → (id, code) ∈ s.counted → r.code = code ∧ r.phase.served) ∧
    (∃ place : Nat → Place, (∀ id, place id = .lost → ∃ inst now, .restart inst now ∈ trace) ∧
      (∀ entry ∈ s.counted, place entry.1 ≠ .uncounted) ∧
      (∀ code, s.hits.hits code = amount s.counted place .stored code) ∧
      (∀ inst code, (s.hits.counter inst).counts.count code = amount s.counted place (.pending inst) code) ∧
      ∀ thread code, (s.hits.thread thread).batch.count code = amount s.counted place (.taken thread) code) ∧
    ∀ code, s.hits.hits code ≤ s.counted.countP (·.2 = code) ∧
      ((∀ inst now, .restart inst now ∉ trace) → (∀ inst, (s.hits.counter inst).counts = 0) →
        (∀ thread, (s.hits.thread thread).batch = 0) → s.hits.hits code = s.counted.countP (·.2 = code)) := by
  have billed := billed_of_run run
  obtain ⟨place, located, stopped⟩ := located_of_run run
  have stored (code : String) : s.hits.hits code = amount s.counted place .stored code :=
    (located.amounts .stored code rfl).symm
  have pending (inst : Nat) (code : String) : (s.hits.counter inst).counts.count code =
      amount s.counted place (.pending inst) code :=
    (located.amounts (.pending inst) code rfl).symm
  have taken (thread : Nat ⊕ Nat) (code : String) : (s.hits.thread thread).batch.count code =
      amount s.counted place (.taken thread) code :=
    (located.amounts (.taken thread) code rfl).symm
  refine ⟨located.once, fun id r target known shows => ?_, fun id r code known member => (billed.counted member).2 r known,
    ⟨place, stopped, located.known, stored, pending, taken⟩, fun code => ⟨(stored code).le.trans amount_le, ?_⟩⟩
  · refine billed.shown known ?_
    rcases shows with redirect | ⟨reason, page⟩
    · rw [redirect]
      trivial
    · rw [page]
      trivial
  · intro steady drained idle
    rw [stored]
    refine amount_all fun entry member own => ?_
    have here : (entry.1, code) ∈ s.counted := own ▸ member
    cases at' : place entry.1 with
    | stored => rfl
    | uncounted => exact absurd at' (located.known entry member)
    | lost =>
      obtain ⟨inst, now, restarted⟩ := stopped entry.1 at'
      exact absurd restarted (steady inst now)
    | pending inst =>
      have some := amount_pos here at'
      rw [← pending, drained inst] at some
      exact absurd some (by simp)
    | taken thread =>
      have some := amount_pos here at'
      rw [← taken, idle thread] at some
      exact absurd some (by simp)

/-- A first hit waits, a second one is written with it, and a third one is lost
when the process stops. -/
def threeHits : List CountedEvent :=
  [.app (.create 0 0 "https://example.com" none), .app (.attempt 0 "c" 0), .app (.step 0)] ++
    .app (.resolve 1 0 "c" 10) :: List.replicate 8 (.app (.step 1)) ++
    [.hits (.record (.inl 1) 0 "c"), .hits (.trigger (.inl 1) 1), .app (.step 1),
      .app (.resolve 2 0 "c" 20), .app (.step 2), .app (.step 2), .hits (.record (.inl 2) 0 "c"),
      .hits (.trigger (.inl 2) 3), .hits (.swap (.inl 2) 0 3), .hits (.write (.inl 2)), .app (.step 2),
      .app (.resolve 3 0 "c" 30), .app (.step 3), .app (.step 3), .hits (.record (.inl 3) 0 "c"),
      .hits (.trigger (.inl 3) 4), .app (.step 3), .restart 0 5]

theorem hits_accounted_stopped :
    ∃ s, Run (Step .lenient) (start .lenient fun _ => 0) threeHits s ∧
      (s.world.task 3 = .resolve ⟨0, "c", 30, .answered (.redirect "https://example.com")⟩ ∧ s.hits.hits "c" = 2 ∧
        s.counted = [(1, "c"), (2, "c"), (3, "c")]) ∧
      s.hits.hits "c" ≤ s.counted.countP (·.2 = "c") := by
  have executed : ∃ s, Run (Step .lenient) (start .lenient fun _ => 0) threeHits s ∧
      (s.world.task 3 = .resolve ⟨0, "c", 30, .answered (.redirect "https://example.com")⟩ ∧ s.hits.hits "c" = 2 ∧
        s.counted = [(1, "c"), (2, "c"), (3, "c")]) :=
    Run.exists_of_execute (fun _ _ _ done => done) (by decide +kernel)
  obtain ⟨s, run, outcome⟩ := executed
  have accounted := hits_accounted run
  exact ⟨s, run, outcome, (accounted.2.2.2.2 "c").1⟩

end CountedWorld
end UrlShortener
