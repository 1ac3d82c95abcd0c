import UrlShortener.DeploymentSound

namespace UrlShortener
open Transition

namespace LinkStore

/-- DELETE of the row of a code. -/
def delete (s : LinkStore) (code : String) : LinkStore :=
  ⟨s.rows.erase code, fun known link found => by
    by_cases same : known = code
    · rw [same, AList.lookup_erase] at found
      cases found
    · rw [AList.lookup_erase_ne same] at found
      exact s.keyed known link found⟩

theorem get_delete_other (s : LinkStore) {code other : String} (different : other ≠ code) :
    (s.delete code).get other = s.get other :=
  AList.lookup_erase_ne (s := s.rows) different

end LinkStore

/-- What happens in a deployment whose links are purged as they expire. A purge
takes the rows one by one, perhaps not all of them. -/
inductive SweptEvent
  | app (event : Event)
  | sweep (code : String) (nowMs : Int)
  deriving DecidableEq

namespace World

/-- `purge_expired(nowMs)` deletes the row of `code`. -/
def sweep (w : World) (code : String) (nowMs : Int) : Option World :=
  if (w.links.get code).any (·.isExpired nowMs) then some { w with links := w.links.delete code } else none

def performSwept (settings : Settings) (w : World) : SweptEvent → Option World
  | .app event => w.perform settings event
  | .sweep code nowMs => w.sweep code nowMs

def SweptStep (settings : Settings) (w : World) (event : SweptEvent) (w' : World) : Prop :=
  w.performSwept settings event = some w'

variable {settings : Settings} {u v w w' : World} {event : SweptEvent} {trace before later : List SweptEvent}
  {id inst : Nat} {r : Resolve} {code : String} {link : Link} {nowMs : Int}

theorem sweep_cases (swept : w.sweep code nowMs = some w') :
    (∃ link, w.links.get code = some link ∧ link.isExpired nowMs = true) ∧
      w' = { w with links := w.links.delete code } := by
  obtain ⟨late, same⟩ := Option.ite_none_right_eq_some.mp swept
  cases same
  exact ⟨(Option.any_eq_true _ _).mp late, rfl⟩

/-- The link is stored, or it was deleted after it had expired. -/
def Kept (trace : List SweptEvent) (w : World) (code : String) (link : Link) : Prop :=
  w.links.get code = some link ∨ ∃ nowMs, .sweep code nowMs ∈ trace ∧ link.isExpired nowMs = true

theorem Kept.step (kept : Kept trace w code link) (taken : w.SweptStep settings event w') :
    Kept (trace ++ [event]) w' code link := by
  rcases kept with stored | ⟨nowMs, swept, late⟩
  · cases event with
    | app event =>
      left
      have taken : w.Step settings event w' := taken
      cases taken.effect with
      | quiet quiet => exact quiet.links stored
      | resolve _ _ _ => exact stored
      | restart inst => exact stored
    | sweep other nowMs =>
      obtain ⟨⟨row, here, late⟩, rfl⟩ := sweep_cases taken
      by_cases own : code = other
      · subst own
        cases here.symm.trans stored
        exact Or.inr ⟨nowMs, List.mem_append_right _ (List.mem_singleton_self _), late⟩
      · exact Or.inl ((w.links.get_delete_other own).trans stored)
  · exact Or.inr ⟨nowMs, List.mem_append_left _ swept, late⟩

/-- A deployment whose links are purged. A cached target may outlive its row,
but only past its expiry. -/
structure SweptSound (trace : List SweptEvent) (w : World) : Prop where
  backed : ∀ {inst code entry}, (w.instances inst).cache.data.lookup code = some entry →
    ∃ link, Kept trace w code link ∧ entry = (link.target, link.expiresMs)
  led : ∀ {inst code leader}, (w.instances inst).flight.calls code = some leader →
    ∃ r, w.task leader = .resolve r ∧ r.inst = inst ∧ r.code = code ∧ r.phase.leads
  storing : ∀ {id r link}, w.task id = .resolve r → r.phase = .storing link → Kept trace w r.code link
  shared : ∀ {inst leader target}, ((w.instances inst).flight.object leader).value = some target →
    ∃ r, w.task leader = .resolve r ∧ r.inst = inst

theorem SweptSound.start (settings : Settings) : SweptSound [] (World.start settings) where
  backed held := by cases (AList.lookup_empty _).symm.trans held
  led entered := by cases entered
  storing known := by cases known
  shared known := by cases known

theorem SweptSound.quiet (sound : SweptSound trace w) (quiet : Quiet w w')
    (kept : ∀ {code link}, Kept trace w code link → Kept (trace ++ [event]) w' code link) :
    SweptSound (trace ++ [event]) w' where
  backed held := by
    obtain ⟨link, known, same⟩ := sound.backed (quiet.cache held)
    exact ⟨link, kept known, same⟩
  led entered := by
    rw [quiet.flight] at entered
    obtain ⟨r, known, own⟩ := sound.led entered
    exact ⟨r, quiet.kept known, own⟩
  storing {id r link} known phase := by
    rcases quiet.begun known with earlier | ⟨_, checking⟩
    · exact kept (sound.storing earlier phase)
    · rw [checking] at phase
      cases phase
  shared {inst leader target} known := by
    rw [quiet.flight] at known
    obtain ⟨r, led, same⟩ := sound.shared known
    exact ⟨r, quiet.kept led, same⟩

theorem SweptSound.resolve {i : Instance} {phase : ResolvePhase} (sound : SweptSound trace w)
    (known : w.task id = .resolve r) (move : r.Move w.links id (w.instances r.inst) i phase)
    (kept : ∀ {code link}, Kept trace w code link →
      Kept (trace ++ [event]) (w.put r.inst i id (.resolve { r with phase := phase })) code link) :
    SweptSound (trace ++ [event]) (w.put r.inst i id (.resolve { r with phase := phase })) where
  backed {inst code entry} held := by
    have earlier : (w.instances inst).cache.data.lookup code = some entry ∨
        ∃ link, r.phase = .storing link ∧ code = r.code ∧ entry = (link.target, link.expiresMs) := by
      by_cases here : inst = r.inst
      · subst here
        rw [w.put_instance] at held
        exact move.cache held
      · rw [w.put_instance_other here] at held
        exact Or.inl held
    rcases earlier with before | ⟨link, storing, rfl, same⟩
    · obtain ⟨link, stored, same⟩ := sound.backed before
      exact ⟨link, kept stored, same⟩
    · exact ⟨link, kept (sound.storing known storing), same⟩
  led {inst code leader} entered := by
    have moved : ((w.instances inst).flight.calls code = some leader ∧
        (inst = r.inst → code = r.code → r.phase.leads → phase.leads)) ∨
        (inst = r.inst ∧ code = r.code ∧ leader = id ∧ phase.leads) := by
      by_cases here : inst = r.inst
      · subst here
        rw [w.put_instance] at entered
        exact (move.calls entered).imp (fun earlier => ⟨earlier.1, fun _ => earlier.2⟩) fun new => ⟨rfl, new⟩
      · rw [w.put_instance_other here] at entered
        exact Or.inl ⟨entered, fun same => absurd same here⟩
    rcases moved with ⟨before, leads⟩ | ⟨rfl, rfl, rfl, leads⟩
    · obtain ⟨q, led, sameInst, sameCode, leading⟩ := sound.led before
      by_cases own : leader = id
      · subst own
        cases known.symm.trans led
        exact ⟨_, w.put_task, sameInst, sameCode, leads sameInst.symm sameCode.symm leading⟩
      · exact ⟨q, (w.put_task_other own).trans led, sameInst, sameCode, leading⟩
    · exact ⟨_, w.put_task, rfl, rfl, leads⟩
  storing {other q link} held storing := by
    by_cases own : other = id
    · subst own
      cases w.put_task.symm.trans held
      cases storing
      exact kept (Or.inl move.storing.1)
    · exact kept (sound.storing ((w.put_task_other own).symm.trans held) storing)
  shared {inst leader target} value := by
    have moved : ((w.instances inst).flight.object leader).value = some target ∨ inst = r.inst ∧ leader = id := by
      by_cases here : inst = r.inst
      · subst here
        rw [w.put_instance] at value
        exact (move.value value).imp_right fun set => ⟨rfl, set.1⟩
      · rw [w.put_instance_other here] at value
        exact Or.inl value
    rcases moved with before | ⟨rfl, rfl⟩
    · obtain ⟨q, led, sameInst⟩ := sound.shared before
      obtain ⟨q', led', inst', _⟩ := World.put_keeps known led
      exact ⟨q', led', inst'.trans sameInst⟩
    · exact ⟨_, w.put_task, rfl⟩

theorem SweptSound.restart (sound : SweptSound trace w) (settings : Settings) (inst : Nat)
    (kept : ∀ {code link}, Kept trace w code link → Kept (trace ++ [event]) (w.restart settings inst) code link) :
    SweptSound (trace ++ [event]) (w.restart settings inst) where
  backed {other code entry} held := by
    by_cases here : other = inst
    · rw [here, w.restart_instance] at held
      cases (AList.lookup_empty _).symm.trans held
    · rw [w.restart_instance_other here] at held
      obtain ⟨link, stored, same⟩ := sound.backed held
      exact ⟨link, kept stored, same⟩
  led {other code leader} entered := by
    by_cases here : other = inst
    · rw [here, w.restart_instance] at entered
      cases entered
    · rw [w.restart_instance_other here] at entered
      obtain ⟨r, known, sameInst, own⟩ := sound.led entered
      exact ⟨r, World.restart_keeps known (sameInst ▸ here), sameInst, own⟩
  storing held storing := kept (sound.storing (Task.stop_resolve held).1 storing)
  shared {other leader target} value := by
    by_cases here : other = inst
    · rw [here, w.restart_instance] at value
      cases value
    · rw [w.restart_instance_other here] at value
      obtain ⟨r, known, sameInst⟩ := sound.shared value
      exact ⟨r, World.restart_keeps known (sameInst ▸ here), sameInst⟩

theorem SweptSound.step (sound : SweptSound trace w) (taken : w.SweptStep settings event w') :
    SweptSound (trace ++ [event]) w' := by
  have kept {code : String} {link : Link} (known : Kept trace w code link) : Kept (trace ++ [event]) w' code link :=
    known.step taken
  cases event with
  | app event =>
    have app : w.Step settings event w' := taken
    cases app.effect with
    | quiet quiet => exact sound.quiet quiet kept
    | resolve known move _ => exact sound.resolve known move kept
    | restart inst => exact sound.restart settings inst kept
  | sweep code nowMs =>
    obtain ⟨_, rfl⟩ := sweep_cases taken
    constructor
    · intro inst code entry held
      obtain ⟨link, known, same⟩ := sound.backed held
      exact ⟨link, kept known, same⟩
    · exact sound.led
    · exact fun known phase => kept (sound.storing known phase)
    · exact sound.shared

theorem sweptSound_of_run (run : Run (SweptStep settings) (World.start settings) trace w) : SweptSound trace w := by
  induction run with
  | start => exact .start settings
  | next _ taken ih => exact ih.step taken

end World
end UrlShortener
