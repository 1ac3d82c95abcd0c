import UrlShortener.CreateRecords
import UrlShortener.Provenance

namespace UrlShortener
open Transition

/-- Past the check of the takedowns, and perhaps with a target in view. -/
def ResolvePhase.pending : ResolvePhase → Prop
  | .reading | .joining | .waiting _ | .loading | .fetching | .storing _ | .showing _ => True
  | .deregistering outcome | .releasing outcome => ∃ target, outcome = .returned (some target)
  | .serving found => found ≠ none
  | _ => False

/-- The defaults of `app`, with a policy that warns of every destination. -/
def Settings.wary : Settings :=
  ⟨fun _ => ⟨.interstitial, "low-trust domain: destination shown before redirect", ""⟩, 5, 50000⟩

/-- The code under which a create has its row. -/
def Create.stored (c : Create) : Option String :=
  match c.phase with
  | .flagging link => some link.code
  | .answered (.created code ..) => some code
  | _ => none

namespace World

/-- A create on `inst` whose visitors are to be warned has its row under `code`. -/
def Warned (w : World) (inst : Nat) (code : String) : Prop :=
  ∃ id c, w.task id = .create c ∧ c.inst = inst ∧ c.flagged = true ∧ c.stored = some code

/-- Such a create has not written the flag yet. -/
def Flagging (w : World) (inst : Nat) (code : String) : Prop :=
  ∃ id c link, w.task id = .create c ∧ c.inst = inst ∧ c.flagged = true ∧ c.phase = .flagging link ∧ link.code = code

/-- The next step looks whether `code` is flagged on `inst`, with a target at hand. -/
def consults (w : World) (inst : Nat) (code : String) : Event → Bool
  | .step id => match w.resolving inst code id with
    | some (.serving (some _)) => true
    | _ => false
  | _ => false

/-- The next step takes the flag of `code` on `inst` away. -/
def unflags (w : World) (inst : Nat) (code : String) : Event → Bool
  | .step id => match w.task id with
    | .takedown t => match t.phase with
      | .unflagging _ => t.inst = inst ∧ t.code = code
      | _ => false
    | _ => false
  | _ => false

/-- Nobody looks for the flag of `code` before it is written, and no takedown
takes it away while a resolve is past its check. -/
def Heedful (inst : Nat) (code : String) (w : World) (event : Event) : Prop :=
  (w.consults inst code event = true → ¬ w.Flagging inst code) ∧
  (w.unflags inst code event = true → (w.instances inst).interstitials code ≠ none →
    ∀ id phase, w.resolving inst code id = some phase → ¬ phase.pending)

/-- A step of the deployment that does not restart `inst`. -/
def HeedfulStep (settings : Settings) (inst : Nat) (code : String) (w : World) (event : Event) (w' : World) : Prop :=
  w.Step settings event w' ∧ event ≠ .restart inst ∧ w.Heedful inst code event

end World

theorem TakedownList.contains_mark_self (t : TakedownList) (code reason : String) :
    (t.mark code reason).contains code = true := by
  show (Function.update t.codes code (some reason) code).isSome = true
  rw [Function.update_self]
  rfl

theorem Resolve.Move.pending {links : LinkStore} {id : Nat} {i i' : Instance} {r : Resolve} {phase : ResolvePhase}
    (move : r.Move links id i i' phase) (pending : phase.pending) :
    r.phase.pending ∨ i.takedowns.contains r.code = false := by
  cases move with
  | unlisted _ clear => exact Or.inr clear
  | fetchedNone _ _ =>
    obtain ⟨target, same⟩ := pending
    cases same
  | raised fault _ =>
    obtain ⟨target, same⟩ := pending
    cases fault <;> cases same
  | deregistered here => exact Or.inl (by rw [here]; exact pending)
  | @released target here =>
    obtain ⟨found, same⟩ := Option.ne_none_iff_exists'.mp pending
    exact Or.inl (by rw [here]; exact ⟨found, congrArg Outcome.returned same⟩)
  | hit here _ | missed here _ | leads here _ | follows here _ | woken here _ | loadHit here _ | loadMissed here _
  | fetched here _ _ | stored here => exact Or.inl (by rw [here]; trivial)
  | flagged here _ => exact Or.inl (by rw [here]; exact Option.some_ne_none _)
  | _ => exact pending.elim

theorem Create.stored_iff {c : Create} {code : String} : c.stored = some code ↔
    (∃ link, c.phase = .flagging link ∧ link.code = code) ∨
      ∃ target expiresMs flagged reason, c.phase = .answered (.created code target expiresMs flagged reason) := by
  unfold stored
  constructor
  · intro row
    split at row
    · rename_i link here
      exact Or.inl ⟨link, here, Option.some.inj row⟩
    · rename_i here
      cases row
      exact Or.inr ⟨_, _, _, _, here⟩
    · cases row
  · rintro (⟨link, here, rfl⟩ | ⟨_, _, _, _, here⟩)
    · rw [here]
    · rw [here]

theorem Create.advance_flag {settings : Settings} {c : Create} {i j : Instance} {phase : CreatePhase}
    (h : c.advance settings i = some (j, phase)) (code : String) :
    j.interstitials code = i.interstitials code ∨ j.interstitials code ≠ none := by
  obtain ⟨_, _, rfl⟩ | ⟨link, _, _, rfl⟩ := Create.advance_phase h
  · exact Or.inl rfl
  · dsimp only
    split
    · by_cases own : code = link.code
      · rw [own, Function.update_self]
        exact Or.inr (Option.some_ne_none _)
      · exact Or.inl (Function.update_of_ne own ..)
    · exact Or.inl rfl

/-- A create whose visitors are to be warned leaves the flag behind. -/
theorem Create.advance_flags {settings : Settings} {c : Create} {i j : Instance} {phase : CreatePhase} {link : Link}
    (h : c.advance settings i = some (j, phase)) (here : c.phase = .flagging link) (flagged : c.flagged = true) :
    j.interstitials link.code ≠ none := by
  obtain ⟨known, _, _⟩ | ⟨row, known, _, rfl⟩ := Create.advance_phase h
  · cases known.symm.trans here
  · cases known.symm.trans here
    dsimp only
    rw [if_pos flagged, Function.update_self]
    exact Option.some_ne_none _

section
variable {links : LinkStore} {id : Nat} {i i' : Instance} {r : Resolve} {target : String}

theorem Resolve.Move.showing (move : r.Move links id i i' (.showing target)) : i.interstitials r.code ≠ none := by
  cases move with
  | flagged _ flag => exact Option.ne_none_iff_exists'.mpr ⟨_, flag⟩

theorem Resolve.Move.redirect (move : r.Move links id i i' (.answered (.redirect target))) :
    r.phase = .serving (some target) ∧ i.interstitials r.code = none := by
  cases move with
  | redirected serving unflagged => exact ⟨serving, unflagged⟩

end

/-- A takedown changes the flags in one step. -/
theorem Takedown.advance_interstitials {t : Takedown} {log log' : List Invalidation} {i j : Instance}
    {phase : TakedownPhase} (h : t.advance log i = some (j, log', phase)) :
    j.interstitials = i.interstitials ∨
      ∃ seq, t.phase = .unflagging seq ∧ j.interstitials = Function.update i.interstitials t.code none := by
  obtain ⟨_, rfl⟩ | ⟨_, rfl⟩ | ⟨seq, here, rfl⟩ | ⟨seq, poll, poll', _, polled⟩ | ⟨_, _, _, rfl⟩ := Takedown.advance_state h
  · exact Or.inl rfl
  · exact Or.inl rfl
  · exact Or.inr ⟨seq, here, rfl⟩
  · exact Or.inl (Instance.poll_interstitials polled)
  · exact Or.inl rfl

/-- A takedown that moves has its code listed afterwards. -/
theorem Takedown.advance_lists {t : Takedown} {log log' : List Invalidation} {i j : Instance} {phase : TakedownPhase}
    (h : t.advance log i = some (j, log', phase))
    (listed : t.phase ≠ .marking → t.phase.over = false → i.takedowns.contains t.code = true) :
    j.takedowns.contains t.code = true := by
  have earlier (begun : t.phase ≠ .marking) (running : t.phase.over = false) : j.takedowns.contains t.code = true :=
    (Takedown.advance_cases h).2.2 (listed begun running)
  obtain ⟨_, rfl⟩ | ⟨here, _⟩ | ⟨seq, here, _⟩ | ⟨seq, poll, _, here, _⟩ | ⟨begun, _, running, _⟩ :=
    Takedown.advance_state h
  · exact TakedownList.contains_mark_self ..
  · exact earlier (by rw [here]; exact nofun) (by rw [here]; rfl)
  · exact earlier (by rw [here]; exact nofun) (by rw [here]; rfl)
  · exact earlier (by rw [here]; exact nofun) (by rw [here]; rfl)
  · exact earlier begun running

namespace World
variable {settings : Settings} {w w' : World} {event : Event} {trace : List Event} {id inst : Nat} {code : String}
  {phase : ResolvePhase}

/-- A flag stays while its instance runs, unless a takedown takes it away. -/
theorem Step.flag (taken : w.Step settings event w') (running : event ≠ .restart inst)
    (flag : (w.instances inst).interstitials code ≠ none) :
    (w'.instances inst).interstitials code ≠ none ∨ w.unflags inst code event = true := by
  have kept {acting : Nat} {i : Instance}
      (same : inst = acting → i.interstitials code = (w.instances acting).interstitials code ∨ i.interstitials code ≠ none) :
      (Function.update w.instances acting i inst).interstitials code ≠ none := by
    refine update_keeps (fun j => j.interstitials code ≠ none) (fun here before => ?_) flag
    rcases same here with unchanged | written
    · rwa [unchanged]
    · exact written
  cases taken.turn with
  | resolved _ advanced => exact Or.inl (kept fun _ => Or.inl (congrFun (Resolve.Move.of_advance advanced).interstitials code))
  | resolveFailed _ failed => exact Or.inl (kept fun _ => Or.inl (by rw [(Resolve.fail_cases failed).1]; rfl))
  | created _ advanced => exact Or.inl (kept fun _ => Create.advance_flag advanced code)
  | @tookDown _ t i _ _ known advanced =>
    rcases Takedown.advance_interstitials advanced with same | ⟨seq, here, same⟩
    · exact Or.inl (kept fun _ => Or.inl (congrFun same code))
    · by_cases own : t.inst = inst ∧ t.code = code
      · exact Or.inr (by simp only [unflags, known, here, own, and_self, decide_true])
      · refine Or.inl (kept fun acting => Or.inl ?_)
        have other : code ≠ t.code := fun same => own ⟨acting.symm, same.symm⟩
        rw [same, Function.update_of_ne other]
  | polled _ polled => exact Or.inl (kept fun _ => Or.inl (congrFun (Instance.poll_interstitials polled) code))
  | flushed acting => exact Or.inl (kept fun _ => Or.inl rfl)
  | restarted stopped =>
    refine Or.inl (kept fun here => ?_)
    exact absurd (congrArg Event.restart here.symm) running
  | _ => exact Or.inl flag

/-- Where a takedown stood a step before. -/
theorem Turn.takedown {t : Takedown} (turn : w.Turn settings event w') (known : w'.task id = .takedown t) :
    w.task id = .takedown t ∨ t.phase = .marking ∨
    ∃ before phase, w.task id = .takedown before ∧ t = { before with phase := phase } ∧
      ((∃ log, before.advance w.log (w.instances before.inst) = some (w'.instances before.inst, log, phase)) ∨
        before.fail = some phase) := by
  cases turn with
  | @begun _ acting begun begins _ =>
    rcases updated known with before | ⟨rfl, rfl⟩
    · exact Or.inl before
    · refine Or.inr (Or.inl ?_)
      cases event <;> cases begins
      rfl
  | @tookDown acting before i log phase here advanced =>
    refine (updated known).imp_right fun ⟨own, same⟩ => Or.inr ⟨before, phase, ?_, ?_, Or.inl ⟨log, ?_⟩⟩
    · rw [own, here]
    · exact (Task.takedown.inj same).symm
    · show _ = some (Function.update w.instances before.inst i before.inst, log, phase)
      rw [Function.update_self, advanced]
  | @takedownFailed acting before _ phase here failed =>
    refine (updated known).imp_right fun ⟨own, same⟩ => Or.inr ⟨before, phase, ?_, ?_, Or.inr failed⟩
    · rw [own, here]
    · exact (Task.takedown.inj same).symm
  | restarted inst => exact Or.inl (Task.eq_of_stop known Task.noConfusion)
  | flushed inst => exact Or.inl known
  | _ => exact (updated known).imp_right fun ⟨_, same⟩ => nomatch same

/-- The list of a takedown's instance has its code, from its first step on. -/
def Listed (w : World) : Prop :=
  ∀ id t, w.task id = .takedown t → t.phase ≠ .marking → t.phase.over = false →
    (w.instances t.inst).takedowns.contains t.code = true

theorem Listed.step (listed : w.Listed) (taken : w.Step settings event w') : w'.Listed := by
  intro id t known begun running
  rcases taken.turn.takedown known with before | marking | ⟨before, phase, held, rfl, ⟨log, advanced⟩ | failed⟩
  · refine taken.listed ?_ (listed id t before begun running)
    -- A restart of its instance loses a takedown that is not over.
    rintro rfl
    cases Option.some.inj taken
    have lost : (w.task id).stop t.inst = .takedown t := known
    simp [before, Task.stop, Task.runsOn, running] at lost
  · exact absurd marking begun
  · exact Takedown.advance_lists (t := before) advanced (listed id before held)
  · unfold Takedown.fail at failed
    split at failed <;> cases failed <;> cases running

theorem listed_of_run (run : Run (World.Step settings) (World.start settings) trace w) : w.Listed := by
  induction run with
  | start => exact fun _ _ known => nomatch known
  | next _ taken ih => exact ih.step taken

/-- Where a create stood that has a row in the links, if it did not have it a
step before. -/
theorem Step.warned (taken : w.Step settings event w') (warned : w'.Warned inst code) :
    w.Warned inst code ∨ w.links.get code = none := by
  obtain ⟨id, c, known, sameInst, flagged, stored⟩ := warned
  rcases Create.stored_iff.mp stored with ⟨link, flagging, rfl⟩ | ⟨_, _, _, _, created⟩
  · rcases taken.turn.flagging known flagging with before | ⟨free, _⟩
    · exact Or.inl ⟨id, c, before, sameInst, flagged, stored⟩
    · exact Or.inr free
  · rcases taken.turn.answered known created with before | ⟨before, link, held, flagging, same, sameCode, _⟩
    · exact Or.inl ⟨id, c, before, sameInst, flagged, stored⟩
    · rw [same] at sameInst flagged
      exact Or.inl ⟨id, before, held, sameInst, flagged, Create.stored_iff.mpr (Or.inl ⟨link, flagging, sameCode⟩)⟩

/-- No resolve of `code` on `inst` can come to look for its flag any more. -/
def Shut (inst : Nat) (code : String) (w : World) : Prop :=
  (w.instances inst).takedowns.contains code = true ∧
    ∀ id phase, w.resolving inst code id = some phase → ¬ phase.pending

theorem Shut.step (shut : Shut inst code w) (taken : w.Step settings event w') (running : event ≠ .restart inst) :
    Shut inst code w' := by
  obtain ⟨listed, quiet⟩ := shut
  refine ⟨taken.listed running listed, fun id phase here pending => ?_⟩
  rcases taken.resolving_before here with before | rfl | ⟨r, known, rfl, rfl, move, _⟩
  · exact quiet id phase before pending
  · exact pending.elim
  · rcases move.pending pending with earlier | unlisted
    · exact quiet id r.phase (resolving_iff.mpr ⟨r, known, rfl, rfl, rfl⟩) earlier
    · cases listed.symm.trans unlisted

/-- A create that has been answered has left its flag there, and it is gone only
when no resolve can look for it any more. -/
structure Heeded (inst : Nat) (code : String) (w : World) : Prop where
  showing : ∀ {id target}, w.resolving inst code id = some (.showing target) →
    (w.instances inst).interstitials code ≠ none
  flag : ∀ {id c target expiresMs flagged reason}, w.task id = .create c → c.inst = inst → c.flagged = true →
    c.phase = .answered (.created code target expiresMs flagged reason) →
    (w.instances inst).interstitials code ≠ none ∨ Shut inst code w
  redirect : w.Warned inst code → ∀ id target, w.resolving inst code id ≠ some (.answered (.redirect target))

theorem Heeded.start (settings : Settings) (inst : Nat) (code : String) : Heeded inst code (World.start settings) where
  showing here := by cases here
  flag known := by cases known
  redirect warned := by
    obtain ⟨_, _, known, _⟩ := warned
    cases known

/-- A heedful step takes a flag away only where no resolve can look for it. -/
theorem HeedfulStep.flag (heedful : HeedfulStep settings inst code w event w') (listed : w.Listed)
    (flag : (w.instances inst).interstitials code ≠ none) :
    (w'.instances inst).interstitials code ≠ none ∨ Shut inst code w := by
  obtain ⟨taken, running, _, heeds⟩ := heedful
  refine (taken.flag running flag).imp_right fun unflags => ⟨?_, heeds unflags flag⟩
  unfold World.unflags at unflags
  split at unflags
  · split at unflags
    · rename_i t known
      split at unflags
      · rename_i seq here
        obtain ⟨rfl, rfl⟩ := of_decide_eq_true unflags
        exact listed _ t known (by rw [here]; exact nofun) (by rw [here]; rfl)
      · cases unflags
    · cases unflags
  · cases unflags

theorem Heeded.step (heeded : Heeded inst code w) (run : Run (World.Step settings) (World.start settings) trace w)
    (heedful : HeedfulStep settings inst code w event w') : Heeded inst code w' := by
  have listed := listed_of_run run
  have taken := heedful.1
  have running := heedful.2.1
  constructor
  · intro id target here
    rcases taken.resolving_before here with before | checking | ⟨r, known, rfl, rfl, move, _⟩
    · rcases heedful.flag listed (heeded.showing before) with flag | ⟨_, quiet⟩
      · exact flag
      · exact absurd trivial (quiet id _ before)
    · cases checking
    · rw [move.interstitials]
      exact move.showing
  · intro id c target expiresMs flagged reason known sameInst warns created
    rcases taken.turn.answered known created with before | ⟨before, link, _, flagging, same, sameCode, _, _, advanced⟩
    · rcases heeded.flag before sameInst warns created with flag | shut
      · exact (heedful.flag listed flag).imp_right fun shut => shut.step taken running
      · exact Or.inr (shut.step taken running)
    · rw [same] at sameInst warns
      have written := Create.advance_flags advanced flagging warns
      rw [sameCode, sameInst] at written
      exact Or.inl written
  · intro warned id target here
    -- A target in view is that of a stored link, so the create had its row before.
    have stored {r : Resolve} (known : w.task id = .resolve r) (sameCode : r.code = code)
        (carries : r.phase.carries target) : w.Warned inst code := by
      rcases taken.warned warned with before | free
      · exact before
      · obtain ⟨link, row, _⟩ := leads_of_run run known carries
        cases (sameCode ▸ free).symm.trans row
    rcases taken.resolving_before here with before | checking | ⟨r, known, sameInst, sameCode, move, moved⟩
    · obtain ⟨r, known, _, sameCode, phase⟩ := resolving_iff.mp before
      exact heeded.redirect (stored known sameCode (by rw [phase]; rfl)) id target before
    · cases checking
    · rcases moved with rfl | ⟨_, same⟩
      · obtain ⟨serving, unflagged⟩ := move.redirect
        have consulting : w.resolving inst code id = some (.serving (some target)) :=
          resolving_iff.mpr ⟨r, known, sameInst, sameCode, serving⟩
        obtain ⟨creator, c, created, here, warns, row⟩ := stored known sameCode (by rw [serving]; rfl)
        rcases Create.stored_iff.mp row with ⟨link, flagging, sameRow⟩ | ⟨_, _, _, _, answered⟩
        · refine heedful.2.2.1 ?_ ⟨creator, c, link, created, here, warns, flagging, sameRow⟩
          simp only [consults, consulting]
        · rcases heeded.flag created here warns answered with flag | ⟨_, quiet⟩
          · exact flag (sameCode ▸ unflagged)
          · exact quiet id _ consulting (Option.some_ne_none target)
      · cases same

theorem heeded_of_run (run : Run (HeedfulStep settings inst code) (World.start settings) trace w) :
    Heeded inst code w := by
  induction run with
  | start => exact .start settings inst code
  | next before heedful ih => exact ih.step (before.weaken fun _ _ _ step => step.1) heedful

/-- Where every look for the flag of a code comes after it is written, and every
removal of it before a resolve could miss it, the visitors of a flagged link are
stopped, and a resolve that shows them the page finds the reason. -/
theorem flagged_never_redirects (run : Run (HeedfulStep settings inst code) (World.start settings) trace w) :
    (w.Warned inst code → ∀ id target, w.resolving inst code id ≠ some (.answered (.redirect target))) ∧
      ∀ id target, w.resolving inst code id = some (.showing target) →
        (w.instances inst).interstitials code ≠ none :=
  ⟨(heeded_of_run run).redirect, fun _ _ => (heeded_of_run run).showing⟩

/-- Steps at which no one looks for the flag or takes it away. -/
theorem HeedfulStep.of_perform (w : World) (event : Event) (w' : World)
    (done : (w.perform settings event).filter (fun _ => event ≠ .restart inst ∧ w.consults inst code event = false ∧
      w.unflags inst code event = false) = some w') : HeedfulStep settings inst code w event w' := by
  obtain ⟨performed, tested⟩ := Option.filter_eq_some_iff.mp done
  obtain ⟨running, unlooked, kept⟩ := of_decide_eq_true tested
  refine ⟨performed, running, fun looks => ?_, fun unflags => ?_⟩
  · cases unlooked.symm.trans looks
  · cases kept.symm.trans unflags

/-- The create of the runs below, answered. -/
def flaggedCreate : Create :=
  ⟨0, "https://example.com", none, Settings.wary.evaluate "https://example.com",
    .answered (.created "c" "https://example.com" none true (Settings.wary.evaluate "https://example.com").reason)⟩

/-- A request that comes after the create has been answered is shown the page. -/
theorem flagged_shows_page :
    ∃ w, Run (HeedfulStep .wary 0 "c") (World.start .wary)
        [.create 0 0 "https://example.com" none, .attempt 0 "c" 0, .step 0, .resolve 1 0 "c" 0, .step 1, .step 1,
          .step 1, .step 1, .step 1, .step 1, .step 1, .step 1, .step 1] w ∧
      w.resolving 0 "c" 1 = some (.showing "https://example.com") ∧
      (w.Warned 0 "c" → ∀ id target, w.resolving 0 "c" id ≠ some (.answered (.redirect target))) ∧
      ∀ id target, w.resolving 0 "c" id = some (.showing target) → (w.instances 0).interstitials "c" ≠ none := by
  have executed : ∃ w, Run (HeedfulStep .wary 0 "c") (World.start .wary)
      [.create 0 0 "https://example.com" none, .attempt 0 "c" 0, .step 0, .resolve 1 0 "c" 0, .step 1, .step 1,
        .step 1, .step 1, .step 1, .step 1, .step 1, .step 1] w ∧
      w.task 0 = .create flaggedCreate ∧ w.resolving 0 "c" 1 = some (.serving (some "https://example.com")) ∧
      w.unflags 0 "c" (.step 1) = false ∧
      (w.perform .wary (.step 1)).any (fun u => u.resolving 0 "c" 1 = some (.showing "https://example.com")) = true :=
    Run.exists_of_execute HeedfulStep.of_perform (by decide +kernel)
  obtain ⟨w, run, created, serving, kept, next⟩ := executed
  obtain ⟨u, taken, showing⟩ := (Option.any_eq_true _ _).mp next
  have unflagging : ¬ w.Flagging 0 "c" := by
    rintro ⟨id, c, link, known, _, _, phase, _⟩
    by_cases begun : id ∈ [0, 1]
    · simp only [List.mem_cons, List.not_mem_nil, or_false] at begun
      rcases begun with rfl | rfl
      · cases created.symm.trans known
        cases phase
      · obtain ⟨r, held, _⟩ := resolving_iff.mp serving
        cases held.symm.trans known
    · cases known.symm.trans (absent_of_unbegun (run.weaken fun _ _ _ step => step.1) begun)
  have heedful : HeedfulStep .wary 0 "c" w (.step 1) u :=
    ⟨taken, nofun, fun _ => unflagging, fun unflags => by cases kept.symm.trans unflags⟩
  exact ⟨u, run.next heedful, of_decide_eq_true showing, flagged_never_redirects (run.next heedful)⟩

/-- A visitor is sent straight through by a request that looks for the flag
before the create writes it, and by one that looks after a takedown has taken it
away; and one that the takedown overtakes between its two looks finds no reason. -/
theorem flagged_redirects :
    (∃ w, Run (World.Step .wary) (World.start .wary)
        [.create 0 0 "https://example.com" none, .attempt 0 "c" 0, .resolve 1 0 "c" 0, .step 1, .step 1, .step 1,
          .step 1, .step 1, .step 1, .step 1, .step 1, .step 1, .step 0] w ∧
      w.Warned 0 "c" ∧ w.resolving 0 "c" 1 = some (.answered (.redirect "https://example.com"))) ∧
    (∃ w, Run (World.Step .wary) (World.start .wary)
        [.create 0 0 "https://example.com" none, .attempt 0 "c" 0, .step 0, .resolve 1 0 "c" 0, .step 1, .step 1,
          .step 1, .step 1, .step 1, .step 1, .step 1, .step 1, .takedown 2 0 "c" "policy violation", .step 2, .step 2,
          .step 2, .step 2, .step 1] w ∧
      w.Warned 0 "c" ∧ w.resolving 0 "c" 1 = some (.answered (.redirect "https://example.com"))) ∧
    ∃ w, Run (World.Step .wary) (World.start .wary)
        [.create 0 0 "https://example.com" none, .attempt 0 "c" 0, .step 0, .resolve 1 0 "c" 0, .step 1, .step 1,
          .step 1, .step 1, .step 1, .step 1, .step 1, .step 1, .step 1, .takedown 2 0 "c" "policy violation", .step 2,
          .step 2, .step 2, .step 2] w ∧
      w.resolving 0 "c" 1 = some (.showing "https://example.com") ∧ (w.instances 0).interstitials "c" = none := by
  have warned {events : List Event}
      (executed : (execute (World.perform .wary) (World.start .wary) events).any (fun w =>
        w.task 0 = .create flaggedCreate ∧
          w.resolving 0 "c" 1 = some (.answered (.redirect "https://example.com"))) = true) :
      ∃ w, Run (World.Step .wary) (World.start .wary) events w ∧ w.Warned 0 "c" ∧
        w.resolving 0 "c" 1 = some (.answered (.redirect "https://example.com")) := by
    obtain ⟨w, run, created, redirected⟩ := Run.exists_of_execute (fun _ _ _ done => done) executed
    exact ⟨w, run, ⟨0, flaggedCreate, created, rfl, rfl, rfl⟩, redirected⟩
  refine ⟨warned (by decide +kernel), warned (by decide +kernel), ?_⟩
  · exact Run.exists_of_execute (fun _ _ _ done => done) (by decide +kernel)

end World
end UrlShortener
