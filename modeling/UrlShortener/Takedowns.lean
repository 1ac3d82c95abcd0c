import UrlShortener.ResolveProgress

namespace UrlShortener
open Transition

/-- Some takedown of `code` has returned with the log sequence `seq`. -/
def World.Withdrawn (w : World) (code : String) (seq : Nat) : Prop :=
  ∃ id t, w.task id = .takedown t ∧ t.code = code ∧ t.phase = .returned seq

/-- Once such a sequence is covered by the cursor of `inst`, no resolve of
`code` that begins there is ever answered with the target of `code`. -/
def World.TakedownSticks (settings : Settings) (w : World) (inst : Nat) (code : String) : Prop :=
  ∀ seq, w.Withdrawn code seq → seq ≤ (w.instances inst).cursor →
    ∀ id nowMs w', w.Step settings (.resolve id inst code nowMs) w' →
      ∀ later u, Run (World.Step settings) w' later u →
        ∀ r link, u.task id = .resolve r → u.links.get code = some link → ¬ r.Shows link.target

/-- A resolve of `code` that the list of its instance keeps from any target. -/
def World.Barred (w : World) (id inst : Nat) (code : String) : Prop :=
  w.task id ≠ .absent ∧ ∀ r, w.task id = .resolve r → r.inst = inst ∧ r.code = code ∧
    ((r.phase = .checking ∧ (w.instances inst).takedowns.contains code = true) ∨
      r.phase = .withdrawn ∨ ∃ reason, r.phase = .answered (.withdrawn reason))

section
variable {settings : Settings} {w w' : World} {event : Event} {trace : List Event} {id inst : Nat}
  {code : String} {i j : Instance} {r : Resolve} {phase : ResolvePhase} {links : LinkStore} {link : Link}

/-- A resolve of a listed code can only end in its withdrawal. -/
theorem Resolve.Move.barred (move : r.Move links id i j phase) :
    (r.phase = .checking → i.takedowns.contains r.code = true → phase = .withdrawn) ∧
    (r.phase = .withdrawn → ∃ reason, phase = .answered (.withdrawn reason)) ∧
    ∀ answer, r.phase ≠ .answered answer := by
  cases move with
  | listed here _ => exact ⟨fun _ _ => rfl, by simp [here], by simp [here]⟩
  | unlisted here clear =>
    refine ⟨fun _ marked => ?_, by simp [here], by simp [here]⟩
    rw [clear] at marked
    cases marked
  | withdrawn here => exact ⟨by simp [here], fun _ => ⟨_, rfl⟩, by simp [here]⟩
  | raised fault loading => rcases loading with here | here | ⟨link, here⟩ <;> simp [here]
  | _ => simp_all

theorem Task.stop_present {t : Task} (present : t ≠ .absent) : t.stop inst ≠ .absent := by
  unfold stop
  split
  · exact Task.noConfusion
  · exact present

theorem World.Barred.quiet (barred : w.Barred id inst code) (quiet : Quiet w w') :
    w'.Barred id inst code := by
  refine ⟨quiet.present barred.1, fun r known => ?_⟩
  rcases quiet.begun known with before | ⟨absent, _⟩
  · obtain ⟨sameInst, sameCode, phase⟩ := barred.2 r before
    exact ⟨sameInst, sameCode, phase.imp_left fun checking => ⟨checking.1, quiet.takedowns checking.2⟩⟩
  · exact absurd absent barred.1

theorem World.Barred.resolve {acting : Nat} {q : Resolve} (barred : w.Barred id inst code)
    (known : w.task acting = .resolve q) (move : q.Move w.links acting (w.instances q.inst) i phase) :
    (w.put q.inst i acting (.resolve { q with phase := phase })).Barred id inst code := by
  by_cases own : id = acting
  · subst own
    refine ⟨by rw [w.put_task]; exact Task.noConfusion, fun r held => ?_⟩
    cases w.put_task.symm.trans held
    obtain ⟨rfl, rfl, stands⟩ := barred.2 q known
    refine ⟨rfl, rfl, Or.inr ?_⟩
    rcases stands with ⟨checking, marked⟩ | withdrawn | ⟨reason, answered⟩
    · exact Or.inl (move.barred.1 checking marked)
    · exact Or.inr (move.barred.2.1 withdrawn)
    · exact absurd answered (move.barred.2.2 _)
  · have listed : ((w.put q.inst i acting (.resolve { q with phase := phase })).instances inst).takedowns =
        (w.instances inst).takedowns := by
      by_cases here : inst = q.inst
      · rw [here, w.put_instance, move.takedowns]
      · rw [w.put_instance_other here]
    refine ⟨by rw [w.put_task_other own]; exact barred.1, fun r held => ?_⟩
    obtain ⟨sameInst, sameCode, stands⟩ := barred.2 r ((w.put_task_other own).symm.trans held)
    exact ⟨sameInst, sameCode, stands.imp_left fun checking => ⟨checking.1, listed ▸ checking.2⟩⟩

theorem World.Barred.restart (barred : w.Barred id inst code) (settings : Settings) (stopped : Nat) :
    (w.restart settings stopped).Barred id inst code := by
  refine ⟨Task.stop_present barred.1, fun r held => ?_⟩
  obtain ⟨before, survived⟩ := Task.stop_resolve held
  obtain ⟨sameInst, sameCode, stands⟩ := barred.2 r before
  refine ⟨sameInst, sameCode, stands.imp_left fun checking => ⟨checking.1, ?_⟩⟩
  have elsewhere : r.inst ≠ stopped := Task.elsewhere_of_running (by rw [checking.1]; rfl) survived
  rw [w.restart_instance_other (sameInst ▸ elsewhere)]
  exact checking.2

theorem World.Barred.run (barred : w.Barred id inst code) (run : Run (World.Step settings) w trace w') :
    w'.Barred id inst code := by
  induction run with
  | start => exact barred
  | next _ taken ih =>
    cases taken.effect with
    | quiet quiet => exact ih.quiet quiet
    | resolve known move _ => exact ih.resolve known move
    | restart stopped => exact ih.restart settings stopped

theorem World.Barred.shows {target : String} (barred : w.Barred id inst code)
    (known : w.task id = .resolve r) : ¬ r.Shows target := by
  obtain ⟨_, _, ⟨checking, _⟩ | withdrawn | ⟨reason, answered⟩⟩ := barred.2 r known
  · rintro (redirect | ⟨_, page⟩) <;> simp_all
  · rintro (redirect | ⟨_, page⟩) <;> simp_all
  · rintro (redirect | ⟨_, page⟩) <;> simp_all

theorem World.Barred.of_begin {nowMs : Int} (marked : (w.instances inst).takedowns.contains code = true)
    (begun : w.Step settings (.resolve id inst code nowMs) w') : w'.Barred id inst code := by
  obtain ⟨_, same⟩ := Option.ite_none_right_eq_some.mp begun
  have known : w'.task id = .resolve ⟨inst, code, nowMs, .checking⟩ := by
    cases same
    exact Function.update_self ..
  refine ⟨by rw [known]; exact Task.noConfusion, fun r held => ?_⟩
  cases known.symm.trans held
  cases same
  exact ⟨rfl, rfl, Or.inl ⟨rfl, marked⟩⟩

/-- A takedown sticks on an instance, for the resolves that begin there from
now on, if that instance has handled it itself; and for a stored link only then. -/
theorem takedown_sticks_iff (run : Run (World.Step settings) (World.start settings) trace w)
    (inst : Nat) (code : String) :
    (((∃ seq, w.Withdrawn code seq ∧ seq ≤ (w.instances inst).cursor) →
        (w.instances inst).takedowns.contains code = true) → w.TakedownSticks settings inst code) ∧
    ((w.links.get code).isSome → w.TakedownSticks settings inst code →
      (∃ seq, w.Withdrawn code seq ∧ seq ≤ (w.instances inst).cursor) →
        (w.instances inst).takedowns.contains code = true) := by
  constructor
  · intro listed seq withdrawn covered id nowMs w' begun later u rest r link known _
    have barred := World.Barred.of_begin (listed ⟨seq, withdrawn, covered⟩) begun
    exact (barred.run rest).shows known
  -- The log has evicted the cache entry at most; the next miss loads the row again.
  · rintro isStored sticks ⟨seq, withdrawn, covered⟩
    obtain ⟨link, stored⟩ := Option.isSome_iff_exists.mp isStored
    by_contra unlisted
    obtain ⟨id, nowMs, w', begun, later, u, rest, r, known, kept, shows⟩ :=
      World.target_reachable run stored (eq_false_of_ne_true unlisted)
    exact sticks seq withdrawn covered id nowMs w' begun later u rest r link known kept shows

end

/-- On the instance that handled the takedown it sticks. -/
theorem takedown_sticks_where_handled :
    ∃ w : World, w.Withdrawn "c" 1 ∧ 1 ≤ (w.instances 0).cursor ∧
      w.TakedownSticks .lenient 0 "c" := by
  have executed : ∃ w, Run (World.Step .lenient) (World.start .lenient)
      [.create 0 0 "https://example.com" none, .attempt 0 "c" 0, .step 0,
        .takedown 1 0 "c" "policy violation", .step 1, .step 1, .step 1, .step 1,
        .step 1, .step 1, .step 1, .step 1, .step 1] w ∧
      w.task 1 = .takedown ⟨0, "c", "policy violation", .returned 1⟩ ∧
      1 ≤ (w.instances 0).cursor ∧ (w.instances 0).takedowns.contains "c" = true :=
    Run.exists_of_execute (fun _ _ _ done => done) (by decide +kernel)
  obtain ⟨w, run, returned, covered, listed⟩ := executed
  exact ⟨w, ⟨1, _, returned, rfl, rfl⟩, covered, (takedown_sticks_iff run 0 "c").1 fun _ => listed⟩

/-- A takedown at instance 0 returns with sequence 1 and instance 1 polls up to
it. A resolve at instance 1 then loads the link again and is redirected. -/
theorem taken_down_link_redirects :
    ∃ w u, Run (World.Step .lenient) (World.start .lenient)
        [.create 0 0 "https://example.com" none, .attempt 0 "c" 0, .step 0,
          .takedown 1 0 "c" "policy violation", .step 1, .step 1, .step 1, .step 1,
          .step 1, .step 1, .step 1, .step 1, .step 1,
          .poll 2 1, .step 2, .step 2, .step 2, .step 2] w ∧
      w.task 1 = .takedown ⟨0, "c", "policy violation", .returned 1⟩ ∧ (w.instances 1).cursor = 1 ∧
      Run (World.Step .lenient) w
        [.resolve 3 1 "c" 0, .step 3, .step 3, .step 3, .step 3, .step 3, .step 3, .step 3, .step 3,
          .step 3] u ∧
      u.task 3 = .resolve ⟨1, "c", 0, .answered (.redirect "https://example.com")⟩ ∧
      (u.links.get "c").map Link.target = some "https://example.com" := by
  have executed : ∃ w : World, Run (World.Step .lenient) (World.start .lenient)
      [.create 0 0 "https://example.com" none, .attempt 0 "c" 0, .step 0,
        .takedown 1 0 "c" "policy violation", .step 1, .step 1, .step 1, .step 1,
        .step 1, .step 1, .step 1, .step 1, .step 1,
        .poll 2 1, .step 2, .step 2, .step 2, .step 2] w ∧
      w.task 1 = .takedown ⟨0, "c", "policy violation", .returned 1⟩ ∧ (w.instances 1).cursor = 1 ∧
      (execute (World.perform .lenient) w
        [.resolve 3 1 "c" 0, .step 3, .step 3, .step 3, .step 3, .step 3, .step 3, .step 3, .step 3,
          .step 3]).any (fun u =>
        u.task 3 = .resolve ⟨1, "c", 0, .answered (.redirect "https://example.com")⟩ ∧
          (u.links.get "c").map Link.target = some "https://example.com") = true :=
    Run.exists_of_execute (fun _ _ _ done => done) (by decide +kernel)
  obtain ⟨w, run, returned, covered, more⟩ := executed
  obtain ⟨u, continued, holds⟩ := (Option.any_eq_true _ _).mp more
  obtain ⟨redirected, stored⟩ := of_decide_eq_true holds
  exact ⟨w, u, run, returned, covered, .of_execute (fun _ _ _ done => done) continued, redirected, stored⟩

end UrlShortener
