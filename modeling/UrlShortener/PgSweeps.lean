import UrlShortener.PgLinearizable

namespace UrlShortener
open RowLocks Tables Transition

section
variable {T : Type} [LinearOrder T] {tz : Timestamps T}

namespace PgSessions
variable {u w w' : PgSessions tz} {id creator : Nat} {call : PgHistory.Call T} {code : String} {row : PgRow tz}
  {label : Event T} {trace later : List (Event T)} {history : List (Nat × PgHistory.Call T × PgOutcome)}
  {outcome : PgOutcome} {nowMs : Option Int} {now : T}

/-- Only its own create brings a row with its number, and only by a commit. -/
theorem Linear.creator_eq (linear : Linear trace history w)
    (pending : w.links.pending.lookup code = some (id, some (creator, row))) : creator = id := by
  cases held : w.calls id with
  | none => cases (linear.unbegun held).1.only pending
  | some session =>
    obtain ⟨call, phase⟩ := session
    have removed {codes : List String} (reflects : w.links.Reflects id (removals codes)) : False := by
      have touched := reflects.only pending
      have left := reflects.pending code touched
      rw [replay_removals, if_pos (mem_removals.mp touched), pending] at left
      cases left
    cases linear.stands held with
    | statement links _ => cases links.only pending
    | writing links _ => cases links.only pending
    | recorded links _ => cases links.only pending
    | sweeping removing _ _ => exact (removed removing.1).elim
    | purged removing _ _ => exact (removed removing.1).elim
    | @won own _ _ _ _ _ _ links _ _ =>
      have same : code = own := List.mem_singleton.mp (links.only pending)
      have left := links.pending code (links.only pending)
      rw [replay, List.foldl_cons, if_pos same.symm, pending] at left
      cases left
      rfl
    | read links _ _ => cases links.only pending
    | returned links _ => cases links.only pending
    | raised links _ => cases links.only pending

/-- A call that has returned stays as it is. -/
theorem returned_of_step (taken : Step w label w') (returned : w.calls id = some ⟨call, .returned outcome⟩) :
    w'.calls id = some ⟨call, .returned outcome⟩ := by
  by_cases acts : label.actor = id
  · subst acts
    cases label with
    | begin id other => cases (perform_begin taken).1.symm.trans returned
    | step id =>
      obtain ⟨session, held, ran⟩ := Option.bind_eq_some_iff.mp taken
      cases held.symm.trans returned
      cases call <;> cases ran
    | commit id =>
      obtain ⟨_, _, held, _⟩ := perform_commit taken
      cases held.symm.trans returned
    | abort id =>
      obtain ⟨_, _, held, unreturned, _⟩ := perform_abort taken
      cases held.symm.trans returned
      exact absurd rfl (unreturned outcome)
  · exact (frame_of_step taken acts).1.trans returned

theorem committed_of_commit (taken : Step w (.commit id) w') (stored : w'.links.committed.lookup code = some (creator, row)) :
    w.links.pending.lookup code = some (id, some (creator, row)) ∨
      w.links.committed.lookup code = some (creator, row) := by
  obtain ⟨_, _, _, rfl⟩ := perform_commit taken
  rw [put, lookup_commit] at stored
  cases own : (w.links.pending.lookup code).filter fun lock => decide (lock.1 = id) with
  | none =>
    rw [own] at stored
    exact Or.inr stored
  | some lock =>
    obtain ⟨pending, holder⟩ := Option.filter_eq_some_iff.mp own
    obtain ⟨other, left⟩ := lock
    rw [own] at stored
    cases of_decide_eq_true holder
    have same : left = some (creator, row) := stored
    rw [pending, same]
    exact Or.inl rfl

/-- The call that inserted a committed row has returned. -/
theorem creator_returned (run : Run Step (start : PgSessions tz) trace w)
    (stored : w.links.committed.lookup code = some (creator, row)) :
    ∃ call outcome, w.calls creator = some ⟨call, .returned outcome⟩ := by
  induction run generalizing code row with
  | start => cases (AList.lookup_empty code).symm.trans stored
  | @next _ before label after run taken ih =>
    have kept (old : before.links.committed.lookup code = some (creator, row)) :
        ∃ call outcome, after.calls creator = some ⟨call, .returned outcome⟩ := by
      obtain ⟨call, outcome, returned⟩ := ih old
      exact ⟨call, outcome, returned_of_step taken returned⟩
    cases label with
    | commit id =>
      rcases committed_of_commit taken stored with pending | old
      · obtain ⟨_, linear⟩ := linear_of_run run
        obtain ⟨call, outcome, _, rfl⟩ := perform_commit taken
        exact ⟨call, outcome, by rw [linear.creator_eq pending]; exact Function.update_self ..⟩
      · exact kept old
    | begin id call => exact kept (by rwa [← (committed_of_step taken (by rintro _ ⟨⟩)).1])
    | step id => exact kept (by rwa [← (committed_of_step taken (by rintro _ ⟨⟩)).1])
    | abort id => exact kept (by rwa [← (committed_of_step taken (by rintro _ ⟨⟩)).1])

/-- Where a DELETE stands with a row that its snapshot holds. -/
def Takes (w : PgSessions tz) (id : Nat) (code : String) (creator : Nat) : PgPhase → Prop
  | .statement => True
  | .sweeping rest _ => (code, creator) ∈ rest ∨ w.links.pending.lookup code = some (id, none)
  | .done _ => w.links.pending.lookup code = some (id, none)
  | .raised => True
  | _ => False

/-- The row is gone, or a purge will not return without it. -/
inductive Doomed (w : PgSessions tz) (id : Nat) (nowMs : Option Int) (now : T) (code : String) (creator : Nat) : Prop
  | gone : (∀ row, w.links.committed.lookup code ≠ some (creator, row)) → Doomed w id nowMs now code creator
  | waiting {row : PgRow tz} : w.links.committed.lookup code = some (creator, row) → row.meets nowMs now = true →
      (∀ phase, w.calls id = some ⟨.purgeExpired nowMs now, phase⟩ → w.Takes id code creator phase) →
      Doomed w id nowMs now code creator

/-- The next row of a DELETE. -/
theorem Takes.advance {phase : PgPhase} (linear : Linear trace history w)
    (held : w.calls id = some ⟨.purgeExpired nowMs now, phase⟩) (takes : w.Takes id code creator phase)
    (stored : w.links.committed.lookup code = some (creator, row)) (meets : row.meets nowMs now = true)
    (ran : w.advance id ⟨.purgeExpired nowMs now, phase⟩ = some w') :
    ∃ phase', w'.calls id = some ⟨.purgeExpired nowMs now, phase'⟩ ∧ w'.Takes id code creator phase' := by
  cases linear.stands held with
  | statement _ _ =>
    cases ran
    refine ⟨_, Function.update_self .., Or.inl (List.mem_map.mpr ⟨⟨code, creator, row⟩, ?_, rfl⟩)⟩
    exact List.mem_filter.mpr ⟨lookup_eq_some.mp stored, meets⟩
  | @sweeping _ _ rest codes removing _ distinct =>
    cases rest with
    | nil =>
      cases ran
      refine ⟨_, Function.update_self .., takes.resolve_left List.not_mem_nil⟩
    | cons next rest =>
      obtain ⟨removed, came, rfl⟩ := Option.map_eq_some_iff.mp ran
      rcases remove_eq_some came with ⟨left, rfl⟩ | ⟨links, _, wrote, rfl⟩
      · refine ⟨_, Function.update_self .., ?_⟩
        rcases takes with member | pending
        · rcases List.mem_cons.mp member with rfl | later
          · -- The DELETE has come to the row itself, and would have taken it.
            have fresh : code ∉ codes := fun taken =>
              (List.nodup_append.mp distinct).2.2 _ taken _ (List.mem_cons_self ..) rfl
            rw [removing.1.view_eq, replay_untouched _ fun touched => fresh (mem_removals.mp touched), stored] at left
            simp [meets] at left
          · exact Or.inl later
        · exact Or.inr pending
      · refine ⟨_, Function.update_self .., ?_⟩
        obtain ⟨_, rfl⟩ := Heap.write_eq_some.mp wrote
        by_cases own : next.1 = code
        · subst own
          exact Or.inr (AList.lookup_insert _)
        · rcases takes with member | pending
          · rcases List.mem_cons.mp member with rfl | later
            · exact absurd rfl own
            · exact Or.inl later
          · exact Or.inr ((AList.lookup_insert_ne (Ne.symm own)).trans pending)
  | purged _ _ _ => cases ran
  | read _ _ _ => cases ran
  | returned _ _ => cases ran
  | raised _ _ => cases ran

theorem Linear.reflects (linear : Linear trace history w) (id : Nat) : ∃ writes, w.links.Reflects id writes := by
  cases held : w.calls id with
  | none => exact ⟨_, (linear.unbegun held).1⟩
  | some session =>
    obtain ⟨call, phase⟩ := session
    cases linear.stands held with
    | statement links _ => exact ⟨_, links⟩
    | writing links _ => exact ⟨_, links⟩
    | recorded links _ => exact ⟨_, links⟩
    | sweeping removing _ _ => exact ⟨_, removing.1⟩
    | purged removing _ _ => exact ⟨_, removing.1⟩
    | won _ links _ _ => exact ⟨_, links⟩
    | read links _ _ => exact ⟨_, links⟩
    | returned links _ => exact ⟨_, links⟩
    | raised links _ => exact ⟨_, links⟩

theorem Takes.frame {phase : PgPhase} (takes : w.Takes id code creator phase) (linear : Linear trace history w)
    (spares : w.links.Spares w'.links id) : w'.Takes id code creator phase := by
  obtain ⟨_, reflects⟩ := linear.reflects id
  cases phase with
  | statement => trivial
  | writing _ _ => exact takes
  | sweeping _ _ => exact takes.imp_right (spares.pending reflects)
  | done _ => exact spares.pending reflects takes
  | returned _ => exact takes
  | raised => trivial

/-- A row whose creation has returned is not inserted again. -/
theorem stored_of_step (linear : Linear trace history w) (created : w.calls creator = some ⟨call, .returned outcome⟩)
    (taken : Step w label w') (stored : w'.links.committed.lookup code = some (creator, row)) :
    w.links.committed.lookup code = some (creator, row) := by
  cases label with
  | commit id =>
    rcases committed_of_commit taken stored with pending | old
    · obtain ⟨_, _, held, _⟩ := perform_commit taken
      rw [← linear.creator_eq pending] at held
      cases created.symm.trans held
    · exact old
  | begin id call => rwa [← (committed_of_step taken (by rintro _ ⟨⟩)).1]
  | step id => rwa [← (committed_of_step taken (by rintro _ ⟨⟩)).1]
  | abort id => rwa [← (committed_of_step taken (by rintro _ ⟨⟩)).1]

theorem Doomed.step (doomed : w.Doomed id nowMs now code creator) (linear : Linear trace history w)
    (created : w.calls creator = some ⟨call, .returned outcome⟩) (taken : Step w label w') :
    w'.Doomed id nowMs now code creator := by
  cases doomed with
  | gone gone => exact .gone fun row stored => gone row (stored_of_step linear created taken stored)
  | @waiting row stored meets takes =>
    by_cases stays : ∃ row, w'.links.committed.lookup code = some (creator, row)
    · obtain ⟨row', stored'⟩ := stays
      cases stored.symm.trans (stored_of_step linear created taken stored')
      refine .waiting stored' meets fun phase held => ?_
      by_cases acts : label.actor = id
      · subst acts
        cases label with
        | begin id call =>
          obtain ⟨_, rfl⟩ := perform_begin taken
          cases (Function.update_self id _ w.calls).symm.trans held
          trivial
        | step id =>
          obtain ⟨session, before, ran⟩ := Option.bind_eq_some_iff.mp taken
          obtain ⟨after, calls⟩ := (advance_cases ran).1
          obtain ⟨call, earlier⟩ := session
          have whose := (congrFun calls id).symm.trans held
          rw [Function.update_self] at whose
          cases whose
          obtain ⟨_, next, takes⟩ := (takes earlier before).advance linear before stored meets ran
          cases held.symm.trans next
          exact takes
        | commit id =>
          obtain ⟨call, ended, before, rfl⟩ := perform_commit taken
          cases (Function.update_self id _ w.calls).symm.trans held
          have locked : w.links.pending.lookup code = some (id, none) := takes _ before
          rw [put, lookup_commit, locked, Option.filter_some, decide_eq_true rfl] at stored'
          cases stored'
        | abort id =>
          obtain ⟨_, _, _, _, rfl⟩ := perform_abort taken
          cases (Function.update_self id _ w.calls).symm.trans held
          trivial
      · obtain ⟨there, spares, _⟩ := frame_of_step taken acts
        exact (takes phase (there.symm.trans held)).frame linear spares
    · exact .gone fun row stored' => stays ⟨row, stored'⟩

/-- Whatever runs beside a purge: once it has returned, no row is left that
was committed and expired before it began. -/
theorem purge_complete (run : Run Step (start : PgSessions tz) trace u) (unbegun : u.calls id = none)
    (stored : u.links.committed.lookup code = some (creator, row)) (expired : row.meets nowMs now = true)
    (rest : Run Step u later w) (returned : w.calls id = some ⟨.purgeExpired nowMs now, .returned outcome⟩)
    (row' : PgRow tz) : w.links.committed.lookup code ≠ some (creator, row') := by
  obtain ⟨call, made, created⟩ := creator_returned run stored
  have along : w.Doomed id nowMs now code creator ∧ w.calls creator = some ⟨call, .returned made⟩ := by
    clear returned
    induction rest with
    | start => exact ⟨.waiting stored expired fun _ held => (by cases unbegun.symm.trans held), created⟩
    | next before taken ih =>
      obtain ⟨doomed, created⟩ := ih
      obtain ⟨_, linear⟩ := linear_of_run (run.append before)
      exact ⟨doomed.step linear created taken, returned_of_step taken created⟩
  cases along.1 with
  | gone gone => exact gone row'
  | waiting _ _ takes => exact (takes _ returned).elim

/-- Two purges come to one row, and the second finds it gone. -/
theorem purge_complete_overlapping :
    ∃ u w : PgSessions Timestamps.milliseconds,
      Run Step start [.begin 0 (.create "c" "https://example.com" (some 1) (some 1000) 0), .step 0, .commit 0] u ∧
      Run Step u [.begin 1 (.purgeExpired (some 5000) 0), .begin 2 (.purgeExpired (some 5000) 0), .step 1, .step 2,
        .step 1, .step 1, .commit 1, .step 2, .step 2, .commit 2] w ∧
      w.calls 1 = some ⟨.purgeExpired (some 5000) 0, .returned (.purged 1)⟩ ∧
      w.calls 2 = some ⟨.purgeExpired (some 5000) 0, .returned (.purged 0)⟩ ∧
      ∀ row, w.links.committed.lookup "c" ≠ some (0, row) := by
  have first : ∃ u : PgSessions Timestamps.milliseconds, Run Step start
        [.begin 0 (.create "c" "https://example.com" (some 1) (some 1000) 0), .step 0, .commit 0] u ∧
      u.calls 2 = none ∧
      (u.links.committed.lookup "c").any (fun row => row.1 = 0 && row.2.meets (some 5000) 0) = true ∧
      (Transition.execute perform u [.begin 1 (.purgeExpired (some 5000) 0), .begin 2 (.purgeExpired (some 5000) 0), .step 1,
        .step 2, .step 1, .step 1, .commit 1, .step 2, .step 2, .commit 2]).any (fun w =>
          w.calls 1 = some ⟨.purgeExpired (some 5000) 0, .returned (.purged 1)⟩ ∧
            w.calls 2 = some ⟨.purgeExpired (some 5000) 0, .returned (.purged 0)⟩) = true :=
    Run.exists_of_execute (fun _ _ _ done => done) (by decide +kernel)
  obtain ⟨u, run, unbegun, there, later⟩ := first
  obtain ⟨w, rest, swept, empty⟩ := Run.exists_of_execute (fun _ _ _ done => done) later
  obtain ⟨⟨creator, row⟩, stored, both⟩ := (Option.any_eq_true _ _).mp there
  obtain ⟨own, expired⟩ := Bool.and_eq_true_iff.mp both
  cases of_decide_eq_true own
  exact ⟨u, w, run, rest, swept, empty, purge_complete run unbegun stored expired rest empty⟩

end PgSessions

end

end UrlShortener
