import UrlShortener.General.RealTime
import UrlShortener.PgSessions

namespace UrlShortener
open RowLocks Tables Transition

section
variable {T : Type} [LinearOrder T] {tz : Timestamps T}

namespace PgSessions

def Event.begins : Event T → Option Nat
  | .begin id _ => some id
  | _ => none

def Event.returns : Event T → Option Nat
  | .commit id => some id
  | _ => none

/-- What a call and its outcome are where one call follows the other. A purge
may leave expired rows. -/
def Serial (s : PgLinkStore tz) (entry : Nat × PgHistory.Call T × PgOutcome) (s' : PgLinkStore tz) : Prop :=
  match entry with
  | (_, .create code target ttlSeconds nowMs clock, .created none) =>
    s.create code target ttlSeconds nowMs clock = none ∧ s' = s
  | (_, .create code target ttlSeconds nowMs clock, .created (some link)) =>
    s.create code target ttlSeconds nowMs clock = some (link, s')
  | (_, .recordHitsBulk counts, .recorded count) => s.recordHitsBulk counts = (count, s')
  | (_, .get code, .found link) => s.get code = link ∧ s' = s
  | (_, .hits code, .counted hits) => s.hits code = hits ∧ s' = s
  | (_, .purgeExpired nowMs now, .purged count) =>
    ∃ codes : List String, codes.Nodup ∧ codes.length = count ∧
      (∀ code ∈ codes, (s.links.lookup code).any fun row => row.meets nowMs now) ∧
      s' = { s with links := codes.foldl (fun links code => links.erase code) s.links }
  | _ => False

/-- The committed tables are those of a store. -/
structure Agrees (w : PgSessions tz) (s : PgLinkStore tz) : Prop where
  links : ∀ code, s.links.lookup code = (w.links.committed.lookup code).map Prod.snd
  linkHits : ∀ code, s.linkHits.lookup code = w.linkHits.committed.lookup code

/-- The outcome of a call that its place among the others is fixed for. -/
def logged : PgPhase → Option PgOutcome
  | .done outcome => if outcome.writes then none else some outcome
  | .returned outcome => some outcome
  | _ => none

/-- A call that has not taken effect so far, and may. -/
def undecided : PgPhase → Bool
  | .statement => true
  | .writing _ _ => true
  | .sweeping _ _ => true
  | .done outcome => outcome.writes
  | .returned _ => false
  | .raised => false

/-- The calls that have taken effect, in the order in which they did. -/
structure Linear (trace : List (Event T)) (history : List (Nat × PgHistory.Call T × PgOutcome))
    (w : PgSessions tz) : Prop where
  serial : ∃ s, Run Serial .empty history s ∧ w.Agrees s
  once : (history.map Prod.fst).Nodup
  ordered : RealTime Event.returns Event.begins trace (history.map Prod.fst)
  unbegun : ∀ {id}, w.calls id = none →
    w.links.Reflects id [] ∧ w.linkHits.Reflects id [] ∧ id ∉ history.map Prod.fst
  stands : ∀ {id call phase}, w.calls id = some ⟨call, phase⟩ → w.Stands id call phase
  fresh : ∀ {id call phase}, w.calls id = some ⟨call, phase⟩ → undecided phase = true → id ∉ history.map Prod.fst
  logs : ∀ {id call phase outcome}, w.calls id = some ⟨call, phase⟩ → logged phase = some outcome →
    (id, call, outcome) ∈ history
  effective : ∀ {id call outcome}, (id, call, outcome) ∈ history → outcome.writes = true →
    w.calls id = some ⟨call, .returned outcome⟩

variable {w w' : PgSessions tz} {id : Nat} {call : PgHistory.Call T} {phase : PgPhase} {s s' : PgLinkStore tz}
  {trace : List (Event T)} {history : List (Nat × PgHistory.Call T × PgOutcome)}

omit [LinearOrder T] in
theorem replay_adds (items : List (String × Int)) (s : PgLinkStore tz) (code : String) :
    replay (adds items) code (s.linkHits.lookup code) = (items.foldl PgLinkStore.upsert s).linkHits.lookup code := by
  induction items generalizing s with
  | nil => rfl
  | cons item rest ih =>
    rw [List.foldl_cons, ← ih, adds, List.map_cons, replay, List.foldl_cons]
    congr 1
    by_cases own : item.1 = code
    · subst own
      rw [if_pos rfl, PgLinkStore.upsert, AList.lookup_insert, PgLinkStore.hits]
    · rw [if_neg own, PgLinkStore.upsert, AList.lookup_insert_ne (Ne.symm own)]

omit [LinearOrder T] in
theorem links_recordHitsBulk (items : List (String × Int)) (s : PgLinkStore tz) :
    (items.foldl PgLinkStore.upsert s).links = s.links := by
  induction items generalizing s with
  | nil => rfl
  | cons item rest ih => exact ih (s.upsert item)

omit [LinearOrder T] in
theorem lookup_erased (codes : List String) (links : Table String (PgRow tz)) (code : String) :
    (codes.foldl (fun links code => links.erase code) links).lookup code =
      if code ∈ codes then none else links.lookup code := by
  induction codes generalizing links with
  | nil => rfl
  | cons other rest ih =>
    rw [List.foldl_cons, ih]
    by_cases later : code ∈ rest
    · rw [if_pos later, if_pos (List.mem_cons_of_mem _ later)]
    · rw [if_neg later]
      by_cases own : code = other
      · rw [own, if_pos (List.mem_cons_self ..), AList.lookup_erase]
      · rw [if_neg (by simp [own, later]), AList.lookup_erase_ne own]

theorem replay_removals {ν : Type} (codes : List String) (row : Option ν) (code : String) :
    replay (removals codes) code row = if code ∈ codes then none else row := by
  induction codes generalizing row with
  | nil => rfl
  | cons other rest ih =>
    rw [removals, List.map_cons, replay, List.foldl_cons]
    refine (ih _).trans ?_
    by_cases own : other = code
    · rw [if_pos own, own, if_pos (List.mem_cons_self ..), ite_self]
    · simp only [own, if_false, List.mem_cons, Ne.symm own, false_or]

/-- What a call has written is, once committed, what it does to the tables as
they are at that time. -/
theorem Stands.serial {outcome : PgOutcome} (stands : w.Stands id call (.done outcome)) (writes : outcome.writes = true)
    (agrees : w.Agrees s) :
    ∃ s', Serial s (id, call, outcome) s' ∧
      Agrees { w with links := w.links.commit id, linkHits := w.linkHits.commit id } s' := by
  cases stands with
  | @recorded counts links linkHits =>
    refine ⟨_, rfl, fun code => ?_, fun code => ?_⟩
    · rw [links_recordHitsBulk, agrees.links, links.commit code]
      rfl
    · rw [← replay_adds, agrees.linkHits, linkHits.commit code]
  | @purged nowMs now codes removing linkHits distinct =>
    obtain ⟨links, meet⟩ := removing
    refine ⟨_, ⟨codes, distinct, rfl, fun code member => ?_, rfl⟩, fun code => ?_, fun code => ?_⟩
    · rw [agrees.links, Option.any_map]
      exact meet code member
    · rw [lookup_erased, links.commit code, replay_removals, agrees.links]
      split <;> rfl
    · rw [agrees.linkHits, linkHits.commit code]
      rfl
  | @won code target ttlSeconds nowMs clock link same links linkHits absent =>
    have free : code ∉ s.links := by
      rw [← AList.lookup_eq_none, agrees.links, absent, Option.map_none]
    subst same
    refine ⟨_, if_neg free, fun other => ?_, fun other => ?_⟩
    · rw [links.commit other]
      by_cases own : code = other
      · subst own
        rw [AList.lookup_insert, replay, List.foldl_cons, if_pos rfl]
        rfl
      · rw [AList.lookup_insert_ne (Ne.symm own), agrees.links, replay, List.foldl_cons, if_neg own]
        rfl
    · rw [agrees.linkHits, linkHits.commit other]
      rfl
  | read _ _ reads =>
    rw [reads] at writes
    cases writes

/-- A step of one call, which may put it into the history. -/
theorem Linear.move {label : Event T} {more : List (Nat × PgHistory.Call T × PgOutcome)}
    (linear : Linear trace history w) (taken : Step w label w') (acts : label.actor = id)
    (here : w'.calls id = some ⟨call, phase⟩) (serial : ∀ s, w.Agrees s → ∃ s', Run Serial s more s' ∧ w'.Agrees s')
    (once : ((history ++ more).map Prod.fst).Nodup) (own : ∀ entry ∈ more, entry.1 = id)
    (ordered : RealTime Event.returns Event.begins (trace ++ [label]) ((history ++ more).map Prod.fst))
    (stands : w'.Stands id call phase) (fresh : undecided phase = true → id ∉ (history ++ more).map Prod.fst)
    (logs : ∀ outcome, logged phase = some outcome → (id, call, outcome) ∈ history ++ more)
    (effective : ∀ before outcome, (id, before, outcome) ∈ history ++ more → outcome.writes = true →
      before = call ∧ phase = .returned outcome) :
    Linear (trace ++ [label]) (history ++ more) w' := by
  subst acts
  have absent {other : Nat} (different : label.actor ≠ other) (before : other ∉ history.map Prod.fst) :
      other ∉ (history ++ more).map Prod.fst := by
    rw [List.map_append, List.mem_append, not_or]
    refine ⟨before, fun member => ?_⟩
    obtain ⟨entry, among, rfl⟩ := List.mem_map.mp member
    exact different (own entry among).symm
  refine ⟨?_, once, ordered, fun {other} idle => ?_, fun {other} _ _ held => ?_, fun {other} _ _ held open_ => ?_,
    fun {other} _ _ _ held logged => ?_, fun {other} _ _ member writes => ?_⟩
  · obtain ⟨s, run, agrees⟩ := linear.serial
    obtain ⟨s', rest, after⟩ := serial s agrees
    exact ⟨s', run.append rest, after⟩
  · have different : label.actor ≠ other := by
      rintro rfl
      cases here.symm.trans idle
    obtain ⟨there, first, second⟩ := frame_of_step taken different
    obtain ⟨links, linkHits, before⟩ := linear.unbegun (there.symm.trans idle)
    exact ⟨(first _ links).1, (second _ linkHits).1, absent different before⟩
  · by_cases same : label.actor = other
    · subst same
      cases here.symm.trans held
      exact stands
    · obtain ⟨there, first, second⟩ := frame_of_step taken same
      exact (linear.stands (there.symm.trans held)).frame first second
  · by_cases same : label.actor = other
    · subst same
      cases here.symm.trans held
      exact fresh open_
    · exact absent same (linear.fresh ((frame_of_step taken same).1.symm.trans held) open_)
  · by_cases same : label.actor = other
    · subst same
      cases here.symm.trans held
      exact logs _ logged
    · exact List.mem_append_left _ (linear.logs ((frame_of_step taken same).1.symm.trans held) logged)
  · by_cases same : label.actor = other
    · subst same
      obtain ⟨rfl, rfl⟩ := effective _ _ member writes
      exact here
    · rcases List.mem_append.mp member with before | now
      · exact (frame_of_step taken same).1.trans (linear.effective before writes)
      · exact absurd (own _ now).symm same

/-- A step that commits nothing leaves the history as it is. -/
theorem Linear.quiet {label : Event T} (linear : Linear trace history w) (taken : Step w label w')
    (acts : label.actor = id) (here : w'.calls id = some ⟨call, phase⟩) (uncommitted : ∀ id, label ≠ .commit id)
    (begins : ∀ i ∈ label.begins, i ∉ history.map Prod.fst) (stands : w'.Stands id call phase)
    (unlogged : logged phase = none) (fresh : undecided phase = true → id ∉ history.map Prod.fst)
    (before : ∀ call outcome, w.calls id ≠ some ⟨call, .returned outcome⟩) :
    Linear (trace ++ [label]) history w' := by
  obtain ⟨links, linkHits⟩ := committed_of_step taken uncommitted
  have ordered : RealTime Event.returns Event.begins (trace ++ [label]) (history.map Prod.fst) := by
    refine linear.ordered.next (fun i ends => ?_) begins
    cases label <;> cases ends
    exact absurd rfl (uncommitted i)
  rw [← List.append_nil history] at ordered fresh ⊢
  refine linear.move taken acts here (fun s agrees => ⟨s, .start, fun code => ?_, fun code => ?_⟩) ?_
    (fun _ member => by cases member) ordered stands fresh (fun outcome logs => ?_)
    fun earlier outcome member writes => ?_
  · rw [agrees.links, links]
  · rw [agrees.linkHits, linkHits]
  · rw [List.append_nil]
    exact linear.once
  · rw [unlogged] at logs
    cases logs
  · rw [List.append_nil] at member
    exact absurd (linear.effective member writes) (before earlier outcome)

/-- Another row, or the end of the statement, of a call that is to take effect
when it commits. -/
theorem Linear.works {before : PgPhase} (linear : Linear trace history w) (taken : Step w (.step id) w')
    (held : w.calls id = some ⟨call, before⟩) (open_ : undecided before = true)
    (here : w'.calls id = some ⟨call, phase⟩) (stands : w'.Stands id call phase) (unlogged : logged phase = none) :
    Linear (trace ++ [.step id]) history w' := by
  refine linear.quiet taken rfl here (by rintro _ ⟨⟩) (by rintro _ ⟨⟩) stands unlogged
    (fun _ => linear.fresh held open_) ?_
  rintro _ outcome returned
  cases held.symm.trans returned
  cases open_

/-- A statement that only reads takes effect when it runs. -/
theorem Linear.reads {outcome : PgOutcome} (linear : Linear trace history w)
    (taken : Step w (.step id) (w.put id call (.done outcome))) (held : w.calls id = some ⟨call, .statement⟩)
    (reads : outcome.writes = false) (serial : ∀ s, w.Agrees s → Serial s (id, call, outcome) s) :
    Linear (trace ++ [.step id]) (history ++ [(id, call, outcome)]) (w.put id call (.done outcome)) := by
  have absent := linear.fresh held rfl
  have ids : (history ++ [(id, call, outcome)]).map Prod.fst = history.map Prod.fst ++ [id] := List.map_append
  have stands : (w.put id call (.done outcome)).Stands id call (.done outcome) := by
    cases linear.stands held with
    | statement links linkHits => exact .read links linkHits reads
  refine linear.move taken rfl (Function.update_self ..)
    (fun s agrees => ⟨s, .single (serial s agrees), agrees.links, agrees.linkHits⟩) ?_ ?_ ?_ stands ?_ ?_ ?_
  · rw [ids]
    exact linear.once.append (List.nodup_singleton _) (by simpa using absent)
  · exact fun entry member => congrArg Prod.fst (List.mem_singleton.mp member)
  · rw [ids]
    exact (linear.ordered.snoc id).next (by rintro _ ⟨⟩) (by rintro _ ⟨⟩)
  · intro open_
    rw [undecided, reads] at open_
    cases open_
  · intro outcome' logs
    rw [logged, reads] at logs
    cases logs
    exact List.mem_append_right _ (List.mem_singleton_self _)
  · intro before outcome' member writes
    rcases List.mem_append.mp member with earlier | now
    · exact absurd (List.mem_map_of_mem earlier) absent
    · cases List.mem_singleton.mp now
      rw [reads] at writes
      cases writes

/-- The statement of a call that has just begun. -/
theorem Linear.execute (linear : Linear trace history w) (taken : Step w (.step id) w')
    (held : w.calls id = some ⟨call, .statement⟩) (ran : w.execute id call = some w') :
    ∃ history', Linear (trace ++ [.step id]) history' w' := by
  cases linear.stands held with
  | statement links linkHits =>
    cases call with
    | create code target ttlSeconds nowMs clock =>
      obtain ⟨_, ran⟩ := Option.ite_none_right_eq_some.mp ran
      rw [links.view_eq] at ran
      split at ran
      · rename_i present
        cases ran
        refine ⟨_, linear.reads taken held rfl fun s agrees => ⟨if_pos ?_, rfl⟩⟩
        rw [← AList.lookup_isSome, agrees.links, Option.isSome_map]
        exact present
      · rename_i absent
        obtain ⟨heap, wrote, rfl⟩ := Option.map_eq_some_iff.mp ran
        refine ⟨_, linear.works taken held rfl (Function.update_self ..) (.won rfl (links.write wrote) linkHits ?_) rfl⟩
        rw [put, Heap.committed_write wrote]
        exact Option.not_isSome_iff_eq_none.mp absent
    | recordHitsBulk counts =>
      cases ran
      exact ⟨_, linear.works taken held rfl (Function.update_self ..) (@Stands.writing _ _ _ _ _ [] counts links linkHits) rfl⟩
    | get code =>
      cases ran
      refine ⟨_, linear.reads taken held rfl fun s agrees => ⟨?_, rfl⟩⟩
      rw [PgLinkStore.get, agrees.links, links.view_eq, Option.map_map]
      rfl
    | hits code =>
      cases ran
      refine ⟨_, linear.reads taken held rfl fun s agrees => ⟨?_, rfl⟩⟩
      rw [PgLinkStore.hits, agrees.linkHits, linkHits.view_eq]
      rfl
    | purgeExpired nowMs now =>
      cases ran
      have distinct : ((w.snapshot nowMs now).map Prod.fst).Nodup := by
        rw [snapshot, List.map_map]
        exact w.links.committed.nodupKeys.sublist List.filter_sublist
      exact ⟨_, linear.works taken held rfl (Function.update_self ..)
        (@Stands.sweeping _ _ _ _ _ nowMs now _ [] ⟨links, fun _ member => by cases member⟩ linkHits distinct) rfl⟩

theorem Linear.step (linear : Linear trace history w) (taken : Step w (.step id) w') :
    ∃ history', Linear (trace ++ [.step id]) history' w' := by
  obtain ⟨⟨call, phase⟩, held, ran⟩ := Option.bind_eq_some_iff.mp taken
  cases linear.stands held with
  | statement _ _ => exact linear.execute taken held ran
  | @writing before rest links linkHits =>
    cases rest with
    | nil =>
      rw [List.append_nil] at held ran
      cases ran
      exact ⟨_, linear.works taken held rfl (Function.update_self ..) (.recorded links linkHits) rfl⟩
    | cons item rest =>
      obtain ⟨heap, wrote, rfl⟩ := Option.map_eq_some_iff.mp ran
      have next := linkHits.write wrote
      rw [← adds_snoc] at next
      have whole : before ++ item :: rest = before ++ [item] ++ rest := by
        rw [List.append_assoc, List.singleton_append]
      rw [whole] at held taken ⊢
      exact ⟨_, linear.works taken held rfl (Function.update_self ..) (.writing links next) rfl⟩
  | @sweeping nowMs now rest codes removing linkHits distinct =>
    cases rest with
    | nil =>
      cases ran
      rw [List.map_nil, List.append_nil] at distinct
      exact ⟨_, linear.works taken held rfl (Function.update_self ..) (.purged removing linkHits distinct) rfl⟩
    | cons row rest =>
      obtain ⟨removed, came, rfl⟩ := Option.map_eq_some_iff.mp ran
      rcases remove_eq_some came with ⟨_, rfl⟩ | ⟨links, meets, wrote, rfl⟩
      · have left : (codes ++ rest.map Prod.fst).Nodup :=
          distinct.sublist ((List.sublist_cons_self ..).append_left codes)
        exact ⟨_, linear.works taken held rfl (Function.update_self ..) (.sweeping removing linkHits left) rfl⟩
      · rw [List.map_cons] at distinct
        have fresh : row.1 ∉ codes := fun member => (List.nodup_append.mp distinct).2.2 _ member _ (List.mem_cons_self ..) rfl
        have left : (codes ++ [row.1] ++ rest.map Prod.fst).Nodup := by
          rwa [List.append_assoc, List.singleton_append]
        have count : codes.length + 1 = (codes ++ [row.1]).length := by rw [List.length_append, List.length_singleton]
        rw [count] at taken ⊢
        exact ⟨_, linear.works taken held rfl (Function.update_self ..)
          (.sweeping (removing.snoc fresh meets wrote) linkHits left) rfl⟩
  | recorded _ _ => cases ran
  | purged _ _ _ => cases ran
  | won _ _ _ _ => cases ran
  | read _ _ _ => cases call <;> cases ran
  | returned _ _ => cases call <;> cases ran
  | raised _ _ => cases call <;> cases ran

theorem Linear.commit (linear : Linear trace history w) (taken : Step w (.commit id) w') :
    ∃ history', Linear (trace ++ [.commit id]) history' w' := by
  obtain ⟨call, outcome, held, rfl⟩ := perform_commit taken
  have stands := linear.stands held
  cases writes : outcome.writes with
  | true =>
    have absent := linear.fresh held writes
    have ids : (history ++ [(id, call, outcome)]).map Prod.fst = history.map Prod.fst ++ [id] := List.map_append
    refine ⟨history ++ [(id, call, outcome)], linear.move taken rfl (Function.update_self ..) (fun s agrees => ?_) ?_
      ?_ ?_ (.returned .committed .committed) (fun open_ => by cases open_) (fun outcome' logs => ?_)
      fun before outcome' member _ => ?_⟩
    · obtain ⟨s', serial, after⟩ := stands.serial writes agrees
      exact ⟨s', .single serial, after.links, after.linkHits⟩
    · rw [ids]
      exact linear.once.append (List.nodup_singleton _) (by simpa using absent)
    · exact fun entry member => congrArg Prod.fst (List.mem_singleton.mp member)
    · rw [ids]
      refine (linear.ordered.snoc id).next (fun i ends => ?_) (by rintro _ ⟨⟩)
      cases ends
      exact List.mem_append_right _ (List.mem_singleton_self _)
    · cases logs
      exact List.mem_append_right _ (List.mem_singleton_self _)
    · rcases List.mem_append.mp member with earlier | now
      · exact absurd (List.mem_map_of_mem earlier) absent
      · cases List.mem_singleton.mp now
        exact ⟨rfl, rfl⟩
  | false =>
    have placed := linear.logs held (by rw [logged, writes]; rfl)
    have idle : w.links.Reflects id [] ∧ w.linkHits.Reflects id [] := by
      cases stands with
      | recorded _ _ => cases writes
      | purged _ _ _ => cases writes
      | won _ _ _ _ => cases writes
      | read links linkHits _ => exact ⟨links, linkHits⟩
    refine ⟨history ++ [], linear.move taken rfl (Function.update_self ..)
      (fun s agrees => ⟨s, .start, fun code => ?_, fun code => ?_⟩) ?_ (fun _ member => by cases member) ?_
      (.returned .committed .committed) (fun open_ => by cases open_) (fun outcome' logs => ?_)
      fun before outcome' member effects => ?_⟩
    · exact (agrees.links code).trans (congrArg _ (idle.1.commit code).symm)
    · exact (agrees.linkHits code).trans (idle.2.commit code).symm
    · rw [List.append_nil]
      exact linear.once
    · rw [List.append_nil]
      refine linear.ordered.next (fun i ends => ?_) (by rintro _ ⟨⟩)
      cases ends
      exact List.mem_map_of_mem placed
    · cases logs
      rwa [List.append_nil]
    · rw [List.append_nil] at member
      cases held.symm.trans (linear.effective member effects)

theorem Linear.abort (linear : Linear trace history w) (taken : Step w (.abort id) w') :
    Linear (trace ++ [.abort id]) history w' := by
  obtain ⟨call, phase, held, unreturned, rfl⟩ := perform_abort taken
  refine linear.quiet taken rfl (Function.update_self ..) (by rintro _ ⟨⟩) (by rintro _ ⟨⟩) (.raised .rollback .rollback)
    rfl (fun open_ => by cases open_) ?_
  rintro _ outcome returned
  cases held.symm.trans returned
  exact unreturned outcome rfl

theorem Linear.begin (linear : Linear trace history w) (taken : Step w (.begin id call) w') :
    Linear (trace ++ [.begin id call]) history w' := by
  obtain ⟨idle, rfl⟩ := perform_begin taken
  obtain ⟨links, linkHits, absent⟩ := linear.unbegun idle
  refine linear.quiet taken rfl (Function.update_self ..) (by rintro _ ⟨⟩) (fun i begins => ?_)
    (.statement links linkHits) rfl (fun _ => absent) (fun _ _ returned => by cases idle.symm.trans returned)
  cases begins
  exact absent

theorem linear_of_run (run : Run Step (start : PgSessions tz) trace w) : ∃ history, Linear trace history w := by
  induction run with
  | start =>
    have nobody : ∀ id call phase, (start : PgSessions tz).calls id ≠ some ⟨call, phase⟩ := by rintro _ _ _ ⟨⟩
    exact ⟨[], ⟨.empty, .start, fun _ => rfl, fun _ => rfl⟩, List.nodup_nil, .start,
      fun _ => ⟨.initial _, .initial _, List.not_mem_nil⟩, fun held => (nobody _ _ _ held).elim,
      fun held => (nobody _ _ _ held).elim, fun held => (nobody _ _ _ held).elim, fun member => by cases member⟩
  | next _ taken ih =>
    obtain ⟨history, linear⟩ := ih
    rename_i label _ _
    cases label with
    | begin id call => exact ⟨history, linear.begin taken⟩
    | step id => exact linear.step taken
    | commit id => exact linear.commit taken
    | abort id => exact ⟨history, linear.abort taken⟩

/-- The calls might as well have been made one after the other, in an order
that calls which do not overlap keep: every one that returns has the outcome
it has there, and those that raise have changed nothing. -/
theorem pg_linearizable (run : Run Step (start : PgSessions tz) trace w) :
    ∃ history s, Run Serial .empty history s ∧ w.Agrees s ∧ (history.map Prod.fst).Nodup ∧
      (∀ id call outcome, w.calls id = some ⟨call, .returned outcome⟩ → (id, call, outcome) ∈ history) ∧
      (∀ id call outcome, (id, call, outcome) ∈ history → outcome.writes = true →
        w.calls id = some ⟨call, .returned outcome⟩) ∧
      ∀ a b call, [.commit a, .begin b call].Sublist trace → b ∈ history.map Prod.fst →
        [a, b].Sublist (history.map Prod.fst) := by
  obtain ⟨history, linear⟩ := linear_of_run run
  obtain ⟨s, serial, agrees⟩ := linear.serial
  exact ⟨history, s, serial, agrees, linear.once, fun _ _ _ returned => linear.logs returned rfl,
    fun _ _ _ => linear.effective, fun _ _ _ both => linear.ordered.follows both rfl rfl⟩

/-- Two creates want one code, and two flushes add to one row. -/
theorem pg_linearizable_contended :
    ∃ (w : PgSessions Timestamps.milliseconds) (history : _) (s : PgLinkStore Timestamps.milliseconds),
      Run Step start
        [.begin 0 (.create "c" "https://example.com" none (some 1000) 0),
          .begin 1 (.create "c" "https://example.org" none (some 1001) 0), .step 0, .commit 0, .step 1,
          .begin 2 (.recordHitsBulk [("c", 2), ("d", 1)]), .begin 3 (.recordHitsBulk [("c", 3)]), .step 2, .step 3,
          .step 2, .commit 1, .step 2, .step 2, .commit 2, .step 3, .step 3, .commit 3, .begin 4 (.hits "c"), .step 4,
          .commit 4] w ∧
      Run Serial .empty history s ∧ s.hits "c" = 5 ∧ [0, 4].Sublist (history.map Prod.fst) := by
  have executed : ∃ w : PgSessions Timestamps.milliseconds, Run Step start
        [.begin 0 (.create "c" "https://example.com" none (some 1000) 0),
          .begin 1 (.create "c" "https://example.org" none (some 1001) 0), .step 0, .commit 0, .step 1,
          .begin 2 (.recordHitsBulk [("c", 2), ("d", 1)]), .begin 3 (.recordHitsBulk [("c", 3)]), .step 2, .step 3,
          .step 2, .commit 1, .step 2, .step 2, .commit 2, .step 3, .step 3, .commit 3, .begin 4 (.hits "c"), .step 4,
          .commit 4] w ∧
      w.linkHits.committed.lookup "c" = some 5 ∧ (w.calls 4).map PgSession.phase = some (.returned (.counted 5)) :=
    Run.exists_of_execute (fun _ _ _ done => done) (by decide +kernel)
  obtain ⟨w, run, five, last⟩ := executed
  obtain ⟨history, s, serial, agrees, _, returned, _, order⟩ := pg_linearizable run
  obtain ⟨⟨call, phase⟩, held, same⟩ := Option.map_eq_some_iff.mp last
  cases same
  refine ⟨w, history, s, run, serial, ?_, order 0 4 (.hits "c") ?_ (List.mem_map_of_mem (returned 4 call _ held))⟩
  · rw [PgLinkStore.hits, agrees.linkHits, five, Option.getD_some]
  · exact .cons _ (.cons _ (.cons _ (.cons_cons _ (List.singleton_sublist.mpr (List.mem_of_getElem? (i := 13) rfl)))))

end PgSessions

end

end UrlShortener
