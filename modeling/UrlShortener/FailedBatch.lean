import UrlShortener.LinkConnections

namespace UrlShortener
namespace LinkConnections
open SingleWriter Transition

variable {τ : Type} [DecidableEq τ]

/-- No row of the call `id` is in the file or in an open transaction. -/
def Clear (s : LinkConnections τ) (id : Nat) : Prop :=
  s.db.store.Everywhere fun tables => tables.rowsOf id = []

/-- The call of `record_hits_bulk` under way on this thread. -/
def Records (s : LinkConnections τ) (t : τ) (id : Nat) : Prop :=
  ∃ done rest, s.phase t = .recording id done rest

/-- The calls of `record_hits_bulk` have numbers of their own, and those under
way have written what their phase says into the transaction of their thread. -/
structure Numbered (s : LinkConnections τ) : Prop where
  running : ∀ {t id}, s.Records t id → id < s.calls
  alone : ∀ {t u id}, s.Records t id → s.Records u id → t = u
  unused : ∀ id, s.calls ≤ id → s.Clear id
  unwritten : ∀ {t id rest}, s.phase t = .recording id [] rest → s.Clear id
  written : ∀ {t id done rest}, s.phase t = .recording id done rest → done ≠ [] →
    ∃ working, s.db.store.writer = some (t, working) ∧ working.rowsOf id = done
  unpublished : ∀ {t id}, s.Records t id → s.db.committed.rowsOf id = []

/-- The statements of a call of `record_hits_bulk` that goes through. -/
def Statement.batch (t : τ) (items : List (String × Nat)) : List (Statement τ) :=
  .recordHits t items :: items.map (fun _ => .row t) ++ [.commit t]

variable {s s' u : LinkConnections τ} {label : Statement τ} {t v : τ} {id : Nat} {trace later : List (Statement τ)}
  {done rest : List (String × Nat)} {links : LinkStore} {hits : LinkHits}

theorem Step.calls_le (taken : s.Step label s') : s.calls ≤ s'.calls := by
  cases taken with
  | recordHits _ _ => exact Nat.le_succ _
  | _ => exact Nat.le_refl _

/-- A thread that records after its statement has just begun the call or
written a row. -/
theorem Step.recording (taken : s.Step label s') (here : s'.phase label.thread = .recording id done rest) :
    (done = [] ∧ id = s.calls ∧ s'.calls = s.calls + 1 ∧ s'.db = s.db) ∨
    ∃ before item db, done = before ++ [item] ∧ s.phase label.thread = .recording id before (item :: rest) ∧
      s.db.acquire label.thread = some db ∧ s'.db = db.write label.thread (·.upsert id item) := by
  cases taken with
  | @recordHits t items free nonempty =>
    have same := (advance_self ..).symm.trans here
    cases same
    exact Or.inl ⟨rfl, rfl, rfl, rfl⟩
  | @row t id before item rest db phase _ acquired =>
    have same := (advance_self ..).symm.trans here
    cases same
    exact Or.inr ⟨before, item, db, rfl, phase, acquired, rfl⟩
  | @conflict t call round db _ _ _ =>
    have same := (advance_self ..).symm.trans here
    cases round with
    | none => cases same
    | some round => cases same
  | _ =>
    have same := (advance_self ..).symm.trans here
    cases same

theorem Step.records (taken : s.Step label s') (after : s'.Records v id) :
    s.Records v id ∨ (v = label.thread ∧ id = s.calls ∧ s'.calls = s.calls + 1) := by
  obtain ⟨done, rest, here⟩ := after
  by_cases own : v = label.thread
  · subst own
    rcases taken.recording here with ⟨_, number, next, _⟩ | ⟨before, item, _, _, phase, _⟩
    · exact Or.inr ⟨rfl, number, next⟩
    · exact Or.inl ⟨before, item :: rest, phase⟩
  · exact Or.inl ⟨done, rest, (taken.phase_other own).symm.trans here⟩

/-- Only its own thread can put rows of a call anywhere. -/
theorem Clear.step (clear : s.Clear id) (taken : s.Step label s')
    (stranger : ∀ t, label = .row t → ¬ s.Records t id) : s'.Clear id := by
  refine taken.everywhere clear (fun _ _ none => none) fun t other done item rest same phase tables none => ?_
  have different : other ≠ id := by
    rintro rfl
    exact stranger t same ⟨done, _, phase⟩
  rw [tables.rowsOf_upsert_other other item different, none]

theorem Numbered.unwritten_step (numbered : s.Numbered) (taken : s.Step label s')
    (here : s'.phase v = .recording id [] rest) : s'.Clear id := by
  by_cases own : v = label.thread
  · subst own
    rcases taken.recording here with ⟨_, number, _, db⟩ | ⟨before, item, _, nonempty, _⟩
    · rw [Clear, db]
      exact numbered.unused id (Nat.le_of_eq number.symm)
    · simp at nonempty
  · have before := (taken.phase_other own).symm.trans here
    refine (numbered.unwritten before).step taken fun t same recording => own ?_
    rw [same]
    exact numbered.alone ⟨[], rest, before⟩ recording

theorem Numbered.written_step (numbered : s.Numbered) (taken : s.Step label s')
    (here : s'.phase v = .recording id done rest) (nonempty : done ≠ []) :
    ∃ working, s'.db.store.writer = some (v, working) ∧ working.rowsOf id = done := by
  by_cases own : v = label.thread
  · subst own
    rcases taken.recording here with ⟨none, _⟩ | ⟨before, item, db, rfl, phase, acquired, written⟩
    · exact absurd none nonempty
    · obtain ⟨_, _, rfl⟩ := Database.acquire_iff.mp acquired
      rw [written, Database.write, write_writer rfl]
      refine ⟨_, rfl, ?_⟩
      rw [LinkTables.rowsOf_upsert_self]
      congr 1
      by_cases first : before = []
      · subst first
        exact (numbered.unwritten phase).view
      · obtain ⟨working, held, rows⟩ := numbered.written phase first
        rw [view_writer held, rows]
  · obtain ⟨working, held, rows⟩ := numbered.written ((taken.phase_other own).symm.trans here) nonempty
    exact ⟨working, (taken.store_of_holds ⟨working, held⟩ own) ▸ held, rows⟩

theorem Numbered.unpublished_step (numbered : s.Numbered) (taken : s.Step label s') (after : s'.Records v id) :
    s'.db.committed.rowsOf id = [] := by
  obtain ⟨done, rest, here⟩ := after
  by_cases first : done = []
  · subst first
    exact (numbered.unwritten_step taken here).1
  · by_cases own : v = label.thread
    · subst own
      rcases taken.recording here with ⟨none, _⟩ | ⟨before, item, db, _, phase, acquired, written⟩
      · exact absurd none first
      · have same : s'.db.committed = s.db.committed := by
          rw [written]
          exact (Database.Touches.wrote _ acquired).committed
        rw [same]
        exact numbered.unpublished ⟨before, _, phase⟩
    · have before := (taken.phase_other own).symm.trans here
      obtain ⟨working, held, _⟩ := numbered.written before first
      rw [Database.committed, taken.store_of_holds ⟨working, held⟩ own]
      exact numbered.unpublished ⟨done, rest, before⟩

theorem Numbered.step (numbered : s.Numbered) (taken : s.Step label s') : s'.Numbered := by
  have grows := taken.calls_le
  refine ⟨fun {v id} after => ?_, fun {v w id} after after' => ?_, fun id fresh => ?_,
    numbered.unwritten_step taken, numbered.written_step taken, numbered.unpublished_step taken⟩
  · rcases taken.records after with before | ⟨_, number, next⟩
    · have below := numbered.running before
      omega
    · omega
  · rcases taken.records after with before | ⟨own, number, _⟩
    · rcases taken.records after' with before' | ⟨_, number, _⟩
      · exact numbered.alone before before'
      · have below := numbered.running before
        omega
    · rcases taken.records after' with before' | ⟨own', _, _⟩
      · have below := numbered.running before'
        omega
      · rw [own, own']
  · refine (numbered.unused id (Nat.le_trans grows fresh)).step taken fun t _ recording => ?_
    have below := numbered.running recording
    omega

theorem numbered_of_run (run : Run Step (start links hits) trace s) : s.Numbered := by
  induction run with
  | start =>
    have idle {t : τ} {id : Nat} : ¬ (start links hits : LinkConnections τ).Records t id := by
      rintro ⟨done, rest, here⟩
      cases here
    refine ⟨fun here => absurd here idle, fun here => absurd here idle, fun id _ => ⟨rfl, fun c copy held => ?_⟩,
      fun here => absurd ⟨_, _, here⟩ idle, fun here => absurd ⟨_, _, here⟩ idle, fun here => absurd here idle⟩
    cases held
  | next _ taken ih => exact ih.step taken

/-- A batch that is over and has left no row never gets one. -/
theorem clear_of_run (clear : s.Clear id) (old : id < s.calls) (ended : ∀ t, ¬ s.Records t id)
    (run : Run Step s later u) : u.Clear id := by
  have whole : u.Clear id ∧ id < u.calls ∧ ∀ t, ¬ u.Records t id := by
    induction run with
    | start => exact ⟨clear, old, ended⟩
    | next _ taken ih =>
      obtain ⟨none, below, ended⟩ := ih
      refine ⟨none.step taken fun t _ => ended t, Nat.lt_of_lt_of_le below taken.calls_le, fun t after => ?_⟩
      rcases taken.records after with before | ⟨_, number, _⟩
      · exact ended t before
      · omega
  exact whole.1

/-- A call of `record_hits_bulk` that raises has its transaction rolled back, or
has no more than opened one in its last statement. -/
theorem Step.raising {error : Error} (taken : s.Step label s') (here : s.phase t = .recording id done rest)
    (raised : s'.phase t = .raised error) :
    (label = .abort t ∧ s'.db = s.db.rollback t ∨ label ≠ .abort t ∧
      (s'.db = s.db ∨ s'.db = s.db.enter t ∨ s.db.acquire t = some s'.db)) ∧
    ∀ v, s'.Records v id → s.Records v id ∧ v ≠ t := by
  have own : t = label.thread := by
    by_contra different
    rw [taken.phase_other different, here] at raised
    cases raised
  subst own
  refine ⟨?_, fun v after => ?_⟩
  · cases taken with
    | fail _ tried => exact Or.inr ⟨nofun, tried⟩
    | locked _ _ => exact Or.inr ⟨nofun, Or.inr (Or.inl rfl)⟩
    | abort _ => exact Or.inl ⟨rfl, rfl⟩
    | giveUp phase => cases phase.symm.trans here
    | conflict phase _ _ => cases phase.symm.trans here
    | _ => cases (advance_self ..).symm.trans raised
  · obtain ⟨done', rest', now⟩ := after
    have different : v ≠ label.thread := by
      rintro rfl
      rw [raised] at now
      cases now
    exact ⟨⟨done', rest', (taken.phase_other different).symm.trans now⟩, different⟩

/-- The rows of a batch, one after another. -/
theorem rows_run (here : s.phase t = .recording id done rest) (bound : ∀ item ∈ rest, item.2 < 2 ^ 63)
    (alone : ∀ d, s.db.Holds d → d = t) (current : s.db.current t = true) (ready : s.db.Holds t ∨ rest ≠ []) :
    ∃ u, Run Step s (rest.map fun _ => .row t) u ∧ u.phase t = .recording id (done ++ rest) [] ∧
      u.db.store = { committed := s.db.committed, writer := some (t, (s.db.store.view t).upsertAll id rest) } := by
  induction rest generalizing s done with
  | nil =>
    obtain ⟨working, held⟩ := ready.resolve_right (not_not.mpr rfl)
    refine ⟨s, .start, by rw [here, List.append_nil], ?_⟩
    rw [view_writer held]
    calc s.db.store = ⟨s.db.store.committed, s.db.store.writer⟩ := rfl
      _ = ⟨s.db.store.committed, some (t, working)⟩ := by rw [held]
  | cons item rest ih =>
    have taken := Step.row here (bound item (List.mem_cons_self ..)) (Database.acquire_iff.mpr ⟨current, alone, rfl⟩)
    rw [Database.write, write_writer rfl] at taken
    let db : Database τ LinkTables :=
      { s.db.put t .writing with store := ⟨s.db.committed, some (t, (s.db.store.view t).upsert id item)⟩ }
    have holds : db.Holds t := ⟨_, rfl⟩
    obtain ⟨u, run, ended, written⟩ := ih (s.advance_self t db (.recording id (done ++ [item]) rest))
      (fun other member => bound other (List.mem_cons_of_mem _ member)) (fun d other => other.unique holds)
      (Database.current_writing (Database.put_access s.db t .writing)) (Or.inl holds)
    refine ⟨u, .cons taken run, ?_, ?_⟩
    · rw [ended, List.append_assoc, List.singleton_append]
    · rw [written, advance_db, view_writer rfl, LinkTables.upsertAll_cons]

/-- A batch of a thread that nobody shuts out can go through, and then publishes
what its connection holds as well. -/
theorem batch_run {items : List (String × Nat)} (free : (s.phase t).free) (bound : ∀ item ∈ items, item.2 < 2 ^ 63)
    (alone : ∀ d, s.db.Holds d → d = t) (current : s.db.current t = true) (nonempty : items ≠ []) :
    ∃ u, Run Step s (Statement.batch t items) u ∧
      u.db.store = { committed := (s.db.store.view t).upsertAll s.calls items } := by
  have begun := Step.recordHits free nonempty
  obtain ⟨v, rows, written, store⟩ := rows_run (advance_self ..) bound alone current (Or.inr nonempty)
  have ended := Step.commitHits written
  refine ⟨_, (Run.cons begun rows).next ended, ?_⟩
  rw [advance_db]
  exact commit_writer (congrArg Store.writer store)

/-- A batch that goes through is the one step that `HitCounter` takes it for. -/
theorem batch_run_recordHitsBulk {items : List (String × Nat)} {batch : Multiset String}
    (counted : ∀ code, LinkTables.total items code = batch.count code) (free : (s.phase t).free)
    (bound : ∀ item ∈ items, item.2 < 2 ^ 63) (alone : ∀ d, s.db.Holds d → d = t) (current : s.db.current t = true)
    (nonempty : items ≠ []) :
    ∃ u, Run Step s (Statement.batch t items) u ∧
      u.db.committed.hits = (s.db.store.view t).hits.recordHitsBulk batch := by
  obtain ⟨u, run, store⟩ := batch_run free bound alone current nonempty
  refine ⟨u, run, ?_⟩
  rw [Database.committed, store, LinkTables.hits_upsertAll_batch _ _ counted]

/-- The table is what its journal adds up to. -/
theorem hits_of_run (run : Run Step (start links hits) trace s) (code : String) :
    s.db.committed.hits code = hits code + LinkTables.total (s.db.committed.journal.map Prod.snd) code := by
  have balanced : s.db.store.Everywhere fun tables =>
      tables.hits code = hits code + LinkTables.total (tables.journal.map Prod.snd) code := by
    induction run with
    | start => exact ⟨rfl, fun c copy held => by cases held⟩
    | next _ taken ih =>
      refine taken.everywhere ih (fun _ _ even => even) fun t id done item rest _ _ tables even => ?_
      have row := LinkTables.total_append (tables.journal.map Prod.snd) [item] code
      rw [LinkTables.hits_upsert, even, LinkTables.upsert, List.map_append, List.map_singleton, row, Nat.add_assoc]
  exact balanced.1

/-- After a batch has raised behind its first row, and SQLite has kept its
transaction, the next batch of the thread publishes its rows. -/
theorem Numbered.left_over {error : Error} {items : List (String × Nat)} (numbered : s.Numbered)
    (consistent : s.db.Consistent) (recording : s.phase t = .recording id done rest) (taken : s.Step label s')
    (raised : s'.phase t = .raised error) (nonempty : done ≠ []) (kept : label ≠ .abort t) (some : items ≠ [])
    (bound : ∀ item ∈ items, item.2 < 2 ^ 63) :
    ∃ u, Run Step s' (Statement.batch t items) u ∧ u.db.committed.rowsOf id = done ∧
      u.db.committed.rowsOf s'.calls = items := by
  have below : id < s'.calls := Nat.lt_of_lt_of_le (numbered.running ⟨done, rest, recording⟩) taken.calls_le
  obtain ⟨working, held, rows⟩ := numbered.written recording nonempty
  have holds : s.db.Holds t := ⟨working, held⟩
  -- The rows are still in the open transaction of the connection.
  have same : s'.db = s.db := by
    rcases (taken.raising recording raised).1 with ⟨aborted, _⟩ | ⟨_, same | entered | acquired⟩
    · exact absurd aborted kept
    · exact same
    · rw [entered, Database.enter, consistent.writing holds]
    · exact Option.some.inj (acquired.symm.trans (consistent.acquire_own holds))
  have free : (s'.phase t).free := by rw [raised]; rfl
  have alone : ∀ d, s'.db.Holds d → d = t := fun d other => other.unique (same ▸ holds)
  have current : s'.db.current t = true := Database.current_writing (same ▸ consistent.writing holds)
  obtain ⟨u, batch, store⟩ := batch_run free bound alone current some
  have clear : s'.Clear s'.calls := (numbered.step taken).unused s'.calls (Nat.le_refl _)
  have fresh : (s'.db.store.view t).rowsOf s'.calls = [] := clear.view
  refine ⟨u, batch, ?_, ?_⟩
  · rw [Database.committed, store, LinkTables.rowsOf_upsertAll_other _ _ (Nat.ne_of_gt below), same, view_writer held,
      rows]
  · rw [Database.committed, store, LinkTables.rowsOf_upsertAll_self, fresh, List.nil_append]

/-- A batch that raises before its first row, or is rolled back, is gone. -/
theorem Numbered.gone {error : Error} (numbered : s.Numbered) (recording : s.phase t = .recording id done rest)
    (taken : s.Step label s') (raised : s'.phase t = .raised error) (none : done = [] ∨ label = .abort t)
    (run : Run Step s' later u) : u.Clear id := by
  obtain ⟨ended, records⟩ := taken.raising recording raised
  have below : id < s'.calls := Nat.lt_of_lt_of_le (numbered.running ⟨done, rest, recording⟩) taken.calls_le
  have clear : s'.Clear id := by
    rcases ended with ⟨_, rolledBack⟩ | ⟨kept, tried⟩
    · rw [Clear, rolledBack]
      by_cases first : done = []
      · subst first
        exact (numbered.unwritten recording).rollback
      · obtain ⟨working, held, _⟩ := numbered.written recording first
        have dropped : (s.db.rollback t).store = { committed := s.db.committed } := rollback_writer held
        rw [dropped]
        exact ⟨numbered.unpublished ⟨done, rest, recording⟩, nofun⟩
    · have first := none.resolve_right kept
      subst first
      have before := numbered.unwritten recording
      rcases tried with same | entered | acquired
      · rwa [Clear, same]
      · rwa [Clear, entered, Database.enter_store]
      · obtain ⟨_, alone, same⟩ := Database.acquire_iff.mp acquired
        rw [Clear, same]
        exact before.acquire (acquire_iff.mpr ⟨alone, rfl⟩)
  refine clear_of_run clear below (fun v after => ?_) run
  obtain ⟨earlier, different⟩ := records v after
  exact different (numbered.alone earlier ⟨done, rest, recording⟩)

/-- A batch that raises leaves nothing that a later COMMIT publishes exactly if
it raises before its first row, or with an error on which SQLite rolls back.
Otherwise the rows it has written are published with the next batch of the
thread, so one that is put back is counted twice. -/
theorem failed_batch_leaves_nothing_iff {error : Error} (run : Run Step (start links hits) trace s)
    (recording : s.phase t = .recording id done rest) (taken : s.Step label s') (raised : s'.phase t = .raised error) :
    ((∀ later u, Run Step s' later u → u.db.committed.rowsOf id = []) ↔ done = [] ∨ label = .abort t) ∧
    (done ≠ [] → label ≠ .abort t → ∀ items ≠ [], (∀ item ∈ items, item.2 < 2 ^ 63) →
      ∃ u, Run Step s' (Statement.batch t items) u ∧ u.db.committed.rowsOf id = done ∧
        u.db.committed.rowsOf s'.calls = items) ∧
    ∀ later u code, Run Step s' later u →
      u.db.committed.hits code = hits code + LinkTables.total (u.db.committed.journal.map Prod.snd) code := by
  have numbered := numbered_of_run run
  have twice (nonempty : done ≠ []) (kept : label ≠ .abort t) (items : List (String × Nat)) (some : items ≠ []) :=
    numbered.left_over (consistent_of_run run) recording taken raised nonempty kept some
  refine ⟨⟨fun never => ?_, fun none later u rest' => ?_⟩, twice, fun later u code rest' => ?_⟩
  · by_contra left
    obtain ⟨nonempty, kept⟩ := not_or.mp left
    obtain ⟨u, batch, rows, _⟩ := twice nonempty kept [("", 1)] (List.cons_ne_nil _ _) (by simp)
    exact nonempty (rows.symm.trans (never _ u batch))
  · exact (numbered.gone recording taken raised none rest').1
  · exact hits_of_run ((run.next taken).append rest') code

/-- Its second count is too large to be bound. -/
def tooLarge : List (String × Nat) :=
  [("a", 2), ("b", 2 ^ 63)]

/-- A batch of two rows raises at the second one. -/
theorem failed_batch_second_row : ∃ s' : LinkConnections Nat,
    Run Step (start .empty fun _ => 0) [.recordHits 0 tooLarge, .row 0, .fail 0] s' ∧
    s'.phase 0 = .raised .sqlite ∧
    ((∀ later u, Run Step s' later u → u.db.committed.rowsOf 0 = []) ↔ [("a", 2)] = [] ∨ Statement.fail 0 = .abort 0) ∧
    ∃ u, Run Step s' (Statement.batch 0 [("c", 1)]) u ∧ u.db.committed.rowsOf 0 = [("a", 2)] := by
  have run := Run.cons (Step.recordHits (s := (start .empty fun _ => 0 : LinkConnections Nat)) (t := 0) rfl
    (List.cons_ne_nil ("a", 2) [("b", 2 ^ 63)])) (.single (.row (t := 0) rfl (by decide) rfl))
  have failed := failed_batch_leaves_nothing_iff (t := 0) run rfl (Step.fail (t := 0) rfl (Or.inl rfl)) rfl
  obtain ⟨left, back, _⟩ := failed
  obtain ⟨u, again, rows, _⟩ := back (List.cons_ne_nil _ _) nofun [("c", 1)] (List.cons_ne_nil _ _) (by simp)
  exact ⟨_, run.next (.fail (t := 0) rfl (Or.inl rfl)), rfl, left, u, again, rows⟩

/-- The batch is put back and flushed again, and after the next create of the
thread two hits of "a" count as four. -/
theorem failed_row_counts_twice :
    let counter : HitCounter := { lastFlush := 0, counts := .replicate 2 "a" + .replicate (2 ^ 63) "b" }
    let flushed := counter.swap 1
    let again := (flushed.2.merge flushed.1).swap 2
    (∀ code, LinkTables.total tooLarge code = flushed.1.count code) ∧ again.1 = flushed.1 ∧
    ∃ s' u : LinkConnections Nat,
      Run Step (start .empty fun _ => 0)
        [.recordHits 0 tooLarge, .row 0, .fail 0, .recordHits 0 tooLarge, .row 0, .fail 0] s' ∧
      s'.phase 0 = .raised .sqlite ∧
      Run Step s' [.create 0 ⟨"c", "https://example.com", none, none, 1000⟩, .insert 0, .commit 0] u ∧
      u.db.committed.rowsOf 0 = [("a", 2)] ∧ u.db.committed.hits "a" = 4 := by
  have nonempty : tooLarge ≠ [] := List.cons_ne_nil _ _
  refine ⟨fun code => ?_, zero_add _, _, _, .cons (.recordHits (t := 0) rfl nonempty) <|
    .cons (.row (t := 0) rfl (by decide) rfl) <| .cons (.fail (t := 0) rfl (Or.inl rfl)) <|
    .cons (.recordHits (t := 0) rfl nonempty) <| .cons (.row (t := 0) rfl (by decide) rfl) <|
    .single (.fail (t := 0) rfl (Or.inl rfl)), rfl,
    .cons (.create (t := 0) rfl) <| .cons (.insert (t := 0) rfl rfl rfl) <| .single (.commitLink (t := 0) rfl),
    rfl, rfl⟩
  simp only [HitCounter.swap, Multiset.count_add, Multiset.count_replicate, tooLarge, LinkTables.total]
  by_cases first : "a" = code
  · subst first
    rfl
  · by_cases second : "b" = code
    · subst second
      rfl
    · simp [first, second]

end LinkConnections
end UrlShortener
