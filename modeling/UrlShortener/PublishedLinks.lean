import UrlShortener.LinkConnections

namespace UrlShortener
open SingleWriter Transition

namespace LinkStore

/-- The table after these rows have been inserted, one by one. -/
def insertAll (s : LinkStore) (links : List Link) : LinkStore :=
  links.foldl insert s

variable (s : LinkStore) {links : List Link} {link : Link} {code : String}

theorem insertAll_cons (first : Link) (rest : List Link) :
    s.insertAll (first :: rest) = (s.insert first).insertAll rest := rfl

theorem insertAll_snoc (links : List Link) (last : Link) :
    s.insertAll (links ++ [last]) = (s.insertAll links).insert last := by
  rw [insertAll, List.foldl_append]
  rfl

theorem get_insertAll_other (absent : ∀ link ∈ links, link.code ≠ code) :
    (s.insertAll links).get code = s.get code := by
  induction links generalizing s with
  | nil => rfl
  | cons first rest ih =>
    have different := absent first (List.mem_cons_self ..)
    rw [insertAll_cons, ih (s.insert first) fun link member => absent link (List.mem_cons_of_mem _ member),
      s.get_insert_other different.symm]

theorem get_insertAll (distinct : (links.map Link.code).Nodup) (member : link ∈ links) :
    (s.insertAll links).get link.code = some link := by
  induction links generalizing s with
  | nil => cases member
  | cons first rest ih =>
    obtain ⟨alone, distinct⟩ := List.nodup_cons.mp distinct
    rw [insertAll_cons]
    rcases List.mem_cons.mp member with rfl | later
    · have absent : ∀ other ∈ rest, other.code ≠ link.code := by
        intro other there same
        exact alone (same ▸ List.mem_map_of_mem there)
      rw [get_insertAll_other _ absent, get_insert_self]
    · exact ih _ distinct later

theorem count_insertAll (distinct : (links.map Link.code).Nodup) (fresh : ∀ link ∈ links, s.get link.code = none) :
    (s.insertAll links).count = s.count + links.length := by
  induction links generalizing s with
  | nil => rfl
  | cons first rest ih =>
    obtain ⟨alone, distinct⟩ := List.nodup_cons.mp distinct
    have free : ∀ link ∈ rest, (s.insert first).get link.code = none := by
      intro link later
      have different : link.code ≠ first.code := fun same => alone (same ▸ List.mem_map_of_mem later)
      rw [s.get_insert_other different, fresh link (List.mem_cons_of_mem _ later)]
    rw [insertAll_cons, ih _ distinct free, count_insert (fresh first (List.mem_cons_self ..)), List.length_cons]
    omega

end LinkStore

namespace LinkConnections
variable {τ : Type} [DecidableEq τ]

/-- The links returned so far are the rows of the file, and a snapshot has those
among them that were committed by its time. -/
structure Kept (initial : LinkStore) (s : LinkConnections τ) : Prop where
  committed : s.db.committed.links = initial.insertAll (s.published.map Prod.snd)
  distinct : (s.published.map fun item => item.2.code).Nodup
  fresh : ∀ item ∈ s.published, initial.get item.2.code = none
  numbered : ∀ item ∈ s.published, item.1 ≤ s.db.version
  returned : ∀ {t link}, s.phase t = .returned (.link link) → ∃ number, (number, link) ∈ s.published
  snapshot : ∀ {t version snapshot}, s.db.access t = .reading version snapshot →
    snapshot.links = initial.insertAll ((s.published.filter (·.1 ≤ version)).map Prod.snd)
  unwritten : ∀ {t working}, s.db.store.writer = some (t, working) → (∀ link, s.phase t ≠ .created link) →
    working.links = s.db.committed.links
  created : ∀ {t link}, s.phase t = .created link → ∃ working, s.db.store.writer = some (t, working) ∧
    s.db.committed.links.get link.code = none ∧ working.links = s.db.committed.links.insert link

variable {s s' u : LinkConnections τ} {label : Statement τ} {t v : τ} {trace later : List (Statement τ)}
  {initial : LinkStore} {hits : LinkHits} {link : Link}

/-- A link is returned by the COMMIT that publishes it. -/
theorem Step.published (taken : s.Step label s') :
    (∃ link, label = .commit label.thread ∧ s.phase label.thread = .created link ∧
      s'.phase label.thread = .returned (.link link) ∧ s'.db = s.db.commit label.thread ∧
      s'.published = s.published ++ [(s.db.version + 1, link)]) ∨
    s'.published = s.published ∧ (∀ link, s'.phase label.thread ≠ .returned (.link link)) ∧
      (label = .commit label.thread → ∀ link, s.phase label.thread ≠ .created link) := by
  cases taken with
  | @commitLink t link phase => exact Or.inl ⟨link, rfl, phase, advance_self .., rfl, rfl⟩
  | @commitHits t id done phase =>
    refine Or.inr ⟨rfl, fun link => ?_, fun _ link => ?_⟩
    · rw [Statement.thread, advance_self]
      exact nofun
    · rw [Statement.thread, phase]
      exact nofun
  | @read t query free =>
    refine Or.inr ⟨rfl, fun link => ?_, nofun⟩
    rw [Statement.thread, advance_self]
    cases query <;> exact nofun
  | @conflict t call round db phase acquired _ =>
    refine Or.inr ⟨rfl, fun link => ?_, nofun⟩
    rw [Statement.thread, advance_self]
    cases round <;> exact nofun
  | _ =>
    refine Or.inr ⟨rfl, fun link => ?_, nofun⟩
    rw [Statement.thread, advance_self]
    exact nofun

theorem Step.created (taken : s.Step label s') (here : s'.phase label.thread = .created link) :
    ∃ (call : CreateCall) (db : Database τ LinkTables) (links : LinkStore),
      call.apply (db.view label.thread).links = some (link, links) ∧
      (∀ link, s.phase label.thread ≠ .created link) ∧ s.db.acquire label.thread = some db ∧
      s'.db = db.write label.thread fun tables => { tables with links := links } := by
  cases taken with
  | @insert t call round db link links phase acquired stored =>
    cases (advance_self ..).symm.trans here
    refine ⟨call, db, links, stored, fun link => ?_, acquired, rfl⟩
    rw [Statement.thread, phase]
    exact nofun
  | @conflict t call round db phase acquired _ =>
    have same := (advance_self ..).symm.trans here
    cases round <;> cases same
  | _ => cases (advance_self ..).symm.trans here

/-- What the connection of a thread would go on writing has the links of the
file, unless its INSERT waits for the COMMIT. -/
theorem Kept.links_view (kept : s.Kept initial) (idle : ∀ link, s.phase t ≠ .created link) :
    (s.db.store.view t).links = s.db.committed.links := by
  by_cases own : s.db.Holds t
  · obtain ⟨working, held⟩ := own
    rw [view_writer held, kept.unwritten held idle]
  · rw [view_idle own]

/-- Only the COMMIT of a link changes the links of the file. -/
theorem Kept.committed_step (kept : s.Kept initial) (taken : s.Step label s')
    (quiet : label = .commit label.thread → ∀ link, s.phase label.thread ≠ .created link) :
    s'.db.committed.links = s.db.committed.links := by
  rcases taken.touches with ⟨_, touches⟩ | ⟨_, ⟨commits, committed⟩ | rolledBack⟩
  · rw [touches.committed]
  · rw [committed]
    by_cases own : s.db.Holds label.thread
    · obtain ⟨working, held⟩ := own
      have stored : (s.db.commit label.thread).committed = working := congrArg Store.committed (commit_writer held)
      rw [stored, kept.unwritten held (quiet commits)]
    · exact congrArg (fun store => store.committed.links) (commit_idle own)
  · rw [rolledBack]
    exact congrArg LinkTables.links rollback_committed

theorem Kept.created_step (kept : s.Kept initial) (taken : s.Step label s') (here : s'.phase v = .created link) :
    ∃ working, s'.db.store.writer = some (v, working) ∧ s'.db.committed.links.get link.code = none ∧
      working.links = s'.db.committed.links.insert link := by
  by_cases own : v = label.thread
  · subst own
    obtain ⟨call, db, links, stored, idle, acquired, written⟩ := taken.created here
    rw [Database.acquire_view acquired, kept.links_view idle] at stored
    obtain ⟨free, code, _, rfl⟩ := LinkStore.create_cases stored
    rw [← code] at free
    obtain ⟨_, _, rfl⟩ := Database.acquire_iff.mp acquired
    have same : s'.db.committed = s.db.committed := by
      rw [written]
      exact (Database.Touches.wrote _ acquired).committed
    rw [same, written, Database.write, write_writer rfl]
    exact ⟨_, rfl, free, rfl⟩
  · obtain ⟨working, held, free, inserted⟩ := kept.created ((taken.phase_other own).symm.trans here)
    have store := taken.store_of_holds ⟨working, held⟩ own
    rw [Database.committed, store]
    exact ⟨working, held, free, inserted⟩

theorem Phase.free_idle {phase : Phase} (free : phase.free) (link : Link) : phase ≠ .created link := by
  rintro rfl
  cases free

theorem Phase.inserts_idle {phase : Phase} (inserts : phase.inserts) (link : Link) : phase ≠ .created link := by
  rintro rfl
  cases inserts

/-- What a statement leaves its own connection with in its transaction. -/
theorem Step.own_writer (taken : s.Step label s') (holds : s'.db.Holds label.thread)
    (idle : ∀ link, s'.phase label.thread ≠ .created link) :
    (∀ link, s.phase label.thread ≠ .created link) ∧ (s'.db.store = s.db.store ∨
      ∃ db, s.db.acquire label.thread = some db ∧ (s'.db = db ∨
        ∃ id item, s'.db = db.write label.thread (·.upsert id item))) := by
  cases taken with
  | create free => exact ⟨Phase.free_idle free, Or.inl rfl⟩
  | allocate free => exact ⟨Phase.free_idle free, Or.inl rfl⟩
  | recordNothing free => exact ⟨Phase.free_idle free, Or.inl rfl⟩
  | recordHits free _ => exact ⟨Phase.free_idle free, Or.inl rfl⟩
  | read free => exact ⟨Phase.free_idle free, Or.inl (Database.read_store ..)⟩
  | attempt phase => exact ⟨by rw [Statement.thread, phase]; exact nofun, Or.inl rfl⟩
  | giveUp phase => exact ⟨by rw [Statement.thread, phase]; exact nofun, Or.inl rfl⟩
  | insert _ _ _ => exact absurd (advance_self ..) (idle _)
  | conflict phase acquired _ =>
    exact ⟨by rw [Statement.thread, phase]; exact nofun, Or.inr ⟨_, acquired, Or.inl rfl⟩⟩
  | row phase _ acquired =>
    exact ⟨by rw [Statement.thread, phase]; exact nofun, Or.inr ⟨_, acquired, Or.inr ⟨_, _, rfl⟩⟩⟩
  | commitLink _ => exact absurd rfl (holds_of_commit holds).1
  | commitHits _ => exact absurd rfl (holds_of_commit holds).1
  | locked inserts _ => exact ⟨Phase.inserts_idle inserts, Or.inl (Database.enter_store ..)⟩
  | fail inserts tried =>
    refine ⟨Phase.inserts_idle inserts, ?_⟩
    rcases tried with rfl | rfl | acquired
    · exact Or.inl rfl
    · exact Or.inl (Database.enter_store ..)
    · exact Or.inr ⟨_, acquired, Or.inl rfl⟩
  | abort _ => exact absurd rfl (holds_of_rollback holds).1

theorem Kept.unwritten_step (kept : s.Kept initial) (taken : s.Step label s') {working : LinkTables}
    (held : s'.db.store.writer = some (v, working)) (idle : ∀ link, s'.phase v ≠ .created link) :
    working.links = s'.db.committed.links := by
  by_cases own : v = label.thread
  · subst own
    obtain ⟨before, store | ⟨db, acquired, opened⟩⟩ := taken.own_writer ⟨working, held⟩ idle
    · rw [store] at held
      rw [Database.committed, store]
      exact kept.unwritten held before
    · obtain ⟨_, _, rfl⟩ := Database.acquire_iff.mp acquired
      rcases opened with opened | ⟨id, item, opened⟩
      · rw [opened] at held ⊢
        cases held
        exact kept.links_view before
      · rw [opened, Database.write, write_writer rfl] at held
        rw [opened, Database.committed, Database.write, write_committed]
        cases held
        exact kept.links_view before
  · have before := taken.holds_other own ⟨working, held⟩
    have store := taken.store_of_holds before own
    rw [store] at held
    rw [Database.committed, store]
    exact kept.unwritten held fun link => taken.phase_other own ▸ idle link

theorem Step.version_le (taken : s.Step label s') : s.db.version ≤ s'.db.version := by
  rcases taken.touches with ⟨_, touches⟩ | ⟨_, ⟨_, committed⟩ | rolledBack⟩
  · exact touches.same_version.ge
  · exact committed ▸ Database.commit_version_le ..
  · exact rolledBack ▸ Nat.le_refl _

theorem Step.reading (taken : s.Step label s') {version : Nat} {snapshot : LinkTables}
    (reading : s'.db.access v = .reading version snapshot) :
    s.db.access v = .reading version snapshot ∨
      label.ends = false ∧ version = s.db.version ∧ snapshot = s.db.committed := by
  rcases taken.touches with ⟨still, touches⟩ | ⟨_, ⟨_, committed⟩ | rolledBack⟩
  · exact (touches.reading reading).imp_right fun now => ⟨still, now⟩
  · rw [committed] at reading
    exact Or.inl (Database.commit_reading reading).2
  · rw [rolledBack] at reading
    exact Or.inl (Database.rollback_reading reading).2

omit [DecidableEq τ] in
/-- All that has been returned has been committed by now. -/
theorem Kept.filter_all (kept : s.Kept initial) :
    s.published.filter (fun item => item.1 ≤ s.db.version) = s.published :=
  List.filter_eq_self.mpr fun item member => decide_eq_true (kept.numbered item member)

theorem Kept.publish_step (kept : s.Kept initial) (consistent : s.db.Consistent) (taken : s.Step label s')
    (phase : s.phase label.thread = .created link) (after : s'.phase label.thread = .returned (.link link))
    (db : s'.db = s.db.commit label.thread)
    (published : s'.published = s.published ++ [(s.db.version + 1, link)]) : s'.Kept initial := by
  obtain ⟨working, held, free, inserted⟩ := kept.created phase
  have stored : s'.db.committed = working := by
    rw [db]
    exact congrArg Store.committed (commit_writer held)
  have version : s'.db.version = s.db.version + 1 := by rw [db, Database.commit_version_of_writer held]
  have unused : ∀ item ∈ s.published, item.2.code ≠ link.code := by
    intro item member same
    have distinct : ((s.published.map Prod.snd).map Link.code).Nodup := by
      rw [List.map_map]
      exact kept.distinct
    have there := initial.get_insertAll distinct (List.mem_map_of_mem member)
    rw [← kept.committed, same, free] at there
    cases there
  refine ⟨?_, ?_, fun item member => ?_, fun item member => ?_, fun {t found} here => ?_,
    fun {t version snapshot} reading => ?_, kept.unwritten_step taken, kept.created_step taken⟩
  · rw [stored, inserted, kept.committed, published, List.map_append, List.map_singleton, LinkStore.insertAll_snoc]
  · rw [published, List.map_append, List.nodup_append]
    refine ⟨kept.distinct, List.nodup_singleton _, fun code before other last same => ?_⟩
    obtain ⟨item, member, rfl⟩ := List.mem_map.mp before
    rw [List.map_singleton, List.mem_singleton] at last
    exact unused item member (same.trans last)
  · rw [published] at member
    rcases List.mem_append.mp member with before | last
    · exact kept.fresh item before
    · have codes : ∀ row ∈ s.published.map Prod.snd, row.code ≠ link.code := by
        intro row there
        obtain ⟨item, member, rfl⟩ := List.mem_map.mp there
        exact unused item member
      rw [List.mem_singleton.mp last, ← initial.get_insertAll_other codes, ← kept.committed, free]
  · rw [published] at member
    rw [version]
    rcases List.mem_append.mp member with before | last
    · exact Nat.le_succ_of_le (kept.numbered item before)
    · exact (congrArg Prod.fst (List.mem_singleton.mp last)).le
  · rw [published]
    by_cases own : t = label.thread
    · subst own
      cases after.symm.trans here
      exact ⟨_, List.mem_append_right _ (List.mem_singleton_self _)⟩
    · obtain ⟨number, member⟩ := kept.returned ((taken.phase_other own).symm.trans here)
      exact ⟨number, List.mem_append_left _ member⟩
  · rw [db] at reading
    obtain ⟨_, before⟩ := Database.commit_reading reading
    have past := (consistent.past before).1
    have later : ¬ s.db.version + 1 ≤ version := by omega
    rw [published, List.filter_append, List.filter_cons_of_neg (by simpa using later), List.filter_nil,
      List.append_nil, kept.snapshot before]

theorem Kept.step (kept : s.Kept initial) (consistent : s.db.Consistent) (taken : s.Step label s') :
    s'.Kept initial := by
  rcases taken.published with ⟨link, _, phase, after, db, published⟩ | ⟨published, other, quiet⟩
  · exact kept.publish_step consistent taken phase after db published
  · have committed := kept.committed_step taken quiet
    refine ⟨?_, published ▸ kept.distinct, published ▸ kept.fresh, fun item member => ?_, fun {t link} here => ?_,
      fun {t version snapshot} reading => ?_, kept.unwritten_step taken, kept.created_step taken⟩
    · rw [committed, kept.committed, published]
    · rw [published] at member
      exact (kept.numbered item member).trans taken.version_le
    · rw [published]
      by_cases own : t = label.thread
      · subst own
        exact absurd here (other link)
      · exact kept.returned ((taken.phase_other own).symm.trans here)
    · rw [published]
      rcases taken.reading reading with before | ⟨_, rfl, rfl⟩
      · exact kept.snapshot before
      · rw [kept.filter_all]
        exact kept.committed

theorem kept_of_run (run : Run Step (start initial hits) trace s) : s.Kept initial := by
  induction run with
  | start => exact ⟨rfl, List.nodup_nil, nofun, nofun, nofun, nofun, nofun, nofun⟩
  | next before taken ih => exact ih.step (consistent_of_run before) taken

/-- A connection whose thread is between two calls reads the links that have been
returned, up to its snapshot. -/
theorem Kept.view (kept : s.Kept initial) (free : (s.phase t).free) :
    (s.db.view t).links = initial.insertAll ((s.published.filter fun item => s.db.sees t item.1).map Prod.snd) := by
  cases access : s.db.access t with
  | reading version snapshot =>
    rw [Database.view_reading access, kept.snapshot access]
    simp only [Database.sees, access]
  | _ =>
    have unread : ∀ version snapshot, s.db.access t ≠ .reading version snapshot := by rw [access]; exact nofun
    have all : s.published.filter (fun item => s.db.sees t item.1) = s.published := by
      simp only [Database.sees, access, List.filter_true]
    rw [Database.view_other unread, all, ← kept.committed]
    exact kept.links_view (Phase.free_idle free)

/-- The statements of the rounds of a thread that have met a taken code. -/
def Statement.rounds (t : τ) (tries : List (String × Int)) : List (Statement τ) :=
  tries.flatMap fun draw => [.attempt t draw.1 draw.2, .conflict t]

omit [DecidableEq τ] in
theorem Statement.rounds_snoc (t : τ) (tries : List (String × Int)) (code : String) (clock : Int) :
    Statement.rounds t (tries ++ [(code, clock)]) =
      Statement.rounds t tries ++ [.attempt t code clock] ++ [.conflict t] := by
  rw [rounds, rounds, List.flatMap_append, List.flatMap_singleton, List.append_assoc, List.singleton_append]

/-- What a thread in `allocate` has done since it called it. -/
def Phase.Tried (t : τ) (own : List (Statement τ)) : Phase → Prop
  | allocating a target ttlSeconds left => ∃ before tries,
      own = before ++ .allocate t a target ttlSeconds :: Statement.rounds t tries ∧
        tries.length + left = a.maxAttempts
  | creating call (some (a, left)) => ∃ before tries,
      own = before ++ .allocate t a call.target call.ttlSeconds ::
        (Statement.rounds t tries ++ [.attempt t call.code call.clock]) ∧
        tries.length + 1 + left = a.maxAttempts
  | _ => True

theorem Step.tried (taken : s.Step label s') {own : List (Statement τ)}
    (tried : (s.phase label.thread).Tried label.thread own) :
    (s'.phase label.thread).Tried label.thread (own ++ [label]) := by
  cases taken with
  | @allocate t a target ttlSeconds _ =>
    rw [Statement.thread, advance_self]
    exact ⟨own, [], rfl, Nat.zero_add _⟩
  | @attempt t a target ttlSeconds left code clock phase =>
    rw [Statement.thread, phase] at tried
    rw [Statement.thread, advance_self]
    obtain ⟨before, tries, rfl, rounds⟩ := tried
    exact ⟨before, tries, List.append_assoc .., by omega⟩
  | @conflict t call round db phase _ _ =>
    rw [Statement.thread, phase] at tried
    rw [Statement.thread, advance_self]
    cases round with
    | none => trivial
    | some round =>
      obtain ⟨a, left⟩ := round
      obtain ⟨before, tries, rfl, rounds⟩ := tried
      refine ⟨before, tries ++ [(call.code, call.clock)], ?_, ?_⟩
      · rw [Statement.rounds_snoc, List.append_assoc, List.cons_append]
      · rw [List.length_append, List.length_singleton, rounds]
  | _ =>
    rw [Statement.thread, advance_self]
    trivial

theorem tried_of_run (run : Run Step (start initial hits) trace s) (t : τ) :
    (s.phase t).Tried t (trace.filter (·.thread = t)) := by
  induction run with
  | start => trivial
  | @next trace _ label _ _ taken ih =>
    rw [List.filter_append]
    by_cases own : t = label.thread
    · subst own
      rw [List.filter_cons_of_pos (by simp), List.filter_nil]
      exact taken.tried ih
    · rw [List.filter_cons_of_neg (by simpa using Ne.symm own), List.filter_nil, List.append_nil,
        taken.phase_other own]
      exact ih

theorem published_prefix (run : Run Step s later u) : s.published <+: u.published := by
  induction run with
  | start => exact List.prefix_refl _
  | next _ taken ih =>
    rcases taken.published with ⟨_, _, _, _, _, published⟩ | ⟨published, _⟩
    · exact published ▸ ih.trans (List.prefix_append ..)
    · exact published ▸ ih

omit [DecidableEq τ] in
theorem Kept.distinct_links (kept : s.Kept initial) (p : Nat × Link → Bool) :
    (((s.published.filter p).map Prod.snd).map Link.code).Nodup := by
  rw [List.map_map]
  exact kept.distinct.sublist (List.filter_sublist.map _)

omit [DecidableEq τ] in
theorem Kept.count_links (kept : s.Kept initial) (p : Nat × Link → Bool) :
    (initial.insertAll ((s.published.filter p).map Prod.snd)).count =
      initial.count + (s.published.filter p).length := by
  rw [initial.count_insertAll (kept.distinct_links p), List.length_map]
  intro link member
  obtain ⟨item, there, rfl⟩ := List.mem_map.mp member
  exact kept.fresh item (List.mem_of_mem_filter there)

omit [DecidableEq τ] in
theorem Kept.get_link_iff (kept : s.Kept initial) (p : Nat × Link → Bool) {item : Nat × Link}
    (member : item ∈ s.published) :
    (initial.insertAll ((s.published.filter p).map Prod.snd)).get item.2.code = some item.2 ↔ p item := by
  constructor
  · intro found
    by_contra outside
    have absent : ∀ link ∈ (s.published.filter p).map Prod.snd, link.code ≠ item.2.code := by
      intro link there same
      obtain ⟨other, seen, rfl⟩ := List.mem_map.mp there
      obtain ⟨known, holds⟩ := List.mem_filter.mp seen
      have equal : other = item := List.inj_on_of_nodup_map kept.distinct known member same
      exact outside (equal ▸ holds)
    rw [initial.get_insertAll_other absent, kept.fresh item member] at found
    cases found
  · intro seen
    exact initial.get_insertAll (kept.distinct_links p) (List.mem_map_of_mem (List.mem_filter.mpr ⟨member, seen⟩))

/-- A thread reads what has been returned, and counts it, as far as the snapshot
of its connection goes. -/
theorem Kept.reads_iff (kept : s.Kept initial) (free : (s.phase t).free) :
    ((∀ item ∈ s.published, Query.answer (s.db.view t) (.get item.2.code) = .found (some item.2)) ∧
      Query.answer (s.db.view t) .count = .number (initial.count + s.published.length)) ↔
    ∀ item ∈ s.published, s.db.sees t item.1 = true := by
  have view := kept.view free
  constructor
  · rintro ⟨found, _⟩ item member
    have here := Result.found.inj (found item member)
    rw [view] at here
    exact (kept.get_link_iff _ member).mp here
  · intro seen
    refine ⟨fun item member => ?_, ?_⟩
    · rw [Query.answer, view, (kept.get_link_iff _ member).mpr (seen item member)]
    · rw [Query.answer, view, kept.count_links, List.filter_eq_self.mpr seen]

/-- No code is given twice and no row is overwritten, whatever codes are drawn
and however the statements of the threads interleave. But a thread reads all that
has been returned exactly while its connection reads no snapshot older than that. -/
theorem returned_links_read_iff (run : Run Step (start initial hits) trace s) :
    (s.published.map fun item => item.2.code).Nodup ∧
    (∀ t link, s.phase t = .returned (.link link) → ∃ number, (number, link) ∈ s.published) ∧
    (∀ later u, Run Step s later u → s.published <+: u.published ∧
      ∀ item ∈ s.published, u.db.committed.links.get item.2.code = some item.2) ∧
    (∀ label s', s.Step label s' →
      (s'.published = s.published ∧ s'.db.committed.links = s.db.committed.links) ∨
      ∃ link, label = .commit label.thread ∧ s'.phase label.thread = .returned (.link link) ∧
        s'.published = s.published ++ [(s.db.version + 1, link)] ∧ s.db.committed.links.get link.code = none) ∧
    (∀ t s', s.Step (.giveUp t) s' → ∃ before a target ttlSeconds tries,
      trace.filter (·.thread = t) = before ++ .allocate t a target ttlSeconds :: Statement.rounds t tries ∧
      tries.length = a.maxAttempts ∧ s'.phase t = .raised (.runtimeError a.exhausted)) ∧
    s.db.committed.links.count = initial.count + s.published.length ∧
    ∀ t, (s.phase t).free →
      (((∀ item ∈ s.published, Query.answer (s.db.view t) (.get item.2.code) = .found (some item.2)) ∧
        Query.answer (s.db.view t) .count = .number (initial.count + s.published.length)) ↔
      ∀ item ∈ s.published, s.db.sees t item.1 = true) := by
  have kept := kept_of_run run
  have all : s.published.filter (fun _ => true) = s.published := List.filter_true _
  refine ⟨kept.distinct, fun t link => kept.returned, fun later u rest => ?_, fun label s' taken => ?_,
    fun t s' taken => ?_, ?_, fun t free => kept.reads_iff free⟩
  · have published := published_prefix rest
    have kept' := kept_of_run (run.append rest)
    refine ⟨published, fun item member => ?_⟩
    have all' : u.published.filter (fun _ => true) = u.published := List.filter_true _
    rw [kept'.committed, ← all']
    exact (kept'.get_link_iff _ (published.subset member)).mpr rfl
  · rcases taken.published with ⟨link, commits, phase, after, _, published⟩ | ⟨published, _, quiet⟩
    · obtain ⟨_, _, free, _⟩ := kept.created phase
      exact Or.inr ⟨link, commits, after, published, free⟩
    · exact Or.inl ⟨published, kept.committed_step taken quiet⟩
  · have tried := tried_of_run run t
    cases taken with
    | @giveUp t a target ttlSeconds phase =>
      rw [phase] at tried
      obtain ⟨before, tries, own, rounds⟩ := tried
      exact ⟨before, a, target, ttlSeconds, tries, own, rounds, advance_self ..⟩
  · rw [kept.committed, ← all, kept.count_links]

/-- Two calls draw the same code, and the second one has a single attempt. -/
theorem returned_links_read_collision : ∃ s : LinkConnections Nat,
    Run Step (start .empty fun _ => 0)
      [.allocate 0 {} "https://example.com" none, .attempt 0 "c" 7, .insert 0, .commit 0,
        .allocate 1 { maxAttempts := 1 } "https://example.org" none, .attempt 1 "c" 8, .conflict 1, .giveUp 1] s ∧
    s.phase 1 = .raised (.runtimeError (CodeAllocator.exhausted { maxAttempts := 1 })) ∧
    (∀ item ∈ s.published, Query.answer (s.db.view 1) (.get item.2.code) = .found (some item.2)) ∧
    Query.answer (s.db.view 1) .count = .number 1 := by
  have executed : ∃ s : LinkConnections Nat, Run Step (start .empty fun _ => 0)
      [.allocate 0 {} "https://example.com" none, .attempt 0 "c" 7, .insert 0, .commit 0,
        .allocate 1 { maxAttempts := 1 } "https://example.org" none, .attempt 1 "c" 8, .conflict 1, .giveUp 1] s ∧
      s.phase 1 = .raised (.runtimeError (CodeAllocator.exhausted { maxAttempts := 1 })) ∧
      s.db.access 1 = .writing ∧ s.published.length = 1 :=
    ⟨_, .cons (.allocate (t := 0) rfl) <| .cons (.attempt (t := 0) rfl) <| .cons (.insert (t := 0) rfl rfl rfl) <|
      .cons (.commitLink (t := 0) rfl) <| .cons (.allocate (t := 1) rfl) <| .cons (.attempt (t := 1) rfl) <|
      .cons (.conflict (t := 1) rfl rfl rfl) <| .single (.giveUp (t := 1) rfl), rfl, rfl, rfl⟩
  obtain ⟨s, run, raised, writing, one⟩ := executed
  have seen : ∀ item ∈ s.published, s.db.sees 1 item.1 = true := by
    intro item _
    rw [Database.sees, writing]
  obtain ⟨_, _, _, _, _, _, reads⟩ := returned_links_read_iff run
  obtain ⟨found, count⟩ := (reads 1 (by rw [raised]; rfl)).mpr seen
  exact ⟨s, run, raised, found, by rw [count, one]; rfl⟩

/-- The first thread allocates "a", and a second allocate of it has only the
attempt "a" and keeps the lock. So the second thread finds the database locked and
stays in its transaction, and after it has read "a" it misses the next link. -/
theorem returned_link_unread : ∃ s u : LinkConnections Nat,
    Run Step (start .empty fun _ => 0)
      [.allocate 0 {} "https://example.com" none, .attempt 0 "a" 1, .insert 0, .commit 0,
        .allocate 0 { maxAttempts := 1 } "https://example.com" none, .attempt 0 "a" 2, .conflict 0, .giveUp 0,
        .allocate 1 {} "https://example.org" none, .attempt 1 "b" 3, .locked 1, .read 1 (.get "a"),
        .allocate 0 {} "https://example.net" none, .attempt 0 "c" 4, .insert 0, .commit 0] s ∧
    s.phase 0 = .returned (.link ⟨"c", "https://example.net", 4, none⟩) ∧ s.published.length = 2 ∧
    Run Step s [.read 1 (.get "c")] u ∧ u.phase 1 = .returned (.found none) ∧
    ∃ u', Run Step u [.read 1 .count] u' ∧ u'.phase 1 = .returned (.number 1) := by
  refine ⟨_, _, .cons (.allocate (t := 0) rfl) <| .cons (.attempt (t := 0) rfl) <|
    .cons (.insert (t := 0) rfl rfl rfl) <| .cons (.commitLink (t := 0) rfl) <|
    .cons (.allocate (t := 0) rfl) <| .cons (.attempt (t := 0) rfl) <|
    .cons (.conflict (t := 0) rfl rfl rfl) <| .cons (.giveUp (t := 0) rfl) <|
    .cons (.allocate (t := 1) rfl) <| .cons (.attempt (t := 1) rfl) <| .cons (.locked (t := 1) rfl rfl) <|
    .cons (.read (t := 1) rfl) <| .cons (.allocate (t := 0) rfl) <| .cons (.attempt (t := 0) rfl) <|
    .cons (.insert (t := 0) rfl rfl rfl) <| .single (.commitLink (t := 0) rfl),
    rfl, rfl, .single (.read (t := 1) rfl), rfl, _, .single (.read (t := 1) rfl), rfl⟩

end LinkConnections
end UrlShortener
