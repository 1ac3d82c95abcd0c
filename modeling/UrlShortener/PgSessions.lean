import UrlShortener.General.RowLocks
import UrlShortener.PgLinkStore

namespace UrlShortener
open RowLocks Tables Transition

namespace PgHistory

deriving instance DecidableEq for Call

end PgHistory

/-- What a call of the store returns; `created none` stands for the KeyError. -/
inductive PgOutcome
  | created (link : Option Link)
  | recorded (count : Nat)
  | found (link : Option Link)
  | counted (hits : Int)
  | purged (count : Nat)
  deriving DecidableEq

/-- The call changes a table when its transaction commits. -/
def PgOutcome.writes : PgOutcome → Bool
  | .created link => link.isSome
  | .recorded _ => true
  | .found _ => false
  | .counted _ => false
  | .purged _ => true

/-- Where the transaction of a call stands. -/
inductive PgPhase
  | statement
  /-- `executemany` has these items of `count` left. -/
  | writing (rest : List (String × Int)) (count : Nat)
  /-- The DELETE has these rows of its snapshot left and has removed `gone` others. -/
  | sweeping (rest : List (String × Nat)) (gone : Nat)
  /-- All statements have run, and `transaction()` is about to commit. -/
  | done (outcome : PgOutcome)
  | returned (outcome : PgOutcome)
  | raised
  deriving DecidableEq

section
variable {T : Type} [LinearOrder T]

structure PgSession (T : Type) where
  call : PgHistory.Call T
  phase : PgPhase
  deriving DecidableEq

/-- The database with the calls that are made of it, each a transaction of its
own under READ COMMITTED. A row of `links` is kept with the call that inserted it. -/
structure PgSessions (tz : Timestamps T) where
  links : Heap Nat String (Nat × PgRow tz)
  linkHits : Heap Nat String Int
  calls : Nat → Option (PgSession T) := fun _ => none

variable {tz : Timestamps T}

/-- The link that `create` is about to insert. -/
def Link.requested (code target : String) (ttlSeconds nowMs : Option Int) (clock : Int) : Link :=
  let nowMs := (nowMs.filter (· ≠ 0)).getD clock
  ⟨code, target, nowMs, (ttlSeconds.filter (· ≠ 0)).map fun ttl => nowMs + ttl * 1000⟩

/-- The row of a link, as the parameters of the INSERT have it. -/
def PgRow.ofLink (tz : Timestamps T) (link : Link) : PgRow tz where
  target := link.target
  createdAt := tz.dt link.createdMs
  expiresAt := link.expiresMs.map tz.dt
  converted t member := by
    obtain ⟨n, _, same⟩ := Option.map_eq_some_iff.mp member
    exact ⟨n, same⟩

/-- The WHERE of `purge_expired`. -/
def PgRow.meets (row : PgRow tz) (nowMs : Option Int) (now : T) : Bool :=
  row.expiresAt.any (· ≤ (nowMs.map tz.dt).getD now)

namespace PgSessions

inductive Event (T : Type)
  | begin (id : Nat) (call : PgHistory.Call T)
  /-- The next row that the statement of a call takes up. -/
  | step (id : Nat)
  | commit (id : Nat)
  /-- The connection fails before the COMMIT is performed, or the database ends the
  transaction to break a deadlock. -/
  | abort (id : Nat)

def Event.actor : Event T → Nat
  | .begin id _ => id
  | .step id => id
  | .commit id => id
  | .abort id => id

def start : PgSessions tz :=
  { links := ⟨∅, ∅⟩, linkHits := ⟨∅, ∅⟩ }

def put (w : PgSessions tz) (id : Nat) (call : PgHistory.Call T) (phase : PgPhase) : PgSessions tz :=
  { w with calls := Function.update w.calls id (some ⟨call, phase⟩) }

/-- The rows that a DELETE of `purge_expired` takes into its snapshot. -/
def snapshot (w : PgSessions tz) (nowMs : Option Int) (now : T) : List (String × Nat) :=
  (w.links.committed.entries.filter fun row => row.2.2.meets nowMs now).map fun row => (row.1, row.2.1)

/-- The statement of a call, as far as it goes without another row; `none` while
it waits for the transaction that has locked its row. -/
def execute (w : PgSessions tz) (id : Nat) (call : PgHistory.Call T) : Option (PgSessions tz) :=
  match call with
  | .create code target ttlSeconds nowMs clock =>
    let link := Link.requested code target ttlSeconds nowMs clock
    if w.links.free id code then
      if (w.links.view id code).isSome then
        -- DO NOTHING: no row is returned
        some (w.put id call (.done (.created none)))
      else (w.links.write id code fun _ => some (id, PgRow.ofLink tz link)).map fun links =>
        { w with links := links }.put id call (.done (.created (some link)))
    else none
  | .recordHitsBulk counts => some (w.put id call (.writing counts counts.length))
  | .get code => some (w.put id call (.done (.found ((w.links.view id code).map fun row => row.2.link code))))
  | .hits code => some (w.put id call (.done (.counted ((w.linkHits.view id code).getD 0))))
  | .purgeExpired nowMs now => some (w.put id call (.sweeping (w.snapshot nowMs now) 0))

/-- A row of its snapshot that a DELETE comes to: it waits for the lock, and
leaves the row if it is no longer there. -/
def remove (w : PgSessions tz) (id : Nat) (row : String × Nat) (nowMs : Option Int) (now : T) :
    Option (Nat × Heap Nat String (Nat × PgRow tz)) :=
  if w.links.free id row.1 then
    if (w.links.view id row.1).any fun found => found.1 = row.2 && found.2.meets nowMs now then
      (w.links.write id row.1 fun _ => none).map fun links => (1, links)
    else some (0, w.links)
  else none

def advance (w : PgSessions tz) (id : Nat) (session : PgSession T) : Option (PgSessions tz) :=
  match session.call, session.phase with
  | call, .statement => w.execute id call
  | call, .writing [] count => some (w.put id call (.done (.recorded count)))
  | call, .writing (item :: rest) count =>
    -- hits = link_hits.hits + EXCLUDED.hits, on the row that is committed last
    (w.linkHits.write id item.1 fun hits => some (hits.getD 0 + item.2)).map fun linkHits =>
      { w with linkHits := linkHits }.put id call (.writing rest count)
  | call, .sweeping [] gone => some (w.put id call (.done (.purged gone)))
  | .purgeExpired nowMs now, .sweeping (row :: rest) gone =>
    (w.remove id row nowMs now).map fun removed =>
      { w with links := removed.2 }.put id (.purgeExpired nowMs now) (.sweeping rest (gone + removed.1))
  | _, _ => none

def perform (w : PgSessions tz) : Event T → Option (PgSessions tz)
  | .begin id call => match w.calls id with
    | none => some (w.put id call .statement)
    | some _ => none
  | .step id => (w.calls id).bind fun session => w.advance id session
  | .commit id => (w.calls id).bind fun session => match session.phase with
    | .done outcome =>
      some ({ w with links := w.links.commit id, linkHits := w.linkHits.commit id }.put id session.call
        (.returned outcome))
    | _ => none
  | .abort id => (w.calls id).bind fun session => match session.phase with
    | .returned _ => none
    | .raised => none
    | _ => some ({ w with links := w.links.rollback id, linkHits := w.linkHits.rollback id }.put id session.call
        .raised)

def Step (w : PgSessions tz) (event : Event T) (w' : PgSessions tz) : Prop :=
  w.perform event = some w'

/-- The writes of the items that `executemany` has come to. -/
def adds (items : List (String × Int)) : List (String × (Option Int → Option Int)) :=
  items.map fun item => (item.1, fun hits => some (hits.getD 0 + item.2))

def removals {ν : Type} (codes : List String) : List (String × (Option ν → Option ν)) :=
  codes.map fun code => (code, fun _ => none)

/-- The rows that a DELETE has locked still meet its condition. -/
def Removing (w : PgSessions tz) (id : Nat) (nowMs : Option Int) (now : T) (codes : List String) : Prop :=
  w.links.Reflects id (removals codes) ∧
    ∀ code ∈ codes, (w.links.committed.lookup code).any fun row => row.2.meets nowMs now

/-- What the transaction of a call has done, in each phase of it. -/
inductive Stands (w : PgSessions tz) (id : Nat) : PgHistory.Call T → PgPhase → Prop
  | statement {call} : w.links.Reflects id [] → w.linkHits.Reflects id [] → Stands w id call .statement
  | writing {before rest : List (String × Int)} : w.links.Reflects id [] → w.linkHits.Reflects id (adds before) →
      Stands w id (.recordHitsBulk (before ++ rest)) (.writing rest (before ++ rest).length)
  | recorded {counts : List (String × Int)} : w.links.Reflects id [] → w.linkHits.Reflects id (adds counts) →
      Stands w id (.recordHitsBulk counts) (.done (.recorded counts.length))
  | sweeping {nowMs now rest} {codes : List String} : w.Removing id nowMs now codes → w.linkHits.Reflects id [] →
      (codes ++ rest.map Prod.fst).Nodup → Stands w id (.purgeExpired nowMs now) (.sweeping rest codes.length)
  | purged {nowMs now} {codes : List String} : w.Removing id nowMs now codes → w.linkHits.Reflects id [] →
      codes.Nodup → Stands w id (.purgeExpired nowMs now) (.done (.purged codes.length))
  | won {code target ttlSeconds nowMs clock link} : link = Link.requested code target ttlSeconds nowMs clock →
      w.links.Reflects id [(code, fun _ => some (id, PgRow.ofLink tz link))] → w.linkHits.Reflects id [] →
      w.links.committed.lookup code = none →
      Stands w id (.create code target ttlSeconds nowMs clock) (.done (.created (some link)))
  | read {call} {outcome : PgOutcome} : w.links.Reflects id [] → w.linkHits.Reflects id [] →
      outcome.writes = false → Stands w id call (.done outcome)
  | returned {call outcome} : w.links.Reflects id [] → w.linkHits.Reflects id [] → Stands w id call (.returned outcome)
  | raised {call} : w.links.Reflects id [] → w.linkHits.Reflects id [] → Stands w id call .raised

variable {w w' : PgSessions tz} {id other : Nat} {call : PgHistory.Call T} {phase : PgPhase} {label : Event T}

theorem remove_eq_some {row : String × Nat} {nowMs : Option Int} {now : T}
    {removed : Nat × Heap Nat String (Nat × PgRow tz)} (ran : w.remove id row nowMs now = some removed) :
    ((w.links.view id row.1).any fun found => found.1 = row.2 && found.2.meets nowMs now) = false ∧
        removed = (0, w.links) ∨
      ∃ links, ((w.links.view id row.1).any fun found => found.1 = row.2 && found.2.meets nowMs now) = true ∧
        w.links.write id row.1 (fun _ => none) = some links ∧ removed = (1, links) := by
  obtain ⟨_, ran⟩ := Option.ite_none_right_eq_some.mp ran
  split at ran
  · rename_i there
    obtain ⟨links, wrote, rfl⟩ := Option.map_eq_some_iff.mp ran
    exact Or.inr ⟨links, there, wrote, rfl⟩
  · rename_i absent
    cases ran
    exact Or.inl ⟨Bool.eq_false_iff.mpr absent, rfl⟩

/-- A statement takes up one row at most, and locks it. -/
theorem advance_cases {session : PgSession T} (ran : w.advance id session = some w') :
    (∃ phase, w'.calls = Function.update w.calls id (some ⟨session.call, phase⟩)) ∧
      (w'.links = w.links ∧ w'.linkHits = w.linkHits ∨
        (∃ code f, w.links.write id code f = some w'.links) ∧ w'.linkHits = w.linkHits ∨
        w'.links = w.links ∧ ∃ code f, w.linkHits.write id code f = some w'.linkHits) := by
  obtain ⟨call, phase⟩ := session
  cases phase with
  | statement =>
    cases call with
    | create code target ttlSeconds nowMs clock =>
      obtain ⟨_, ran⟩ := Option.ite_none_right_eq_some.mp ran
      split at ran
      · cases ran
        exact ⟨⟨_, rfl⟩, Or.inl ⟨rfl, rfl⟩⟩
      · obtain ⟨links, wrote, rfl⟩ := Option.map_eq_some_iff.mp ran
        exact ⟨⟨_, rfl⟩, Or.inr (Or.inl ⟨⟨_, _, wrote⟩, rfl⟩)⟩
    | recordHitsBulk counts => cases ran; exact ⟨⟨_, rfl⟩, Or.inl ⟨rfl, rfl⟩⟩
    | get code => cases ran; exact ⟨⟨_, rfl⟩, Or.inl ⟨rfl, rfl⟩⟩
    | hits code => cases ran; exact ⟨⟨_, rfl⟩, Or.inl ⟨rfl, rfl⟩⟩
    | purgeExpired nowMs now => cases ran; exact ⟨⟨_, rfl⟩, Or.inl ⟨rfl, rfl⟩⟩
  | writing rest count =>
    cases rest with
    | nil =>
      cases call <;> cases ran <;> exact ⟨⟨_, rfl⟩, Or.inl ⟨rfl, rfl⟩⟩
    | cons item rest =>
      have moved : (w.linkHits.write id item.1 fun hits => some (hits.getD 0 + item.2)).map (fun linkHits =>
          { w with linkHits := linkHits }.put id call (.writing rest count)) = some w' := by
        cases call <;> exact ran
      obtain ⟨linkHits, wrote, rfl⟩ := Option.map_eq_some_iff.mp moved
      exact ⟨⟨_, rfl⟩, Or.inr (Or.inr ⟨rfl, _, _, wrote⟩)⟩
  | sweeping rest gone =>
    cases rest with
    | nil =>
      cases call <;> cases ran <;> exact ⟨⟨_, rfl⟩, Or.inl ⟨rfl, rfl⟩⟩
    | cons row rest =>
      cases call with
      | purgeExpired nowMs now =>
        obtain ⟨removed, came, rfl⟩ := Option.map_eq_some_iff.mp ran
        rcases remove_eq_some came with ⟨_, rfl⟩ | ⟨links, _, wrote, rfl⟩
        · exact ⟨⟨_, rfl⟩, Or.inl ⟨rfl, rfl⟩⟩
        · exact ⟨⟨_, rfl⟩, Or.inr (Or.inl ⟨⟨_, _, wrote⟩, rfl⟩)⟩
      | _ => cases ran
  | done _ => cases call <;> cases ran
  | returned _ => cases call <;> cases ran
  | raised => cases call <;> cases ran

theorem perform_begin (begun : w.perform (.begin id call) = some w') :
    w.calls id = none ∧ w' = w.put id call .statement := by
  rw [perform] at begun
  split at begun
  · rename_i idle
    cases begun
    exact ⟨idle, rfl⟩
  · cases begun

theorem perform_commit (ended : w.perform (.commit id) = some w') :
    ∃ call outcome, w.calls id = some ⟨call, .done outcome⟩ ∧
      w' = { w with links := w.links.commit id, linkHits := w.linkHits.commit id }.put id call (.returned outcome) := by
  obtain ⟨⟨call, phase⟩, held, ended⟩ := Option.bind_eq_some_iff.mp ended
  cases phase <;> cases ended
  exact ⟨_, _, held, rfl⟩

theorem perform_abort (ended : w.perform (.abort id) = some w') :
    ∃ call phase, w.calls id = some ⟨call, phase⟩ ∧ (∀ outcome, phase ≠ .returned outcome) ∧
      w' = { w with links := w.links.rollback id, linkHits := w.linkHits.rollback id }.put id call .raised := by
  obtain ⟨⟨call, phase⟩, held, ended⟩ := Option.bind_eq_some_iff.mp ended
  cases phase <;> cases ended <;> exact ⟨_, _, held, by rintro _ ⟨⟩, rfl⟩

/-- A step of one call leaves the others their locks and what is committed
under them. -/
theorem frame_of_step (taken : Step w label w') (different : label.actor ≠ other) :
    w'.calls other = w.calls other ∧ w.links.Spares w'.links other ∧ w.linkHits.Spares w'.linkHits other := by
  cases label with
  | begin id call =>
    obtain ⟨_, rfl⟩ := perform_begin taken
    exact ⟨Function.update_of_ne (Ne.symm different) .., .refl _ _, .refl _ _⟩
  | step id =>
    obtain ⟨session, _, ran⟩ := Option.bind_eq_some_iff.mp taken
    obtain ⟨⟨_, calls⟩, tables⟩ := advance_cases ran
    refine ⟨(congrFun calls other).trans (Function.update_of_ne (Ne.symm different) ..), ?_⟩
    rcases tables with ⟨links, linkHits⟩ | ⟨⟨_, _, wrote⟩, linkHits⟩ | ⟨links, _, _, wrote⟩
    · rw [links, linkHits]
      exact ⟨.refl _ _, .refl _ _⟩
    · rw [linkHits]
      exact ⟨Heap.spares_write different wrote, .refl _ _⟩
    · rw [links]
      exact ⟨.refl _ _, Heap.spares_write different wrote⟩
  | commit id =>
    obtain ⟨_, _, _, rfl⟩ := perform_commit taken
    exact ⟨Function.update_of_ne (Ne.symm different) .., Heap.spares_commit different, Heap.spares_commit different⟩
  | abort id =>
    obtain ⟨_, _, _, _, rfl⟩ := perform_abort taken
    exact ⟨Function.update_of_ne (Ne.symm different) .., Heap.spares_rollback different, Heap.spares_rollback different⟩

/-- Only a commit changes what others read. -/
theorem committed_of_step (taken : Step w label w') (uncommitted : ∀ id, label ≠ .commit id) :
    w'.links.committed = w.links.committed ∧ w'.linkHits.committed = w.linkHits.committed := by
  cases label with
  | begin id call =>
    obtain ⟨_, rfl⟩ := perform_begin taken
    exact ⟨rfl, rfl⟩
  | step id =>
    obtain ⟨session, _, ran⟩ := Option.bind_eq_some_iff.mp taken
    rcases (advance_cases ran).2 with ⟨links, linkHits⟩ | ⟨⟨_, _, wrote⟩, linkHits⟩ | ⟨links, _, _, wrote⟩
    · rw [links, linkHits]
      exact ⟨rfl, rfl⟩
    · rw [linkHits, Heap.committed_write wrote]
      exact ⟨rfl, rfl⟩
    · rw [links, Heap.committed_write wrote]
      exact ⟨rfl, rfl⟩
  | commit id => exact absurd rfl (uncommitted id)
  | abort id =>
    obtain ⟨_, _, _, _, rfl⟩ := perform_abort taken
    exact ⟨rfl, rfl⟩

theorem mem_removals {ν : Type} {codes : List String} {code : String} :
    code ∈ (removals codes : List (String × (Option ν → Option ν))).map Prod.fst ↔ code ∈ codes := by
  simp [removals]

theorem Removing.frame {nowMs : Option Int} {now : T} {codes : List String} (removing : w.Removing id nowMs now codes)
    (links : w.links.Spares w'.links id) : w'.Removing id nowMs now codes := by
  obtain ⟨reflects, meet⟩ := removing
  obtain ⟨after, same⟩ := links _ reflects
  refine ⟨after, fun code member => ?_⟩
  rw [same code (mem_removals.mpr member)]
  exact meet code member

/-- What others do does not show in the transaction of a call. -/
theorem Stands.frame (stands : w.Stands id call phase) (links : w.links.Spares w'.links id)
    (linkHits : w.linkHits.Spares w'.linkHits id) : w'.Stands id call phase := by
  cases stands with
  | statement first second => exact .statement (links _ first).1 (linkHits _ second).1
  | writing first second => exact .writing (links _ first).1 (linkHits _ second).1
  | recorded first second => exact .recorded (links _ first).1 (linkHits _ second).1
  | sweeping removing second distinct => exact .sweeping (removing.frame links) (linkHits _ second).1 distinct
  | purged removing second distinct => exact .purged (removing.frame links) (linkHits _ second).1 distinct
  | won same first second absent =>
    obtain ⟨after, kept⟩ := links _ first
    exact .won same after (linkHits _ second).1 ((kept _ (List.mem_singleton_self _)).trans absent)
  | read first second reads => exact .read (links _ first).1 (linkHits _ second).1 reads
  | returned first second => exact .returned (links _ first).1 (linkHits _ second).1
  | raised first second => exact .raised (links _ first).1 (linkHits _ second).1

theorem adds_snoc (items : List (String × Int)) (item : String × Int) :
    adds (items ++ [item]) = adds items ++ [(item.1, fun hits => some (hits.getD 0 + item.2))] := by
  rw [adds, List.map_append]
  rfl

theorem removals_snoc {ν : Type} (codes : List String) (code : String) :
    (removals (codes ++ [code]) : List (String × (Option ν → Option ν))) =
      removals codes ++ [(code, fun _ => none)] := by
  rw [removals, List.map_append]
  rfl

theorem Removing.snoc {nowMs : Option Int} {now : T} {codes : List String} {code : String} {creator : Nat}
    {links : Heap Nat String (Nat × PgRow tz)} (removing : w.Removing id nowMs now codes) (fresh : code ∉ codes)
    (meets : ((w.links.view id code).any fun found => found.1 = creator && found.2.meets nowMs now) = true)
    (wrote : w.links.write id code (fun _ => none) = some links) :
    ({ w with links := links }.put id call phase).Removing id nowMs now (codes ++ [code]) := by
  obtain ⟨reflects, meet⟩ := removing
  rw [reflects.view_eq, replay_untouched _ fun touched => fresh (mem_removals.mp touched)] at meets
  refine ⟨by rw [removals_snoc]; exact reflects.write wrote, fun other member => ?_⟩
  rw [put, Heap.committed_write wrote]
  rcases List.mem_append.mp member with before | now
  · exact meet other before
  · obtain ⟨found, stored, both⟩ := (Option.any_eq_true _ _).mp meets
    rw [List.mem_singleton.mp now]
    exact (Option.any_eq_true _ _).mpr ⟨found, stored, (Bool.and_eq_true_iff.mp both).2⟩

end PgSessions

end

end UrlShortener
