import UrlShortener.General.Machine
import UrlShortener.LinkConnections
import UrlShortener.PgLinkStore

namespace UrlShortener
open Machine

/-- A call of a link store. Only the Postgres store has `purge_expired`; the
service reads a link and looks at its expiry in one, as `load` does. -/
inductive BackendCall
  | create (code target : String) (ttlSeconds nowMs : Option Int) (clock : Int)
  | recordHitsBulk (counts : List (String × Nat))
  | load (code : String) (nowMs : Int)
  | hits (code : String)
  | purgeExpired (nowMs : Int)

inductive BackendAnswer
  /-- `none` for the KeyError. -/
  | created (link : Option Link)
  | recorded (count : Nat)
  | loaded (link : Option Link)
  | hits (n : Int)
  | purged

namespace BackendCall

def creates : BackendCall → Option String
  | .create code _ _ _ _ => some code
  | _ => none

/-- The service on SQLite; nothing ever purges that store. -/
def onSqlite (s : LinkTables) : BackendCall → BackendAnswer × LinkTables
  | .create code target ttlSeconds nowMs clock =>
    match s.links.create code target ttlSeconds nowMs clock with
    | some (link, links) => (.created (some link), { s with links := links })
    | none => (.created none, s)
  | .recordHitsBulk counts => (.recorded counts.length, s.upsertAll 0 counts)
  | .load code nowMs => (.loaded ((s.links.get code).filter fun link => !link.isExpired nowMs), s)
  | .hits code => (.hits (s.hits code), s)
  | .purgeExpired _ => (.purged, s)

section
variable {T : Type} {tz : Timestamps T}

/-- The service on Postgres, where a purge is given its time. -/
def onPostgres [LinearOrder T] (s : PgLinkStore tz) : BackendCall → BackendAnswer × PgLinkStore tz
  | .create code target ttlSeconds nowMs clock =>
    match s.create code target ttlSeconds nowMs clock with
    | some (link, s') => (.created (some link), s')
    | none => (.created none, s)
  | .recordHitsBulk counts =>
    let (count, s') := s.recordHitsBulk (counts.map fun item => (item.1, (item.2 : Int)))
    (.recorded count, s')
  | .load code nowMs => (.loaded ((s.get code).filter fun link => !link.isExpired nowMs), s)
  | .hits code => (.hits (s.hits code), s)
  | .purgeExpired nowMs => (.purged, (s.purgeExpired (some nowMs) (tz.dt nowMs)).2)

/-- No link is read at a time before a purge that came first, and no code that
was tried before a purge is tried after it. -/
def Forward (calls : List BackendCall) : Prop :=
  ∀ before nowMs later, calls = before ++ .purgeExpired nowMs :: later →
    (∀ code t, .load code t ∈ later → nowMs ≤ t) ∧
      ∀ code, some code ∈ before.map creates → some code ∉ later.map creates

/-- A purged link is one that the calls to come find expired, and do not create. -/
structure Agree (rest : List BackendCall) (s : LinkTables) (p : PgLinkStore tz) : Prop where
  links : ∀ code, p.get code = s.links.get code ∨ p.get code = none ∧ some code ∉ rest.map creates ∧
    ∃ link, s.links.get code = some link ∧ ∀ t, .load code t ∈ rest → link.isExpired t = true
  hits : ∀ code, p.hits code = s.hits code
  forward : Forward rest
  spent : ∀ code link, s.links.get code = some link → ∀ before nowMs later,
    rest = before ++ .purgeExpired nowMs :: later → some code ∉ later.map creates

variable {rest : List BackendCall} {call : BackendCall} {s : LinkTables} {p : PgLinkStore tz}

theorem Forward.tail (forward : Forward (call :: rest)) : Forward rest := by
  intro before nowMs later whole
  obtain ⟨reads, creates⟩ := forward (call :: before) nowMs later (by rw [whole]; rfl)
  exact ⟨reads, fun code tried => creates code (List.mem_cons_of_mem _ tried)⟩

theorem isExpired_mono {link : Link} {nowMs t : Int} (expired : link.isExpired nowMs = true) (later : nowMs ≤ t) :
    link.isExpired t = true := by
  unfold Link.isExpired at expired ⊢
  obtain ⟨ms, some, passed⟩ := (Option.any_eq_true _ _).mp expired
  exact (Option.any_eq_true _ _).mpr ⟨ms, some, decide_eq_true ((of_decide_eq_true passed).trans later)⟩

theorem Agree.tail_links (agree : Agree (call :: rest) s p) (code : String) :
    p.get code = s.links.get code ∨ p.get code = none ∧ some code ∉ rest.map creates ∧
      ∃ link, s.links.get code = some link ∧ ∀ t, .load code t ∈ rest → link.isExpired t = true := by
  rcases agree.links code with same | ⟨purged, unused, link, stored, expired⟩
  · exact Or.inl same
  · exact Or.inr ⟨purged, fun member => unused (List.mem_cons_of_mem _ member), link, stored,
      fun t member => expired t (List.mem_cons_of_mem _ member)⟩

theorem Agree.tail_spent (agree : Agree (call :: rest) s p) (code : String) (link : Link)
    (stored : s.links.get code = some link) (before : List BackendCall) (nowMs : Int) (later : List BackendCall)
    (whole : rest = before ++ .purgeExpired nowMs :: later) : some code ∉ later.map creates :=
  agree.spent code link stored (call :: before) nowMs later (by rw [whole]; rfl)

theorem recorded_cast (counts : List (String × Nat)) (code : String) :
    PgLinkStore.recorded (counts.map fun item => (item.1, (item.2 : Int))) code = LinkTables.total counts code := by
  induction counts with
  | nil => rfl
  | cons item rest ih =>
    rw [PgLinkStore.recorded] at ih ⊢
    rw [LinkTables.total] at ih ⊢
    by_cases own : item.1 = code
    · simp only [List.map_cons, List.filter_cons, own, decide_true, if_true, List.sum_cons, ih, Nat.cast_add]
    · simp only [List.map_cons, List.filter_cons, own, decide_false, Bool.false_eq_true, if_false, ih]

theorem links_upsertAll (tables : LinkTables) (id : Nat) (items : List (String × Nat)) :
    (tables.upsertAll id items).links = tables.links := by
  induction items generalizing tables with
  | nil => rfl
  | cons item rest ih => rw [LinkTables.upsertAll_cons, ih, LinkTables.upsert]

variable [LinearOrder T] {zone : ExactTimestamps T}

theorem Agree.create {p : PgLinkStore zone.toTimestamps} {code target : String} {ttlSeconds nowMs : Option Int}
    {clock : Int} (agree : Agree (.create code target ttlSeconds nowMs clock :: rest) s p) :
    (onSqlite s (.create code target ttlSeconds nowMs clock)).1 =
        (onPostgres p (.create code target ttlSeconds nowMs clock)).1 ∧
      Agree rest (onSqlite s (.create code target ttlSeconds nowMs clock)).2
        (onPostgres p (.create code target ttlSeconds nowMs clock)).2 := by
  have same : p.get code = s.links.get code := by
    rcases agree.links code with same | ⟨_, unused, _⟩
    · exact same
    · exact absurd (List.mem_cons_self ..) unused
  cases stored : s.links.get code with
  | some link =>
    have taken : s.links.create code target ttlSeconds nowMs clock = none :=
      if_pos (AList.lookup_isSome.mp (by rw [← LinkStore.get, stored]; rfl))
    have taken' : p.create code target ttlSeconds nowMs clock = none := by
      refine if_pos (not_not.mp fun absent => ?_)
      rw [PgLinkStore.get_eq_none.mpr absent, stored] at same
      cases same
    rw [onSqlite, onPostgres, taken, taken']
    exact ⟨rfl, agree.tail_links, agree.hits, agree.forward.tail, agree.tail_spent⟩
  | none =>
    have free : s.links.create code target ttlSeconds nowMs clock = some (_, _) :=
      if_neg (AList.lookup_eq_none.mp stored)
    have free' : p.create code target ttlSeconds nowMs clock = some (_, _) :=
      if_neg (PgLinkStore.get_eq_none.mp (same.trans stored))
    obtain ⟨_, there, kept, hits⟩ := PgLinkStore.create_cases free'
    rw [onSqlite, onPostgres, free, free']
    refine ⟨rfl, fun other => ?_, fun other => ?_, agree.forward.tail, fun other link found before now later whole => ?_⟩
    · by_cases own : other = code
      · subst own
        exact Or.inl (there.trans (s.links.get_insert_self _).symm)
      · rw [kept other own]
        show _ = (s.links.insert _).get other ∨ _ ∧ _ ∧ ∃ link, (s.links.insert _).get other = some link ∧ _
        rw [s.links.get_insert_other own]
        exact agree.tail_links other
    · exact (congrFun hits other).trans (agree.hits other)
    · by_cases own : other = code
      · subst own
        exact (agree.forward (_ :: before) now later (by rw [whole]; rfl)).2 other (List.mem_cons_self ..)
      · rw [s.links.get_insert_other own] at found
        exact agree.tail_spent other link found before now later whole

theorem Agree.step {p : PgLinkStore zone.toTimestamps} (agree : Agree (call :: rest) s p) :
    (onSqlite s call).1 = (onPostgres p call).1 ∧ Agree rest (onSqlite s call).2 (onPostgres p call).2 := by
  cases call with
  | create code target ttlSeconds nowMs clock => exact agree.create
  | recordHitsBulk counts =>
    refine ⟨congrArg BackendAnswer.recorded (List.length_map _).symm, fun code => ?_, fun code => ?_, agree.forward.tail,
      fun code link found => ?_⟩
    · rw [onPostgres, onSqlite, links_upsertAll, PgLinkStore.get_recordHitsBulk]
      exact agree.tail_links code
    · rw [onPostgres, onSqlite, PgLinkStore.hits_recordHitsBulk, LinkTables.hits_upsertAll, recorded_cast, agree.hits,
        Nat.cast_add]
    · rw [onSqlite, links_upsertAll] at found
      exact agree.tail_spent code link found
  | load code nowMs =>
    refine ⟨congrArg BackendAnswer.loaded ?_, agree.tail_links, agree.hits, agree.forward.tail, agree.tail_spent⟩
    rcases agree.links code with same | ⟨purged, _, link, stored, expired⟩
    · rw [same]
    · rw [purged, stored, Option.filter_some, expired nowMs (List.mem_cons_self ..)]
      rfl
  | hits code =>
    exact ⟨congrArg BackendAnswer.hits (agree.hits code).symm, agree.tail_links, agree.hits, agree.forward.tail,
      agree.tail_spent⟩
  | purgeExpired nowMs =>
    refine ⟨rfl, fun code => ?_, agree.hits, agree.forward.tail, agree.tail_spent⟩
    rw [onPostgres, PgLinkStore.get_purgeExpired]
    rcases agree.tail_links code with same | ⟨purged, later⟩
    · rw [same]
      cases stored : s.links.get code with
      | none =>
        rw [onSqlite, stored]
        exact Or.inl rfl
      | some link =>
        cases expired : link.isExpired nowMs with
        | false =>
          rw [onSqlite, stored, Option.filter_some, expired]
          exact Or.inl rfl
        | true =>
          have unused := agree.spent code link stored [] nowMs rest rfl
          have reads := (agree.forward [] nowMs rest rfl).1 code
          rw [Option.filter_some, expired]
          exact Or.inr ⟨rfl, unused, link, stored, fun t member => isExpired_mono expired (reads t member)⟩
    · rw [purged]
      exact Or.inr ⟨rfl, later⟩

/-- The service answers alike on both stores, and cannot tell that the expired
links of one are swept away. -/
theorem link_stores_agree {calls : List BackendCall} (forward : Forward calls) :
    transcript onSqlite ⟨.empty, fun _ => 0, []⟩ calls =
      transcript onPostgres (.empty : PgLinkStore zone.toTimestamps) calls := by
  refine transcript_eq_of_simulation Agree (fun call rest s p agree => agree.step) ⟨fun code => ?_, fun code => rfl,
    forward, fun code link stored => ?_⟩
  · exact Or.inl rfl
  · cases (AList.lookup_empty code).symm.trans stored

end

/-- A link expires and is swept before it is read again. -/
theorem link_stores_agree_swept :
    transcript onSqlite ⟨.empty, fun _ => 0, []⟩
        [.create "old" "https://example.com" (some 1) (some 1000) 0, .recordHitsBulk [("old", 2)], .purgeExpired 2000,
          .load "old" 2000, .hits "old", .create "new" "https://example.org" none (some 3000) 0] =
      transcript onPostgres (.empty : PgLinkStore Timestamps.milliseconds)
        [.create "old" "https://example.com" (some 1) (some 1000) 0, .recordHitsBulk [("old", 2)], .purgeExpired 2000,
          .load "old" 2000, .hits "old", .create "new" "https://example.org" none (some 3000) 0] ∧
      ((after onSqlite ⟨.empty, fun _ => 0, []⟩
        [.create "old" "https://example.com" (some 1) (some 1000) 0, .purgeExpired 2000]).links.get "old").isSome = true ∧
      (after onPostgres (.empty : PgLinkStore Timestamps.milliseconds)
        [.create "old" "https://example.com" (some 1) (some 1000) 0, .purgeExpired 2000]).get "old" = none := by
  have forward : Forward [.create "old" "https://example.com" (some 1) (some 1000) 0, .recordHitsBulk [("old", 2)],
      .purgeExpired 2000, .load "old" 2000, .hits "old", .create "new" "https://example.org" none (some 3000) 0] := by
    intro before nowMs later whole
    rcases before with _ | ⟨_, _ | ⟨_, _ | ⟨_, _ | ⟨_, _ | ⟨_, _ | ⟨_, before⟩⟩⟩⟩⟩⟩ <;> simp at whole
    obtain ⟨rfl, rfl, rfl, rfl⟩ := whole
    simp [creates]
  exact ⟨@link_stores_agree _ _ .milliseconds _ forward, rfl, rfl⟩

end BackendCall

end UrlShortener
