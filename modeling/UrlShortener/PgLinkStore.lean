import UrlShortener.General.Run
import UrlShortener.General.Tables
import UrlShortener.Store

namespace UrlShortener
open Tables Transition

/-- The timestamps of the database and the conversions `_dt` and `_ms`. -/
structure Timestamps (T : Type) where
  dt : Int → T
  ms : T → Int

/-- Conversions that are exact for whole milliseconds and keep their order. -/
structure ExactTimestamps (T : Type) [LinearOrder T] extends Timestamps T where
  ms_dt : ∀ n, ms (dt n) = n
  dt_le : ∀ {m n}, dt m ≤ dt n ↔ m ≤ n

section
variable {T : Type}

/-- A row of `links` without its primary key. Its expiry comes from `_dt`. -/
structure PgRow (tz : Timestamps T) where
  target : String
  createdAt : T
  expiresAt : Option T
  converted : ∀ t ∈ expiresAt, ∃ n, tz.dt n = t

/-- The tables `links` and `link_hits`. -/
structure PgLinkStore (tz : Timestamps T) where
  links : Table String (PgRow tz)
  linkHits : Table String Int

variable {tz : Timestamps T}

def PgRow.link (row : PgRow tz) (code : String) : Link :=
  ⟨code, row.target, tz.ms row.createdAt, row.expiresAt.map tz.ms⟩

namespace PgLinkStore

/-- The tables as the schema creates them. -/
def empty : PgLinkStore tz :=
  ⟨∅, ∅⟩

/-- `create` at the clock reading `clock`; `none` for the KeyError. -/
def create (s : PgLinkStore tz) (code target : String) (ttlSeconds nowMs : Option Int) (clock : Int) :
    Option (Link × PgLinkStore tz) :=
  let nowMs := (nowMs.filter (· ≠ 0)).getD clock
  let expires := (ttlSeconds.filter (· ≠ 0)).map fun ttl => nowMs + ttl * 1000
  let row : PgRow tz :=
    { target := target
      createdAt := tz.dt nowMs
      expiresAt := expires.map tz.dt
      converted := fun t member => by
        obtain ⟨n, _, same⟩ := Option.map_eq_some_iff.mp member
        exact ⟨n, same⟩ }
  -- ON CONFLICT (code) DO NOTHING RETURNING code
  if code ∈ s.links then none
  else some (⟨code, target, nowMs, expires⟩, { s with links := s.links.insert code row })

def hits (s : PgLinkStore tz) (code : String) : Int :=
  (s.linkHits.lookup code).getD 0

/-- One row of `record_hits_bulk`, with its ON CONFLICT clause. -/
def upsert (s : PgLinkStore tz) (item : String × Int) : PgLinkStore tz :=
  { s with linkHits := s.linkHits.insert item.1 (s.hits item.1 + item.2) }

/-- `record_hits_bulk` with the items of a dict; `record_hit` has one item. -/
def recordHitsBulk (s : PgLinkStore tz) (counts : List (String × Int)) : Nat × PgLinkStore tz :=
  (counts.length, counts.foldl upsert s)

def get (s : PgLinkStore tz) (code : String) : Option Link :=
  (s.links.lookup code).map fun row => row.link code

/-- `purge_expired`, where `now` is what NOW() gives. -/
def purgeExpired [LinearOrder T] (s : PgLinkStore tz) (nowMs : Option Int) (now : T) : Nat × PgLinkStore tz :=
  let cut := (nowMs.map tz.dt).getD now
  let (gone, links) := delete s.links fun row => row.expiresAt.any (· ≤ cut)
  (gone.length, { s with links := links })

/-- The hits that a batch records for a code. -/
def recorded (counts : List (String × Int)) (code : String) : Int :=
  ((counts.filter (·.1 = code)).map Prod.snd).sum

end PgLinkStore

namespace PgLinkStore
variable {s : PgLinkStore tz} {link : Link} {code target : String} {ttlSeconds nowMs : Option Int} {clock : Int}

theorem get_eq_none : s.get code = none ↔ code ∉ s.links := by
  rw [get, Option.map_eq_none_iff, AList.lookup_eq_none]

theorem exists_create (free : s.get code = none) (target : String) (ttlSeconds nowMs : Option Int) (clock : Int) :
    ∃ link s', s.create code target ttlSeconds nowMs clock = some (link, s') :=
  ⟨_, _, if_neg (get_eq_none.mp free)⟩

theorem hits_upsert (s : PgLinkStore tz) (item : String × Int) (code : String) :
    (s.upsert item).hits code = s.hits code + recorded [item] code := by
  by_cases own : item.1 = code
  · subst own
    rw [hits, upsert, AList.lookup_insert]
    simp [recorded]
  · rw [hits, upsert, AList.lookup_insert_ne (Ne.symm own)]
    simp [recorded, own, hits]

theorem hits_recordHitsBulk (s : PgLinkStore tz) (counts : List (String × Int)) (code : String) :
    (s.recordHitsBulk counts).2.hits code = s.hits code + recorded counts code := by
  induction counts generalizing s with
  | nil => exact (Int.add_zero _).symm
  | cons item rest ih =>
    have whole : recorded (item :: rest) code = recorded [item] code + recorded rest code := by
      rw [recorded, ← List.singleton_append, List.filter_append, List.map_append, List.sum_append, recorded,
        recorded]
    rw [whole, ← Int.add_assoc, ← hits_upsert]
    exact ih (s.upsert item)

theorem get_recordHitsBulk (s : PgLinkStore tz) (counts : List (String × Int)) :
    (s.recordHitsBulk counts).2.get = s.get := by
  induction counts generalizing s with
  | nil => rfl
  | cons item rest ih => exact ih (s.upsert item)

end PgLinkStore

variable [LinearOrder T] {zone : ExactTimestamps T}

/-- The database sees a row expire when `is_expired` does. -/
theorem PgRow.isExpired_link (row : PgRow zone.toTimestamps) (code : String) (nowMs : Int) :
    (row.link code).isExpired nowMs = row.expiresAt.any (· ≤ zone.dt nowMs) := by
  cases expires : row.expiresAt with
  | none => rw [link, Link.isExpired, expires, Option.map_none, Option.any_none, Option.any_none]
  | some t =>
    obtain ⟨n, rfl⟩ := row.converted t expires
    rw [link, Link.isExpired, expires, Option.map_some, Option.any_some, Option.any_some, zone.ms_dt, decide_eq_decide]
    exact zone.dt_le.symm

namespace PgLinkStore
variable {s : PgLinkStore tz} {link : Link} {code target : String} {ttlSeconds nowMs : Option Int} {clock : Int}

theorem create_cases {s s' : PgLinkStore zone.toTimestamps}
    (created : s.create code target ttlSeconds nowMs clock = some (link, s')) :
    s.get code = none ∧ s'.get code = some link ∧ (∀ other, other ≠ code → s'.get other = s.get other) ∧
      s'.hits = s.hits := by
  obtain ⟨free, same⟩ := Option.ite_none_left_eq_some.mp created
  cases same
  have back : zone.ms ∘ zone.dt = id := funext zone.ms_dt
  refine ⟨get_eq_none.mpr free, ?_, fun other different => ?_, rfl⟩
  · simp only [get, AList.lookup_insert, Option.map_some, PgRow.link, zone.ms_dt, Option.map_map,
      ← Function.comp_assoc, back, Function.id_comp]
  · rw [get, AList.lookup_insert_ne different, get]

theorem get_purgeExpired (s : PgLinkStore zone.toTimestamps) (nowMs : Int) (now : T) (code : String) :
    (s.purgeExpired (some nowMs) now).2.get code = (s.get code).filter fun link => !link.isExpired nowMs := by
  rw [get, purgeExpired, lookup_delete, get, Option.filter_map]
  congr 2
  funext row
  rw [Function.comp_apply, row.isExpired_link, Option.map_some, Option.getD_some]

/-- A purge takes no link back, also by the clock of the database. -/
theorem get_of_purgeExpired {now : T} (stored : (s.purgeExpired nowMs now).2.get code = some link) :
    s.get code = some link := by
  rw [get, purgeExpired, lookup_delete] at stored
  obtain ⟨row, kept, rfl⟩ := Option.map_eq_some_iff.mp stored
  rw [get, (Option.filter_eq_some_iff.mp kept).1, Option.map_some]

theorem count_purgeExpired (s : PgLinkStore zone.toTimestamps) (nowMs : Int) (now : T) :
    (s.purgeExpired (some nowMs) now).1 =
      Set.ncard {code | ∃ link, s.get code = some link ∧ link.isExpired nowMs = true} := by
  have rows : {code | ∃ link, s.get code = some link ∧ link.isExpired nowMs = true} =
      {code | ∃ row, s.links.lookup code = some row ∧ row.expiresAt.any (· ≤ zone.dt nowMs) = true} := by
    ext code
    constructor
    · rintro ⟨_, stored, expired⟩
      obtain ⟨row, found, rfl⟩ := Option.map_eq_some_iff.mp stored
      exact ⟨row, found, (row.isExpired_link code nowMs).symm.trans expired⟩
    · rintro ⟨row, found, expired⟩
      exact ⟨row.link code, by rw [get, found, Option.map_some], (row.isExpired_link code nowMs).trans expired⟩
  rw [rows, ← length_delete]
  rfl

end PgLinkStore

/-- A store with what a reader of its calls knows: the hits that were recorded
for a code since a link was last created under it. -/
structure PgHistory (tz : Timestamps T) where
  store : PgLinkStore tz
  since : String → Int

namespace PgHistory

inductive Call (T : Type)
  | create (code target : String) (ttlSeconds nowMs : Option Int) (clock : Int)
  | recordHitsBulk (counts : List (String × Int))
  | get (code : String)
  | hits (code : String)
  | purgeExpired (nowMs : Option Int) (now : T)

/-- The hits that the calls record for a code. -/
def recordedIn (calls : List (Call T)) (code : String) : Int :=
  (calls.map fun call => match call with
    | .recordHitsBulk counts => PgLinkStore.recorded counts code
    | _ => 0).sum

def start : PgHistory tz :=
  ⟨.empty, fun _ => 0⟩

/-- One transaction after the other. -/
def perform (h : PgHistory tz) : Call T → PgHistory tz
  | .create code target ttlSeconds nowMs clock =>
    match h.store.create code target ttlSeconds nowMs clock with
    | some (_, store) => ⟨store, Function.update h.since code 0⟩
    | none => h
  | .recordHitsBulk counts =>
    ⟨(h.store.recordHitsBulk counts).2, fun code => h.since code + PgLinkStore.recorded counts code⟩
  | .get _ => h
  | .hits _ => h
  | .purgeExpired nowMs now => { h with store := (h.store.purgeExpired nowMs now).2 }

def Step (h : PgHistory tz) (call : Call T) (h' : PgHistory tz) : Prop :=
  h.perform call = h'

/-- The hits of a stored link are those since it was created. -/
def CountsOwn (h : PgHistory tz) : Prop :=
  ∀ code link, h.store.get code = some link → h.store.hits code = h.since code

/-- A purge now would remove the expired links and no others and return how
many they are, and every stored link has its own hits only. -/
structure Forgets (h : PgHistory tz) : Prop where
  purges : ∀ nowMs now code,
    (h.store.purgeExpired (some nowMs) now).2.get code = (h.store.get code).filter fun link => !link.isExpired nowMs
  returns : ∀ nowMs now, (h.store.purgeExpired (some nowMs) now).1 =
    Set.ncard {code | ∃ link, h.store.get code = some link ∧ link.isExpired nowMs = true}
  counts : h.CountsOwn

/-- A create that finds its code free comes when the hits recorded for that code
before add up to zero. -/
def Fresh (before : List (Call T)) (h : PgHistory tz) : Call T → Prop
  | .create code _ _ _ _ => h.store.get code = none → recordedIn before code = 0
  | _ => True

variable {call : Call T} {trace : List (Call T)}

/-- No other call than `record_hits_bulk` changes the counts. -/
theorem hits_perform (h : PgHistory tz) (call : Call T) (code : String) :
    (h.perform call).store.hits code = h.store.hits code + recordedIn [call] code := by
  cases call with
  | create code target ttlSeconds nowMs clock =>
    rw [perform]
    split
    · rename_i created
      obtain ⟨_, same⟩ := Option.ite_none_left_eq_some.mp created
      cases same
      exact (Int.add_zero _).symm
    · exact (Int.add_zero _).symm
  | recordHitsBulk counts =>
    rw [recordedIn, List.map_singleton, List.sum_singleton]
    exact h.store.hits_recordHitsBulk counts code
  | _ => exact (Int.add_zero _).symm

theorem hits_of_run {h : PgHistory tz} (run : Run Step start trace h) (code : String) :
    h.store.hits code = recordedIn trace code := by
  induction run with
  | start => rfl
  | next _ taken ih =>
    cases taken
    rw [hits_perform, ih, recordedIn, recordedIn, recordedIn, List.map_append, List.sum_append]

variable {h : PgHistory zone.toTimestamps}

theorem CountsOwn.step {before : List (Call T)} (counts : h.CountsOwn) (run : Run Step start before h)
    (fresh : h.Fresh before call) : (h.perform call).CountsOwn := by
  cases call with
  | create code target ttlSeconds nowMs clock =>
    rw [perform]
    split
    · rename_i link store created
      obtain ⟨free, _, kept, sameHits⟩ := PgLinkStore.create_cases created
      intro other found stored
      show store.hits other = Function.update h.since code 0 other
      rw [sameHits]
      by_cases own : other = code
      · rw [own, Function.update_self, hits_of_run run, fresh free]
      · rw [Function.update_of_ne own, counts other found ((kept other own).symm.trans stored)]
    · exact counts
  | recordHitsBulk batch =>
    intro code link stored
    show (h.store.recordHitsBulk batch).2.hits code = h.since code + PgLinkStore.recorded batch code
    have before : h.store.get code = some link := by rwa [← PgLinkStore.get_recordHitsBulk h.store batch]
    rw [PgLinkStore.hits_recordHitsBulk, counts code link before]
  | get _ => exact counts
  | hits _ => exact counts
  | purgeExpired nowMs now =>
    exact fun code link stored => counts code link (PgLinkStore.get_of_purgeExpired stored)

theorem countsOwn_of_run (run : Run Step start trace h) (fresh : ∀ front call, front ++ [call] <+: trace →
      ∀ u : PgHistory zone.toTimestamps, Run Step start front u → u.Fresh front call) :
    h.CountsOwn := by
  induction run with
  | start =>
    intro code link stored
    cases stored
  | @next before s label t run taken ih =>
    cases taken
    refine (ih fun front call part => fresh front call (part.trans (List.prefix_append ..))).step run ?_
    exact fresh before label (List.prefix_refl _) s run

/-- The law holds all along a run exactly if no link is created under a code for
which hits have been recorded. -/
theorem forgets_iff_fresh :
    (∀ front, front <+: trace → ∀ h : PgHistory zone.toTimestamps, Run Step start front h → h.Forgets) ↔
      ∀ front call, front ++ [call] <+: trace →
        ∀ h : PgHistory zone.toTimestamps, Run Step start front h → h.Fresh front call := by
  constructor
  · intro forgets front call part h run
    cases call with
    | create code target ttlSeconds nowMs clock =>
      intro free
      obtain ⟨link, store, created⟩ := PgLinkStore.exists_create free target ttlSeconds nowMs clock
      obtain ⟨_, stored, _, sameHits⟩ := PgLinkStore.create_cases created
      have after : h.perform (.create code target ttlSeconds nowMs clock) =
          ⟨store, Function.update h.since code 0⟩ := by
        rw [perform, created]
      have counted : store.hits code = Function.update h.since code 0 code :=
        (forgets _ part _ (run.next after)).counts code link stored
      rw [← hits_of_run run, ← sameHits, counted, Function.update_self]
    | recordHitsBulk _ => trivial
    | get _ => trivial
    | hits _ => trivial
    | purgeExpired _ _ => trivial
  · intro fresh front part h run
    refine ⟨fun nowMs now code => h.store.get_purgeExpired nowMs now code,
      fun nowMs now => h.store.count_purgeExpired nowMs now, ?_⟩
    exact countsOwn_of_run run fun before call shorter => fresh before call (shorter.trans part)

end PgHistory

end

/-- Timestamps that are milliseconds themselves. -/
def Timestamps.milliseconds : Timestamps Int :=
  ⟨id, id⟩

def ExactTimestamps.milliseconds : ExactTimestamps Int where
  toTimestamps := .milliseconds
  ms_dt _ := rfl
  dt_le := Iff.rfl

/-- A link expires and is purged, its code is given out again, and the new link
begins with the hit of the old one. -/
theorem PgHistory.reissued_with_old_hit :
    ∃ h : PgHistory Timestamps.milliseconds,
      Run Step start [.create "promo" "https://old.example/" (some 1) (some 1000) 0, .recordHitsBulk [("promo", 1)],
        .purgeExpired (some 2000) 0, .create "promo" "https://new.example/" none (some 3000) 0] h ∧
      h.store.get "promo" = some ⟨"promo", "https://new.example/", 3000, none⟩ ∧ h.store.hits "promo" = 1 ∧
      ¬ h.Forgets := by
  have run : Run Step (start : PgHistory Timestamps.milliseconds)
      ([] ++ [.create "promo" "https://old.example/" (some 1) (some 1000) 0] ++ [.recordHitsBulk [("promo", 1)]] ++
        [.purgeExpired (some 2000) 0] ++ [.create "promo" "https://new.example/" none (some 3000) 0]) _ :=
    ((((Run.start).next rfl).next rfl).next rfl).next rfl
  refine ⟨_, run, rfl, rfl, fun forgets => ?_⟩
  have counted : (1 : Int) = 0 := forgets.counts "promo" ⟨"promo", "https://new.example/", 3000, none⟩ rfl
  exact absurd counted (by decide)

end UrlShortener
