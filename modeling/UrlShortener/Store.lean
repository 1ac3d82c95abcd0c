import Mathlib.Data.List.AList

namespace UrlShortener

structure Link where
  code : String
  target : String
  createdMs : Int
  expiresMs : Option Int
  deriving DecidableEq

def Link.isExpired (link : Link) (nowMs : Int) : Bool :=
  link.expiresMs.any fun expiresMs => expiresMs ≤ nowMs

/-- The table `links`; its primary key is the code of the row. -/
structure LinkStore where
  rows : AList fun _ : String => Link
  keyed : ∀ code link, rows.lookup code = some link → link.code = code

namespace LinkStore

def empty : LinkStore :=
  ⟨∅, fun code link found => by rw [AList.lookup_empty] at found; cases found⟩

def get (s : LinkStore) (code : String) : Option Link :=
  s.rows.lookup code

def insert (s : LinkStore) (link : Link) : LinkStore :=
  ⟨s.rows.insert link.code link, fun code found here => by
    by_cases same : code = link.code
    · subst same
      rw [AList.lookup_insert] at here
      cases here
      rfl
    · rw [AList.lookup_insert_ne same] at here
      exact s.keyed code found here⟩

/-- `create` at the clock reading `clock`; `none` for the KeyError of a taken
code. An argument that is zero counts as missing, as it is falsy. -/
def create (s : LinkStore) (code target : String) (ttlSeconds nowMs : Option Int) (clock : Int) :
    Option (Link × LinkStore) :=
  let nowMs := (nowMs.filter (· ≠ 0)).getD clock
  let expires := (ttlSeconds.filter (· ≠ 0)).map fun ttl => nowMs + ttl * 1000
  let link : Link := ⟨code, target, nowMs, expires⟩
  if code ∈ s.rows then none else some (link, s.insert link)

def count (s : LinkStore) : Nat :=
  s.rows.entries.length

variable {s s' : LinkStore} {code target : String} {ttlSeconds nowMs : Option Int} {clock : Int}
  {link : Link}

theorem get_insert_other (s : LinkStore) {other : String} (different : other ≠ link.code) :
    (s.insert link).get other = s.get other :=
  AList.lookup_insert_ne different

theorem get_insert_self (s : LinkStore) (link : Link) : (s.insert link).get link.code = some link :=
  AList.lookup_insert s.rows

theorem create_cases (h : s.create code target ttlSeconds nowMs clock = some (link, s')) :
    s.get code = none ∧ link.code = code ∧ link.target = target ∧ s' = s.insert link := by
  obtain ⟨free, same⟩ := Option.ite_none_left_eq_some.mp h
  cases same
  exact ⟨AList.lookup_eq_none.mpr free, rfl, rfl, rfl⟩

/-- A row stays as it was inserted. -/
theorem get_create (h : s.create code target ttlSeconds nowMs clock = some (link, s'))
    {known : String} {row : Link} (stored : s.get known = some row) : s'.get known = some row := by
  obtain ⟨free, rfl, _, rfl⟩ := create_cases h
  have different : known ≠ link.code := by rintro rfl; rw [free] at stored; cases stored
  rw [get_insert_other s different, stored]

theorem count_insert (free : s.get link.code = none) : (s.insert link).count = s.count + 1 := by
  have absent : link.code ∉ s.rows := AList.lookup_eq_none.mp free
  rw [count, count, insert, AList.entries_insert_of_notMem absent, List.length_cons]

end LinkStore
end UrlShortener
