import Mathlib.Data.List.AList

namespace UrlShortener

/-- `LruCache`. The entries of `data` stand newest first, where the source's
OrderedDict has the newest at its end. -/
structure LruCache (κ ν : Type) [DecidableEq κ] where
  capacity : Nat
  data : AList fun _ : κ => ν × Option Int
  hits : Nat := 0
  misses : Nat := 0
  bounded : data.entries.length ≤ capacity

namespace LruCache
variable {κ ν : Type} [DecidableEq κ]

def empty (capacity : Nat) : LruCache κ ν where
  capacity := capacity
  data := ∅
  bounded := Nat.zero_le _

/-- The newest `capacity` entries: what is left when the oldest one is popped
for as long as there are too many. -/
def keepNewest (capacity : Nat) (data : AList fun _ : κ => ν × Option Int) :
    AList fun _ : κ => ν × Option Int :=
  ⟨data.entries.take capacity, data.nodupKeys.sublist (List.take_sublist ..)⟩

theorem length_erase_le (key : κ) (data : AList fun _ : κ => ν × Option Int) :
    (data.erase key).entries.length ≤ data.entries.length :=
  (List.kerase_sublist key data.entries).length_le

theorem length_insert_le {key : κ} {entry found : ν × Option Int} {data : AList fun _ : κ => ν × Option Int}
    (present : data.lookup key = some found) :
    (data.insert key entry).entries.length ≤ data.entries.length := by
  have member : key ∈ data.entries.keys := AList.lookup_isSome.mp (by rw [present]; rfl)
  obtain ⟨value, before, rest, _, split, erased⟩ := List.exists_of_kerase member
  rw [AList.entries_insert, erased, split]
  simp only [List.length_cons, List.length_append]
  omega

def get (c : LruCache κ ν) (key : κ) (nowMs : Int) : Option ν × LruCache κ ν :=
  match found : c.data.lookup key with
  | none => (none, { c with misses := c.misses + 1 })
  | some (value, expiresMs) =>
    if expiresMs.any fun expiresMs => expiresMs ≤ nowMs then
      (none, { c with
        data := c.data.erase key
        misses := c.misses + 1
        bounded := Nat.le_trans (length_erase_le key c.data) c.bounded })
    else
      (some value, { c with
        data := c.data.insert key (value, expiresMs)
        hits := c.hits + 1
        bounded := Nat.le_trans (length_insert_le found) c.bounded })

def put (c : LruCache κ ν) (key : κ) (value : ν) (expiresMs : Option Int) : LruCache κ ν :=
  { c with
    data := keepNewest c.capacity (c.data.insert key (value, expiresMs))
    bounded := List.length_take_le .. }

def invalidate (c : LruCache κ ν) (key : κ) : LruCache κ ν :=
  { c with
    data := c.data.erase key
    bounded := Nat.le_trans (length_erase_le key c.data) c.bounded }

/-- The route `flush_cache` clears the entries and keeps the counters. -/
def clear (c : LruCache κ ν) : LruCache κ ν :=
  { c with
    data := ∅
    bounded := Nat.zero_le _ }

variable {c : LruCache κ ν} {key other : κ} {value : ν} {expiresMs : Option Int} {nowMs : Int}
  {entry : ν × Option Int}

theorem get_value (c : LruCache κ ν) (key : κ) (nowMs : Int) :
    (c.get key nowMs).1 = (c.data.lookup key).bind fun entry =>
      if entry.2.any fun expiresMs => expiresMs ≤ nowMs then none else some entry.1 := by
  unfold get
  split
  · rename_i absent
    rw [absent]
    rfl
  · rename_i value expiresMs found
    split
    · rename_i late
      rw [found, Option.bind_some, if_pos late]
    · rename_i early
      show some value = _
      rw [found, Option.bind_some, if_neg early]

/-- A hit is an entry that has not expired. -/
theorem get_hit (hit : (c.get key nowMs).1 = some value) :
    ∃ expiresMs, c.data.lookup key = some (value, expiresMs) ∧
      (expiresMs.any fun expiresMs => expiresMs ≤ nowMs) = false := by
  rw [get_value] at hit
  obtain ⟨⟨stored, expiresMs⟩, found, fresh⟩ := Option.bind_eq_some_iff.mp hit
  obtain ⟨early, same⟩ := Option.ite_none_left_eq_some.mp fresh
  cases same
  exact ⟨expiresMs, found, eq_false_of_ne_true early⟩

theorem lookup_erase_some {data : AList fun _ : κ => ν × Option Int}
    (found : (data.erase key).lookup other = some entry) :
    other ≠ key ∧ data.lookup other = some entry := by
  have different : other ≠ key := by
    rintro rfl
    rw [AList.lookup_erase] at found
    cases found
  rw [AList.lookup_erase_ne different] at found
  exact ⟨different, found⟩

/-- `get` moves an entry or drops it, and adds none. -/
theorem lookup_get (found : (c.get key nowMs).2.data.lookup other = some entry) :
    c.data.lookup other = some entry := by
  unfold get at found
  split at found
  · exact found
  · rename_i value expiresMs here
    split at found
    · exact (lookup_erase_some found).2
    · by_cases same : other = key
      · subst same
        rw [AList.lookup_insert] at found
        rw [here, found]
      · rwa [AList.lookup_insert_ne same] at found

/-- A key that was missed is gone, also where it had expired. -/
theorem lookup_get_missed (missed : (c.get key nowMs).1 = none) :
    (c.get key nowMs).2.data.lookup key = none := by
  unfold get at missed ⊢
  split
  · rename_i absent
    exact absent
  · rename_i value expiresMs found
    split at missed
    · rename_i absent
      cases found.symm.trans absent
    · rename_i value' expiresMs' found'
      cases found.symm.trans found'
      split at missed
      · rename_i late
        rw [if_pos late]
        exact AList.lookup_erase ..
      · cases missed

theorem lookup_put (found : (c.put key value expiresMs).data.lookup other = some entry) :
    (other = key ∧ entry = (value, expiresMs)) ∨ c.data.lookup other = some entry := by
  have kept : (c.data.insert key (value, expiresMs)).lookup other = some entry :=
    AList.mem_lookup_iff.mpr (List.mem_of_mem_take (AList.mem_lookup_iff.mp found))
  by_cases same : other = key
  · subst same
    rw [AList.lookup_insert] at kept
    exact Or.inl ⟨rfl, (Option.some.inj kept).symm⟩
  · rw [AList.lookup_insert_ne same] at kept
    exact Or.inr kept

theorem lookup_put_self (room : 0 < c.capacity) (key : κ) (value : ν) (expiresMs : Option Int) :
    (c.put key value expiresMs).data.lookup key = some (value, expiresMs) := by
  obtain ⟨n, size⟩ := Nat.exists_eq_add_one_of_ne_zero (Nat.ne_of_gt room)
  refine AList.mem_lookup_iff.mpr ?_
  show _ ∈ List.take c.capacity (c.data.insert key (value, expiresMs)).entries
  rw [size, AList.entries_insert, List.take_succ_cons]
  exact List.mem_cons_self ..

theorem lookup_of_capacity_zero (full : c.capacity = 0) (key : κ) : c.data.lookup key = none := by
  have nothing : c.data.entries = [] := List.eq_nil_of_length_eq_zero (Nat.le_zero.mp (full ▸ c.bounded))
  refine Option.eq_none_iff_forall_not_mem.mpr fun entry held => ?_
  have member := AList.mem_lookup_iff.mp held
  rw [nothing] at member
  cases member

theorem capacity_get (c : LruCache κ ν) (key : κ) (nowMs : Int) : (c.get key nowMs).2.capacity = c.capacity := by
  unfold get
  split
  · rfl
  · split <;> rfl

theorem lookup_invalidate_self (c : LruCache κ ν) (key : κ) : (c.invalidate key).data.lookup key = none :=
  AList.lookup_erase ..

theorem lookup_invalidate (found : (c.invalidate key).data.lookup other = some entry) :
    other ≠ key ∧ c.data.lookup other = some entry :=
  lookup_erase_some found

end LruCache
end UrlShortener
