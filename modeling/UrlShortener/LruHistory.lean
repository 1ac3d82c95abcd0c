import UrlShortener.General.Machine
import UrlShortener.General.Recency
import UrlShortener.LruCache

namespace UrlShortener
namespace LruCache
open Machine Recency

inductive Op (κ ν : Type)
  | put (key : κ) (value : ν) (expiresMs : Option Int)
  | get (key : κ) (nowMs : Int)
  | invalidate (key : κ)
  deriving DecidableEq

variable {κ ν : Type}

/-- The key an operation uses: the one it puts, or gets with success. -/
def used : Op κ ν × Option ν → Option κ
  | (.put key _ _, _) => some key
  | (.get key _, some _) => some key
  | _ => none

@[simp] theorem used_put (key : κ) (value : ν) (expiresMs : Option Int) (answer : Option ν) :
    used (.put key value expiresMs, answer) = some key := rfl

@[simp] theorem used_hit (key : κ) (nowMs : Int) (value : ν) : used (.get key nowMs, some value) = some key := rfl

@[simp] theorem used_miss (key : κ) (nowMs : Int) : used (.get key nowMs, (none : Option ν)) = none := rfl

@[simp] theorem used_invalidate (key : κ) (answer : Option ν) : used (.invalidate key, answer) = none := rfl

variable [DecidableEq κ]

/-- One call, with what a `get` returns. -/
def perform (c : LruCache κ ν) : Op κ ν → Option ν × LruCache κ ν
  | .put key value expiresMs => (none, c.put key value expiresMs)
  | .get key nowMs => c.get key nowMs
  | .invalidate key => (none, c.invalidate key)

/-- The keys used by a run on an empty cache, in their order. -/
def trail (capacity : Nat) (ops : List (Op κ ν)) : List κ :=
  (transcript perform (empty capacity) ops).filterMap used

/-- No operation replaces or invalidates what was put under the key. -/
def Untouched (key : κ) (ops : List (Op κ ν)) : Prop :=
  (∀ value expiresMs, .put key value expiresMs ∉ ops) ∧ .invalidate key ∉ ops

/-- The expiry has not come. -/
def Fresh (expiresMs : Option Int) (nowMs : Int) : Prop :=
  ∀ expires, expiresMs = some expires → nowMs < expires

/-- What the operations so far say about the content of the cache. -/
structure History (ops : List (Op κ ν)) (trail : List κ) (c : LruCache κ ν) : Prop where
  ordered : Ordered trail c.data.keys
  backed : ∀ {key value expiresMs}, c.data.lookup key = some (value, expiresMs) →
    ∃ before later, ops = before ++ .put key value expiresMs :: later ∧ Untouched key later
  kept : ∀ {before later key value expiresMs}, ops = before ++ .put key value expiresMs :: later →
    Untouched key later → (∀ nowMs, .get key nowMs ∈ later → Fresh expiresMs nowMs) →
    c.data.lookup key = some (value, expiresMs) ∨
      (c.data.lookup key = none ∧ c.capacity ≤ (since trail key).toFinset.card)

variable {c : LruCache κ ν} {key other : κ} {value : ν} {expiresMs : Option Int} {nowMs : Int}
  {ops : List (Op κ ν)} {uses : List κ}

theorem fresh_iff : Fresh expiresMs nowMs ↔ (expiresMs.any fun expires => expires ≤ nowMs) = false := by
  cases expiresMs <;> simp [Fresh]

/-- What `get` does to the entries, by what it returns. -/
theorem get_cases (c : LruCache κ ν) (key : κ) (nowMs : Int) :
    (c.data.lookup key = none ∧ (c.get key nowMs).1 = none ∧ (c.get key nowMs).2.data = c.data) ∨
    ∃ value expiresMs, c.data.lookup key = some (value, expiresMs) ∧
      ((Fresh expiresMs nowMs ∧ (c.get key nowMs).1 = some value ∧
          (c.get key nowMs).2.data = c.data.insert key (value, expiresMs)) ∨
        (¬ Fresh expiresMs nowMs ∧ (c.get key nowMs).1 = none ∧
          (c.get key nowMs).2.data = c.data.erase key)) := by
  unfold get
  split
  · rename_i absent
    exact Or.inl ⟨absent, rfl, rfl⟩
  · rename_i value expiresMs found
    refine Or.inr ⟨value, expiresMs, found, ?_⟩
    rw [fresh_iff]
    split
    · rename_i late
      exact Or.inr ⟨by simp [late], rfl, rfl⟩
    · rename_i early
      exact Or.inl ⟨eq_false_of_ne_true early, rfl, rfl⟩

omit [DecidableEq κ] in
theorem untouched_snoc {op : Op κ ν} : Untouched key (ops ++ [op]) ↔
    Untouched key ops ∧ (∀ value expiresMs, op ≠ .put key value expiresMs) ∧ op ≠ .invalidate key := by
  simp only [Untouched, List.mem_append, List.mem_singleton, not_or]
  constructor
  · rintro ⟨puts, invalidates⟩
    exact ⟨⟨fun value expiresMs => (puts value expiresMs).1, invalidates.1⟩,
      fun value expiresMs => Ne.symm (puts value expiresMs).2, Ne.symm invalidates.2⟩
  · rintro ⟨⟨puts, invalidates⟩, noPut, noInvalidate⟩
    exact ⟨fun value expiresMs => ⟨puts value expiresMs, Ne.symm (noPut value expiresMs)⟩,
      invalidates, Ne.symm noInvalidate⟩

omit [DecidableEq κ] in
/-- Where the last put of a key stands when one more operation has been made. -/
theorem split_snoc {before later : List (Op κ ν)} {op : Op κ ν}
    (split : ops ++ [op] = before ++ .put key value expiresMs :: later) :
    (later = [] ∧ op = .put key value expiresMs ∧ before = ops) ∨
    ∃ rest, later = rest ++ [op] ∧ ops = before ++ .put key value expiresMs :: rest := by
  rcases List.eq_nil_or_concat later with rfl | ⟨rest, last, rfl⟩
  · obtain ⟨same, tail⟩ := List.append_inj' split rfl
    exact Or.inl ⟨rfl, by simpa using tail, same.symm⟩
  · rw [List.concat_eq_append, ← List.cons_append, ← List.append_assoc] at split
    obtain ⟨same, tail⟩ := List.append_inj' split rfl
    cases tail
    exact Or.inr ⟨rest, List.concat_eq_append .., same⟩

/-- An operation keeps the history if it only puts what it says, and takes a
live entry away that it does not name only as the cache overflows. -/
theorem History.step {op : Op κ ν} {c' : LruCache κ ν} {uses' : List κ} (history : History ops uses c)
    (capacity : c'.capacity = c.capacity) (ordered : Ordered uses' c'.data.keys)
    (entries : ∀ key value expiresMs, c'.data.lookup key = some (value, expiresMs) →
      op = .put key value expiresMs ∨ (c.data.lookup key = some (value, expiresMs) ∧
        (∀ value expiresMs, op ≠ .put key value expiresMs) ∧ op ≠ .invalidate key))
    (stored : ∀ key value expiresMs, op = .put key value expiresMs →
      c'.data.lookup key = some (value, expiresMs) ∨
        (c'.data.lookup key = none ∧ c'.capacity ≤ (since uses' key).toFinset.card))
    (kept : ∀ key value expiresMs, c.data.lookup key = some (value, expiresMs) →
      (∀ value expiresMs, op ≠ .put key value expiresMs) → op ≠ .invalidate key →
      (∀ nowMs, op = .get key nowMs → Fresh expiresMs nowMs) →
      c'.data.lookup key = some (value, expiresMs) ∨
        (c'.data.lookup key = none ∧ c'.capacity ≤ (since uses' key).toFinset.card))
    (absent : ∀ key, c.data.lookup key = none → (∀ value expiresMs, op ≠ .put key value expiresMs) →
      c'.data.lookup key = none ∧ (since uses key).toFinset.card ≤ (since uses' key).toFinset.card) :
    History (ops ++ [op]) uses' c' := by
  refine ⟨ordered, fun {key value expiresMs} found => ?_, fun {before later key value expiresMs} split untouched fresh => ?_⟩
  · rcases entries key value expiresMs found with rfl | ⟨old, noPut, noInvalidate⟩
    · exact ⟨ops, [], rfl, by simp [Untouched]⟩
    · obtain ⟨before, later, rfl, untouched⟩ := history.backed old
      exact ⟨before, later ++ [op], by simp, untouched_snoc.mpr ⟨untouched, noPut, noInvalidate⟩⟩
  · rcases split_snoc split with ⟨_, put, _⟩ | ⟨rest, rfl, earlier⟩
    · exact stored key value expiresMs put
    · obtain ⟨spared, noPut, noInvalidate⟩ := untouched_snoc.mp untouched
      have live := history.kept earlier spared fun nowMs member => fresh nowMs (List.mem_append_left _ member)
      rcases live with found | ⟨gone, full⟩
      · refine kept key value expiresMs found noPut noInvalidate fun nowMs got => fresh nowMs ?_
        exact List.mem_append_right _ (by simp [got])
      · obtain ⟨still, more⟩ := absent key gone noPut
        exact Or.inr ⟨still, by rw [capacity]; exact full.trans more⟩

omit [DecidableEq κ] in
theorem keys_keepNewest (n : Nat) (data : AList fun _ : κ => ν × Option Int) :
    (keepNewest n data).keys = data.keys.take n :=
  List.map_take ..

/-- An entry is among the newest, or its key is not among their keys. -/
theorem lookup_keepNewest {n : Nat} {data : AList fun _ : κ => ν × Option Int} {entry : ν × Option Int}
    (found : data.lookup key = some entry) :
    (keepNewest n data).lookup key = some entry ∨
      ((keepNewest n data).lookup key = none ∧ key ∉ data.keys.take n) := by
  cases kept : (keepNewest n data).lookup key with
  | none =>
    have gone := AList.lookup_eq_none.mp kept
    rw [AList.mem_keys, keys_keepNewest] at gone
    exact Or.inr ⟨rfl, gone⟩
  | some entry' =>
    have member := AList.mem_lookup_iff.mpr (List.mem_of_mem_take (AList.mem_lookup_iff.mp kept))
    exact Or.inl (member.symm.trans found)

theorem lookup_keepNewest_none {n : Nat} {data : AList fun _ : κ => ν × Option Int}
    (absent : data.lookup key = none) : (keepNewest n data).lookup key = none := by
  rw [AList.lookup_eq_none, AList.mem_keys, keys_keepNewest]
  exact fun member => AList.lookup_eq_none.mp absent (AList.mem_keys.mpr (List.mem_of_mem_take member))

theorem History.put (history : History ops uses c) (key : κ) (value : ν) (expiresMs : Option Int) :
    History (ops ++ [.put key value expiresMs]) (uses ++ [key]) (c.put key value expiresMs) := by
  have front := history.ordered.use key
  rw [← AList.keys_insert (β := fun _ => ν × Option Int) (b := (value, expiresMs))] at front
  refine history.step rfl ?_ (fun other value' expiresMs' found => ?_) ?_ ?_ (fun other gone noPut => ⟨?_, ?_⟩)
  · show Ordered _ (keepNewest c.capacity _).keys
    rw [keys_keepNewest]
    exact front.sublist (List.take_sublist ..)
  · by_cases own : other = key
    · subst own
      have inserted : (c.data.insert other (value, expiresMs)).lookup other = some (value, expiresMs) :=
        AList.lookup_insert c.data
      rcases lookup_keepNewest (n := c.capacity) inserted with kept | ⟨gone, _⟩
      · cases kept.symm.trans found
        exact Or.inl rfl
      · cases gone.symm.trans found
    · rcases lookup_put found with ⟨same, _⟩ | old
      · exact absurd same own
      · exact Or.inr ⟨old, by simpa using Ne.symm own, by simp⟩
  · rintro other value' expiresMs' same
    cases same
    rcases Nat.eq_zero_or_pos c.capacity with full | room
    · exact Or.inr ⟨lookup_of_capacity_zero (c := c.put key value expiresMs) full key, full ▸ Nat.zero_le _⟩
    · exact Or.inl (lookup_put_self room ..)
  · intro other value' expiresMs' found noPut _ _
    have different : other ≠ key := by
      rintro rfl
      exact noPut _ _ rfl
    have inserted : (c.data.insert key (value, expiresMs)).lookup other = some (value', expiresMs') := by
      rw [AList.lookup_insert_ne different, found]
    rcases lookup_keepNewest (n := c.capacity) inserted with kept | ⟨gone, out⟩
    · exact Or.inl kept
    · have member : other ∈ (c.data.insert key (value, expiresMs)).keys :=
        AList.mem_keys.mp (AList.lookup_isSome.mp (by rw [inserted]; rfl))
      exact Or.inr ⟨gone, front.card_since member out⟩
  · have different : other ≠ key := by
      rintro rfl
      exact noPut _ _ rfl
    exact lookup_keepNewest_none (by rw [AList.lookup_insert_ne different, gone])
  · refine card_since_snoc uses ?_
    rintro rfl
    exact noPut _ _ rfl

theorem History.hit (history : History ops uses c) (found : c.data.lookup key = some (value, expiresMs))
    {c' : LruCache κ ν} (capacity : c'.capacity = c.capacity)
    (data : c'.data = c.data.insert key (value, expiresMs)) :
    History (ops ++ [.get key nowMs]) (uses ++ [key]) c' := by
  have same (other : κ) : c'.data.lookup other = c.data.lookup other := by
    by_cases own : other = key
    · rw [own, data, AList.lookup_insert, found]
    · rw [data, AList.lookup_insert_ne own]
  refine history.step capacity ?_ (fun other value expiresMs here => ?_) (by simp)
    (fun other value expiresMs here _ _ _ => Or.inl ?_) (fun other gone _ => ⟨?_, ?_⟩)
  · rw [data, AList.keys_insert]
    exact history.ordered.use key
  · rw [same] at here
    exact Or.inr ⟨here, by simp, by simp⟩
  · rw [same, here]
  · rw [same, gone]
  · refine card_since_snoc uses fun own => ?_
    rw [own, gone] at found
    cases found

/-- An operation that uses no key takes away at most the entry it names. -/
theorem History.drop {op : Op κ ν} (history : History ops uses c) {c' : LruCache κ ν}
    (capacity : c'.capacity = c.capacity) (data : c'.data = c.data.erase key)
    (noPut : ∀ key value expiresMs, op ≠ .put key value expiresMs)
    (dropped : op = .invalidate key ∨ ∃ nowMs, op = .get key nowMs ∧
      ∀ value expiresMs, c.data.lookup key = some (value, expiresMs) → ¬ Fresh expiresMs nowMs) :
    History (ops ++ [op]) uses c' := by
  refine history.step capacity ?_ (fun other value expiresMs found => Or.inr ?_) ?_ ?_ (fun other gone _ => ⟨?_, le_rfl⟩)
  · rw [data, AList.keys_erase]
    exact history.ordered.sublist List.erase_sublist
  · rw [data] at found
    obtain ⟨different, old⟩ := lookup_erase_some found
    refine ⟨old, noPut other, ?_⟩
    rcases dropped with rfl | ⟨nowMs, rfl, _⟩
    · simpa using Ne.symm different
    · simp
  · intro other value expiresMs put
    exact absurd put (noPut other value expiresMs)
  · intro other value expiresMs found _ spared fresh
    have different : other ≠ key := by
      rintro rfl
      rcases dropped with named | ⟨nowMs, got, late⟩
      · exact spared named
      · exact late value expiresMs found (fresh nowMs got)
    exact Or.inl (by rw [data, AList.lookup_erase_ne different, found])
  · rw [data]
    by_cases own : other = key
    · rw [own, AList.lookup_erase]
    · rw [AList.lookup_erase_ne own, gone]

theorem erase_absent {data : AList fun _ : κ => ν × Option Int} (absent : data.lookup key = none) :
    data.erase key = data := by
  refine AList.ext ?_
  exact List.kerase_of_notMem_keys (AList.lookup_eq_none.mp absent)

theorem History.perform (history : History ops uses c) (op : Op κ ν) :
    History (ops ++ [op]) (uses ++ (used (op, (c.perform op).1)).toList) (c.perform op).2 := by
  cases op with
  | put key value expiresMs => exact history.put key value expiresMs
  | invalidate key =>
    rw [used_invalidate, Option.toList_none, List.append_nil]
    exact history.drop rfl rfl (by simp) (Or.inl rfl)
  | get key nowMs =>
    show History _ (uses ++ (used (.get key nowMs, (c.get key nowMs).1)).toList) (c.get key nowMs).2
    rcases get_cases c key nowMs with ⟨absent, missed, data⟩ | ⟨value, expiresMs, found, hit | late⟩
    · rw [missed, used_miss, Option.toList_none, List.append_nil]
      refine history.drop (capacity_get ..) (data.trans (erase_absent absent).symm) (by simp)
        (Or.inr ⟨nowMs, rfl, fun value expiresMs found => ?_⟩)
      cases absent.symm.trans found
    · obtain ⟨_, answered, data⟩ := hit
      rw [answered, used_hit, Option.toList_some]
      exact history.hit found (capacity_get ..) data
    · obtain ⟨expired, missed, data⟩ := late
      rw [missed, used_miss, Option.toList_none, List.append_nil]
      refine history.drop (capacity_get ..) data (by simp) (Or.inr ⟨nowMs, rfl, fun _ _ found' => ?_⟩)
      cases found.symm.trans found'
      exact expired

theorem trail_snoc (capacity : Nat) (ops : List (Op κ ν)) (op : Op κ ν) : trail capacity (ops ++ [op]) =
    trail capacity ops ++ (used (op, ((after perform (empty capacity) ops).perform op).1)).toList := by
  rw [trail, transcript_snoc, List.filterMap_append]
  congr 1

theorem history_of_ops (capacity : Nat) (ops : List (Op κ ν)) :
    History ops (trail capacity ops) (after perform (empty capacity) ops) := by
  induction ops using List.reverseRecOn with
  | nil =>
    refine ⟨.nil, fun found => ?_, fun split => ?_⟩
    · cases found
    · simp at split
  | append_singleton ops op ih =>
    rw [trail_snoc, after_snoc]
    exact ih.perform op

theorem capacity_after (capacity : Nat) (ops : List (Op κ ν)) :
    (after perform (empty capacity) ops).capacity = capacity := by
  induction ops using List.reverseRecOn with
  | nil => rfl
  | append_singleton ops op ih =>
    rw [after_snoc]
    cases op with
    | get key nowMs => exact (capacity_get ..).trans ih
    | _ => exact ih

theorem mem_trail (capacity : Nat) (put : .put key value expiresMs ∈ ops) : key ∈ trail capacity ops := by
  rw [← transcript_inputs perform (empty capacity) ops] at put
  obtain ⟨⟨op, answer⟩, member, same⟩ := List.mem_map.mp put
  cases (show op = .put key value expiresMs from same)
  exact List.mem_filterMap.mpr ⟨_, member, used_put ..⟩

/-- After any operations on an empty cache: it holds at most `capacity` entries,
one for each key, in the order of their last uses; what it serves is the latest
value put under the key, neither invalidated nor expired; and a live entry is
only missed after an invalidation, a read past its expiry, or the use of
`capacity` other keys since its own last use. -/
theorem lru_history (capacity : Nat) (ops : List (Op κ ν)) :
    ((after perform (empty capacity) ops).data.entries.length ≤ capacity ∧
      (after perform (empty capacity) ops).data.keys.Nodup ∧
      Ordered (trail capacity ops) (after perform (empty capacity) ops).data.keys) ∧
    (∀ key nowMs value, ((after perform (empty capacity) ops).get key nowMs).1 = some value →
      ∃ before expiresMs later, ops = before ++ .put key value expiresMs :: later ∧
        Untouched key later ∧ Fresh expiresMs nowMs) ∧
    ∀ before key value expiresMs later nowMs, ops = before ++ .put key value expiresMs :: later →
      (∀ value expiresMs, .put key value expiresMs ∉ later) → Fresh expiresMs nowMs →
      ((after perform (empty capacity) ops).get key nowMs).1 ≠ some value →
      .invalidate key ∈ later ∨ (∃ readMs, .get key readMs ∈ later ∧ ¬ Fresh expiresMs readMs) ∨
        ∃ earlier others, trail capacity ops = earlier ++ key :: others ∧ key ∉ others ∧
          capacity ≤ others.toFinset.card := by
  have history := history_of_ops capacity ops
  have size := capacity_after capacity ops
  refine ⟨⟨?_, AList.keys_nodup _, history.ordered⟩, fun key nowMs value hit => ?_, ?_⟩
  · have bounded := (after perform (empty capacity) ops).bounded
    rwa [size] at bounded
  · obtain ⟨expiresMs, found, early⟩ := get_hit hit
    obtain ⟨before, later, split, untouched⟩ := history.backed found
    exact ⟨before, expiresMs, later, split, untouched, fresh_iff.mpr early⟩
  · intro before key value expiresMs later nowMs split single fresh unserved
    by_contra none
    push Not at none
    obtain ⟨spared, unread, few⟩ := none
    rcases history.kept split ⟨single, spared⟩ unread with found | ⟨gone, full⟩
    · refine unserved ?_
      rw [get_value, found, Option.bind_some, fresh_iff.mp fresh]
      rfl
    · have put : .put key value expiresMs ∈ ops := by
        rw [split]
        exact List.mem_append_right _ (List.mem_cons_self ..)
      obtain ⟨earlier, others, whole, last, same⟩ := exists_last_use (mem_trail capacity put)
      have fewer := few earlier others whole last
      rw [size, same, List.toFinset_reverse] at full
      omega

/-- With room for two, `b` leaves the cache: `a` and `c` are used after it. -/
def evictingOps : List (Op String Nat) :=
  [.put "a" 1 none, .put "b" 2 none, .get "a" 0, .put "c" 3 (some 5)]

theorem lru_history_evicting :
    (after perform (empty 2) evictingOps).data.keys.Nodup ∧
    (∃ before expiresMs later, evictingOps = before ++ .put "a" 1 expiresMs :: later ∧
      Untouched "a" later ∧ Fresh expiresMs 7) ∧
    (.invalidate "b" ∈ evictingOps.drop 2 ∨ (∃ readMs, .get "b" readMs ∈ evictingOps.drop 2 ∧ ¬ Fresh none readMs) ∨
      ∃ earlier others, trail 2 evictingOps = earlier ++ "b" :: others ∧ "b" ∉ others ∧ 2 ≤ others.toFinset.card) := by
  obtain ⟨⟨_, nodup, _⟩, served, missed⟩ := lru_history 2 evictingOps
  refine ⟨nodup, served "a" 7 1 (by decide +kernel), ?_⟩
  exact missed [.put "a" 1 none] "b" 2 none (evictingOps.drop 2) 0 rfl (by simp [evictingOps]) (by simp [Fresh])
    (by decide +kernel)

end LruCache
end UrlShortener
