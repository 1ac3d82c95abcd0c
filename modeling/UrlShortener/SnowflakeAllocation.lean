import UrlShortener.Codes

namespace UrlShortener
open Transition

/-- Instances that draw their codes from snowflake generators of their own and
write their links to one store. -/
structure SnowflakeAllocation (ι : Type) where
  fleet : SnowflakeFleet ι
  allocations : Allocations
  instanceOf : Nat → Option ι := fun _ => none
  /-- The code that a call has drawn and not tried yet. -/
  drawn : Nat → Option String := fun _ => none

/-- What `next_code` makes of the answer of `next_id`. -/
def codeOf : Except String Int → Except CodeError String
  | .ok id => encodeBase62 id
  | .error detail => .error (.runtimeError detail)

namespace SnowflakeAllocation
variable {ι : Type} [DecidableEq ι]

inductive Event (ι : Type)
  | allocate (id : Nat) (k : ι) (allocator : CodeAllocator) (target : String) (ttlSeconds : Option Int)
  /-- `next_code`, under the lock of the generator. -/
  | draw (id : Nat)
  /-- `store.create` with the code that was drawn. -/
  | insert (id : Nat) (clock : Int)
  | giveUp (id : Nat)
  /-- The store raises something other than a KeyError. -/
  | fail (id : Nat)
  deriving DecidableEq

def Event.draws (id : Nat) : Event ι → Bool
  | .draw other => other = id
  | _ => false

def start (instanceId : ι → Fin (maxInstance + 1)) (clock : ι → List Int) (initial : LinkStore) :
    SnowflakeAllocation ι :=
  { fleet := .start instanceId clock, allocations := .start initial }

/-- Another round of the loop of `allocate` is due. -/
def due (w : SnowflakeAllocation ι) (id : Nat) : Bool :=
  match w.allocations.call id with
  | some a => match a.phase with
    | .attempting (_ + 1) => (w.drawn id).isNone
    | _ => false
  | none => false

def perform (w : SnowflakeAllocation ι) : Event ι → Option (SnowflakeAllocation ι)
  | .allocate id k allocator target ttlSeconds =>
    (w.allocations.perform (.allocate id allocator target ttlSeconds)).map fun allocations =>
      { w with allocations := allocations, instanceOf := Function.update w.instanceOf id (some k) }
  | .draw id => (w.instanceOf id).bind fun k =>
    ((w.fleet.generator k).nextId (w.fleet.clock k)).bind fun ((answer, _), _) =>
    (w.fleet.nextId k).bind fun fleet =>
      if w.due id then match codeOf answer with
        | .ok code => some { w with fleet := fleet, drawn := Function.update w.drawn id (some code) }
        -- The exception leaves `allocate`: only a KeyError of the store is caught.
        | .error _ => (w.allocations.perform (.fail id)).map fun allocations =>
          { w with fleet := fleet, allocations := allocations }
      else none
  | .insert id clock => (w.drawn id).bind fun code =>
    (w.allocations.perform (.attempt id code clock)).map fun allocations =>
      { w with allocations := allocations, drawn := Function.update w.drawn id none }
  | .giveUp id => (w.allocations.perform (.giveUp id)).map fun allocations => { w with allocations := allocations }
  | .fail id => (w.drawn id).bind fun _ => (w.allocations.perform (.fail id)).map fun allocations =>
      { w with allocations := allocations, drawn := Function.update w.drawn id none }

def Step (w : SnowflakeAllocation ι) (event : Event ι) (w' : SnowflakeAllocation ι) : Prop :=
  w.perform event = some w'

/-- The generator of some instance has issued the id that `code` spells. -/
def Issued (w : SnowflakeAllocation ι) (code : String) : Prop :=
  ∃ k id, (k, id) ∈ w.fleet.issued ∧ encodeBase62 id = .ok code

/-- No code of the store spells an id of an instance that is still to issue ids. -/
def Unclaimed (instanceId : ι → Fin (maxInstance + 1)) (initial : LinkStore) : Prop :=
  ∀ code link id k, initial.get code = some link → encodeBase62 id = .ok code →
    (decodeId id).instanceId ≠ (instanceId k : Nat)

/-- Where a call stands: it has its code, or is about to draw it. -/
structure Places (trace : List (Event ι)) (w : SnowflakeAllocation ι) : Prop where
  unbegun : ∀ {id}, w.allocations.call id = none → w.drawn id = none ∧ trace.countP (Event.draws id) = 0
  attempting : ∀ {id a left}, w.allocations.call id = some a → a.phase = .attempting left →
    left = a.allocator.maxAttempts ∧ trace.countP (Event.draws id) = if (w.drawn id).isSome then 1 else 0
  holding : ∀ {id code}, w.drawn id = some code →
    ∃ a left, w.allocations.call id = some a ∧ a.phase = .attempting (left + 1)
  once : ∀ id, trace.countP (Event.draws id) ≤ 1
  unexhausted : ∀ {id a error}, w.allocations.call id = some a → a.phase ≠ .exhausted error

/-- The codes in hand are those of ids of their own, and free. -/
structure Apart (instanceId : ι → Fin (maxInstance + 1)) (initial : LinkStore) (w : SnowflakeAllocation ι) : Prop where
  sound : w.fleet.Sound instanceId
  issued : ∀ {id code}, w.drawn id = some code → w.Issued code
  free : ∀ {id code}, w.drawn id = some code → w.allocations.store.get code = none
  distinct : ∀ {id other code}, w.drawn id = some code → w.drawn other = some code → id = other
  stored : ∀ {code link}, w.allocations.store.get code = some link → initial.get code = some link ∨ w.Issued code

/-- All that a step can do: it starts a call, draws a code for one, tries the
code that one has drawn, or ends one by an exception. -/
inductive Effect (w : SnowflakeAllocation ι) (event : Event ι) : SnowflakeAllocation ι → Prop
  | begun {id a instanceOf} : w.allocations.call id = none → a.phase = .attempting a.allocator.maxAttempts →
      (∀ other, event.draws other = false) →
      Effect w event { w with allocations := w.allocations.put id a, instanceOf := instanceOf }
  | drew {id k a left n code g fleet} : w.allocations.call id = some a → a.phase = .attempting (left + 1) →
      w.drawn id = none → (w.fleet.generator k).Issues n g → fleet.issued = w.fleet.issued ++ [(k, n)] →
      fleet.generator = Function.update w.fleet.generator k g → encodeBase62 n = .ok code →
      (∀ other, event.draws other = decide (id = other)) →
      Effect w event { w with fleet := fleet, drawn := Function.update w.drawn id (some code) }
  | refused {id k a left fleet} : w.allocations.call id = some a → a.phase = .attempting (left + 1) →
      w.drawn id = none → w.fleet.Step k fleet → (∀ other, event.draws other = decide (id = other)) →
      Effect w event { w with fleet := fleet, allocations := w.allocations.put id { a with phase := .raised } }
  | inserted {id a left link} : w.drawn id = some link.code → w.allocations.call id = some a →
      a.phase = .attempting (left + 1) → w.allocations.store.get link.code = none →
      (∀ other, event.draws other = false) →
      Effect w event { w with
        allocations := { w.allocations.put id { a with phase := .returned link } with
          store := w.allocations.store.insert link }
        drawn := Function.update w.drawn id none }
  | collided {id a left code w'} : w.drawn id = some code → w.allocations.call id = some a →
      a.phase = .attempting (left + 1) → w.allocations.store.get code ≠ none → Effect w event w'
  | gaveUp {id a} : w.allocations.call id = some a → a.phase = .attempting 0 →
      Effect w event { w with
        allocations := w.allocations.put id { a with phase := .exhausted a.allocator.exhausted } }
  | failed {id a left code} : w.drawn id = some code → w.allocations.call id = some a →
      a.phase = .attempting (left + 1) → (∀ other, event.draws other = false) →
      Effect w event { w with
        allocations := w.allocations.put id { a with phase := .raised }
        drawn := Function.update w.drawn id none }

section
variable {w w' : SnowflakeAllocation ι} {event : Event ι} {trace : List (Event ι)} {id : Nat} {code : String}
  {instanceId : ι → Fin (maxInstance + 1)} {clock : ι → List Int} {initial : LinkStore}

omit [DecidableEq ι] in
theorem due_cases (due : w.due id = true) :
    w.drawn id = none ∧ ∃ a left, w.allocations.call id = some a ∧ a.phase = .attempting (left + 1) := by
  unfold SnowflakeAllocation.due at due
  split at due
  · rename_i a known
    split at due
    · rename_i left here
      exact ⟨Option.isNone_iff_eq_none.mp due, a, left, known, here⟩
    · cases due
  · cases due

omit [DecidableEq ι] in
theorem perform_fail {allocations : Allocations} (ended : w.allocations.perform (.fail id) = some allocations) :
    ∃ a left, w.allocations.call id = some a ∧ a.phase = .attempting (left + 1) ∧
      allocations = w.allocations.put id { a with phase := .raised } := by
  obtain ⟨a, known, mapped⟩ := Option.bind_eq_some_iff.mp ended
  obtain ⟨phase, failed, rfl⟩ := Option.map_eq_some_iff.mp mapped
  obtain ⟨left, here, rfl⟩ := a.fail_cases failed
  exact ⟨a, left, known, here, rfl⟩

theorem Effect.of_draw (taken : w.perform (.draw id) = some w') : w.Effect (.draw id) w' := by
  obtain ⟨k, _, taken⟩ := Option.bind_eq_some_iff.mp taken
  obtain ⟨⟨⟨answer, g⟩, later⟩, called, taken⟩ := Option.bind_eq_some_iff.mp taken
  obtain ⟨fleet, stepped, taken⟩ := Option.bind_eq_some_iff.mp taken
  obtain ⟨due, taken⟩ := Option.ite_none_right_eq_some.mp taken
  obtain ⟨undrawn, a, left, known, here⟩ := due_cases due
  cases named : codeOf answer with
  | ok code =>
    rw [named] at taken
    cases taken
    cases answer with
    | error detail => cases named
    | ok n =>
      rcases SnowflakeGenerator.nextId_cases called with ⟨_, refused, _⟩ | ⟨_, returned, issues⟩
      · cases refused
      · cases returned
        have moved : w.fleet.nextId k = some _ := congrArg (Option.map _) called
        cases stepped.symm.trans moved
        exact .drew known here undrawn issues rfl rfl named fun _ => rfl
  | error error =>
    rw [named] at taken
    obtain ⟨allocations, failed, rfl⟩ := Option.map_eq_some_iff.mp taken
    obtain ⟨b, left', known', here', rfl⟩ := perform_fail failed
    exact .refused known' here' undrawn stepped fun _ => rfl

theorem Step.effect (taken : w.Step event w') : w.Effect event w' := by
  cases event with
  | allocate id k allocator target ttlSeconds =>
    obtain ⟨allocations, began, rfl⟩ := Option.map_eq_some_iff.mp taken
    obtain ⟨free, same⟩ := Option.ite_none_right_eq_some.mp began
    cases same
    exact .begun free rfl fun _ => rfl
  | draw id => exact .of_draw taken
  | insert id clock =>
    obtain ⟨code, held, taken⟩ := Option.bind_eq_some_iff.mp taken
    obtain ⟨allocations, tried, rfl⟩ := Option.map_eq_some_iff.mp taken
    obtain ⟨a, known, mapped⟩ := Option.bind_eq_some_iff.mp tried
    obtain ⟨⟨store, phase⟩, attempted, rfl⟩ := Option.map_eq_some_iff.mp mapped
    obtain ⟨left, here, _⟩ := a.attempt_cases attempted
    cases found : w.allocations.store.get code with
    | some row => exact .collided held known here (by rw [found]; exact Option.some_ne_none row)
    | none =>
      have free : code ∉ w.allocations.store.rows := AList.lookup_eq_none.mp found
      rw [Allocation.attempt, here, LinkStore.create, if_neg free] at attempted
      cases attempted
      exact .inserted held known here found fun _ => rfl
  | giveUp id =>
    obtain ⟨allocations, ended, rfl⟩ := Option.map_eq_some_iff.mp taken
    obtain ⟨a, known, mapped⟩ := Option.bind_eq_some_iff.mp ended
    obtain ⟨phase, gaveUp, rfl⟩ := Option.map_eq_some_iff.mp mapped
    obtain ⟨here, rfl⟩ := a.giveUp_cases gaveUp
    exact .gaveUp known here
  | fail id =>
    obtain ⟨code, held, taken⟩ := Option.bind_eq_some_iff.mp taken
    obtain ⟨allocations, failed, rfl⟩ := Option.map_eq_some_iff.mp taken
    obtain ⟨a, left, known, here, rfl⟩ := perform_fail failed
    exact .failed held known here fun _ => rfl

omit [DecidableEq ι] in
/-- The other calls stand where they stood. -/
theorem Places.put {a : Allocation} (places : w.Places trace)
    (call : w'.allocations.call = (w.allocations.put id a).call)
    (drawn : ∀ other, other ≠ id → w'.drawn other = w.drawn other)
    (elsewhere : ∀ other, id ≠ other → event.draws other = false)
    (attempting : ∀ left, a.phase = .attempting left → left = a.allocator.maxAttempts ∧
      (trace ++ [event]).countP (Event.draws id) = if (w'.drawn id).isSome then 1 else 0)
    (holding : ∀ code, w'.drawn id = some code → ∃ left, a.phase = .attempting (left + 1))
    (once : (trace ++ [event]).countP (Event.draws id) ≤ 1) (unexhausted : ∀ error, a.phase ≠ .exhausted error) :
    w'.Places (trace ++ [event]) := by
  have own : w'.allocations.call id = some a := by rw [call]; exact Function.update_self ..
  have kept {other : Nat} (different : other ≠ id) : w'.allocations.call other = w.allocations.call other := by
    rw [call]
    exact Function.update_of_ne different ..
  have same {other : Nat} (different : other ≠ id) :
      (trace ++ [event]).countP (Event.draws other) = trace.countP (Event.draws other) := by
    rw [List.countP_append, List.countP_singleton, elsewhere other (Ne.symm different), if_neg Bool.false_ne_true,
      add_zero]
  constructor
  · intro other gone
    have different : other ≠ id := by
      rintro rfl
      cases own.symm.trans gone
    rw [drawn other different, same different]
    exact places.unbegun ((kept different).symm.trans gone)
  · intro other b left known phase
    by_cases here : other = id
    · subst here
      cases own.symm.trans known
      exact attempting left phase
    · rw [drawn other here, same here]
      exact places.attempting ((kept here).symm.trans known) phase
  · intro other code held
    by_cases here : other = id
    · subst here
      obtain ⟨left, phase⟩ := holding code held
      exact ⟨a, left, own, phase⟩
    · rw [kept here]
      exact places.holding ((drawn other here).symm.trans held)
  · intro other
    by_cases here : other = id
    · exact here ▸ once
    · rw [same here]
      exact places.once other
  · intro other b error known
    by_cases here : other = id
    · subst here
      cases own.symm.trans known
      exact unexhausted error
    · exact places.unexhausted ((kept here).symm.trans known)

theorem Places.step (places : w.Places trace)
    (free : ∀ {id code}, w.drawn id = some code → w.allocations.store.get code = none) (taken : w.Step event w') :
    w'.Places (trace ++ [event]) := by
  have drawing (id : Nat) : (trace ++ [event]).countP (Event.draws id) =
      trace.countP (Event.draws id) + if event.draws id = true then 1 else 0 := by
    rw [List.countP_append, List.countP_singleton]
  cases taken.effect with
  | @begun id a _ absent phase quiet =>
    obtain ⟨undrawn, none⟩ := places.unbegun absent
    have count : (trace ++ [event]).countP (Event.draws id) = 0 := by
      rw [drawing, quiet, none, if_neg Bool.false_ne_true]
    refine places.put rfl (fun _ _ => rfl) (fun other _ => quiet other) ?_ ?_ (by omega) ?_
    · intro left here
      cases phase.symm.trans here
      refine ⟨rfl, ?_⟩
      rw [count, undrawn]
      rfl
    · intro code held
      cases undrawn.symm.trans held
    · intro error exhausted
      cases phase.symm.trans exhausted
  | @drew id k a left n code g fleet known here undrawn issues issued generator encoded draws =>
    obtain ⟨full, none⟩ := places.attempting known here
    have count : (trace ++ [event]).countP (Event.draws id) = 1 := by
      rw [drawing, draws, none, undrawn, decide_eq_true rfl]
      rfl
    refine places.put (Function.update_eq_self_iff.mpr known.symm).symm (fun other different => ?_)
      (fun other different => ?_) ?_ (fun _ _ => ⟨left, here⟩) (by omega) ?_
    · exact Function.update_of_ne different ..
    · rw [draws, decide_eq_false different]
    · intro rest phase
      cases here.symm.trans phase
      refine ⟨full, ?_⟩
      rw [count]
      have held : Function.update w.drawn id (some code) id = some code := Function.update_self ..
      exact (if_pos (Option.isSome_iff_exists.mpr ⟨code, held⟩)).symm
    · intro error exhausted
      cases here.symm.trans exhausted
  | @refused id k a left fleet known here undrawn _ draws =>
    obtain ⟨full, none⟩ := places.attempting known here
    refine places.put rfl (fun _ _ => rfl) (fun other different => ?_) (by simp) (fun code held => ?_) ?_ (by simp)
    · rw [draws, decide_eq_false different]
    · cases undrawn.symm.trans held
    · rw [drawing, draws, none, undrawn, decide_eq_true rfl]
      exact Nat.le_refl 1
  | @inserted id a left link held known here free quiet =>
    refine places.put rfl (fun other different => Function.update_of_ne different ..) (fun other _ => quiet other)
      (by simp) (fun code held' => ?_) ?_ (by simp)
    · cases (Function.update_self ..).symm.trans held'
    · rw [drawing, quiet, if_neg Bool.false_ne_true]
      exact places.once id
  | collided held known here taken => exact absurd (free held) taken
  | @gaveUp id a known here =>
    obtain ⟨none, _⟩ := places.attempting known here
    have positive := a.allocator.maxAttempts_pos
    omega
  | @failed id a left code held known here quiet =>
    refine places.put rfl (fun other different => Function.update_of_ne different ..) (fun other _ => quiet other)
      (by simp) (fun code held' => ?_) ?_ (by simp)
    · cases (Function.update_self ..).symm.trans held'
    · rw [drawing, quiet, if_neg Bool.false_ne_true]
      exact places.once id

omit [DecidableEq ι] in
theorem Issued.mono (issued : w.Issued code) (grows : ∀ entry ∈ w.fleet.issued, entry ∈ w'.fleet.issued) :
    w'.Issued code := by
  obtain ⟨k, id, member, encoded⟩ := issued
  exact ⟨k, id, grows _ member, encoded⟩

/-- A new id spells a code that is neither in the store nor in the hands of a call. -/
theorem Apart.unissued {k : ι} {n : Int} {g : SnowflakeGenerator} (apart : w.Apart instanceId initial)
    (distinct : Function.Injective instanceId) (issues : (w.fleet.generator k).Issues n g)
    (encoded : encodeBase62 n = .ok code) : ¬ w.Issued code := by
  rintro ⟨other, m, member, encoded'⟩
  have same : m = n := by
    obtain ⟨_, x, read, rfl⟩ := encodeBase62_iff.mp encoded
    obtain ⟨_, y, read', rfl⟩ := encodeBase62_iff.mp encoded'
    cases read.symm.trans read'
    rfl
  exact apart.sound.new distinct issues (same ▸ member)

theorem Apart.new_free {k : ι} {n : Int} {g : SnowflakeGenerator} (apart : w.Apart instanceId initial)
    (distinct : Function.Injective instanceId) (unclaimed : Unclaimed instanceId initial)
    (issues : (w.fleet.generator k).Issues n g) (encoded : encodeBase62 n = .ok code) :
    w.allocations.store.get code = none := by
  refine Option.eq_none_iff_forall_ne_some.mpr fun link taken => ?_
  rcases apart.stored taken with old | issued
  · refine unclaimed code link n k old encoded ?_
    rw [issues.decodeId_instanceId, apart.sound.own]
  · exact apart.unissued distinct issues encoded issued

theorem Apart.step (apart : w.Apart instanceId initial) (distinct : Function.Injective instanceId)
    (unclaimed : Unclaimed instanceId initial) (taken : w.Step event w') : w'.Apart instanceId initial := by
  -- A call that gives up its code takes it from nobody.
  have released {id other : Nat} {code : String} (held : Function.update w.drawn id none other = some code) :
      other ≠ id ∧ w.drawn other = some code := by
    by_cases own : other = id
    · subst own
      cases (Function.update_self ..).symm.trans held
    · exact ⟨own, (Function.update_of_ne own ..).symm.trans held⟩
  cases taken.effect with
  | begun _ _ _ | gaveUp _ _ => exact ⟨apart.sound, apart.issued, apart.free, apart.distinct, apart.stored⟩
  | @drew id k a left n code g fleet known here undrawn issues issued generator encoded draws =>
    have grows : ∀ entry ∈ w.fleet.issued, entry ∈ fleet.issued := fun entry member => by
      rw [issued]
      exact List.mem_append_left _ member
    have now : ∃ k m, (k, m) ∈ fleet.issued ∧ encodeBase62 m = .ok code :=
      ⟨k, n, by rw [issued]; exact List.mem_append_right _ (List.mem_singleton_self _), encoded⟩
    have cases_drawn {other : Nat} {held : String} (draws : Function.update w.drawn id (some code) other = some held) :
        (other = id ∧ held = code) ∨ w.drawn other = some held := by
      by_cases own : other = id
      · subst own
        rw [Function.update_self] at draws
        exact Or.inl ⟨rfl, (Option.some.inj draws).symm⟩
      · exact Or.inr ((Function.update_of_ne own ..).symm.trans draws)
    have unheld {other : Nat} : w.drawn other ≠ some code := fun held =>
      apart.unissued distinct issues encoded (apart.issued held)
    refine ⟨apart.sound.issue distinct issues issued generator, fun held => ?_, fun held => ?_,
      fun held held' => ?_, fun stored => (apart.stored stored).imp_right fun before => before.mono grows⟩
    · rcases cases_drawn held with ⟨_, rfl⟩ | before
      · exact now
      · exact (apart.issued before).mono grows
    · rcases cases_drawn held with ⟨_, rfl⟩ | before
      · exact apart.new_free distinct unclaimed issues encoded
      · exact apart.free before
    · rcases cases_drawn held with ⟨rfl, rfl⟩ | before
      · rcases cases_drawn held' with ⟨rfl, _⟩ | before'
        · rfl
        · exact absurd before' unheld
      · rcases cases_drawn held' with ⟨_, rfl⟩ | before'
        · exact absurd before unheld
        · exact apart.distinct before before'
  | @refused id k a left fleet known here undrawn stepped draws =>
    rcases SnowflakeFleet.step_cases stepped with ⟨issued, generator⟩ | ⟨n, g, issues, issued, generator⟩
    · have grows : ∀ entry ∈ w.fleet.issued, entry ∈ fleet.issued := fun entry member => issued ▸ member
      exact ⟨apart.sound.refuse issued generator, fun held => (apart.issued held).mono grows, apart.free,
        apart.distinct, fun stored => (apart.stored stored).imp_right fun before => before.mono grows⟩
    · have grows : ∀ entry ∈ w.fleet.issued, entry ∈ fleet.issued := fun entry member => by
        rw [issued]
        exact List.mem_append_left _ member
      exact ⟨apart.sound.issue distinct issues issued generator, fun held => (apart.issued held).mono grows,
        apart.free, apart.distinct, fun stored => (apart.stored stored).imp_right fun before => before.mono grows⟩
  | @inserted id a left link held known here free quiet =>
    refine ⟨apart.sound, fun held' => apart.issued (released held').2, fun {other code} held' => ?_,
      fun held' other => apart.distinct (released held').2 (released other).2, fun {code row} stored => ?_⟩
    · obtain ⟨different, before⟩ := released held'
      have other : code ≠ link.code := by
        rintro rfl
        exact different (apart.distinct before held)
      exact (w.allocations.store.get_insert_other other).trans (apart.free before)
    · by_cases own : code = link.code
      · exact Or.inr (own ▸ apart.issued held)
      · exact apart.stored ((w.allocations.store.get_insert_other own).symm.trans stored)
  | collided held known here taken => exact absurd (apart.free held) taken
  | failed held known here quiet =>
    exact ⟨apart.sound, fun held' => apart.issued (released held').2, fun held' => apart.free (released held').2,
      fun held' other => apart.distinct (released held').2 (released other).2, apart.stored⟩

theorem apart_of_run (distinct : Function.Injective instanceId) (unclaimed : Unclaimed instanceId initial)
    (run : Run Step (start instanceId clock initial) trace w) : w.Apart instanceId initial ∧ w.Places trace := by
  induction run with
  | start =>
    have undrawn {id : Nat} {code : String} : (start instanceId clock initial).drawn id ≠ some code := nofun
    have absent {id : Nat} {a : Allocation} : (start instanceId clock initial).allocations.call id ≠ some a := nofun
    constructor
    · exact ⟨SnowflakeFleet.sound_of_run distinct .start, fun held => absurd held undrawn,
        fun held => absurd held undrawn, fun held => absurd held undrawn, fun stored => Or.inl stored⟩
    · exact ⟨fun _ => ⟨rfl, rfl⟩, fun known => absurd known absent, fun held => absurd held undrawn,
        fun _ => Nat.zero_le 1, fun known => absurd known absent⟩
  | next _ taken ih =>
    obtain ⟨apart, places⟩ := ih
    exact ⟨apart.step distinct unclaimed taken, places.step apart.free taken⟩

/-- With instance ids of their own, snowflake generators make the uniqueness
check idle: a code is free when it is tried, so every call draws one code at
most and none is exhausted, however the clocks run and the calls interleave. -/
theorem snowflake_never_collides (distinct : Function.Injective instanceId) (unclaimed : Unclaimed instanceId initial)
    (run : Run Step (start instanceId clock initial) trace w) :
    (∀ id now w', w.Step (.insert id now) w' →
      ∃ link, w.drawn id = some link.code ∧ w'.allocations.Returned id link) ∧
    (∀ id, trace.countP (Event.draws id) ≤ 1) ∧
    ∀ id a error, w.allocations.call id = some a → a.phase ≠ .exhausted error := by
  obtain ⟨apart, places⟩ := apart_of_run distinct unclaimed run
  refine ⟨fun id now w' taken => ?_, places.once, fun id a error => places.unexhausted⟩
  obtain ⟨code, held, rest⟩ := Option.bind_eq_some_iff.mp taken
  obtain ⟨allocations, tried, rfl⟩ := Option.map_eq_some_iff.mp rest
  obtain ⟨a, known, mapped⟩ := Option.bind_eq_some_iff.mp tried
  obtain ⟨⟨store, phase⟩, attempted, rfl⟩ := Option.map_eq_some_iff.mp mapped
  obtain ⟨left, here, ⟨link, rfl, made⟩ | ⟨rfl, rfl⟩⟩ := a.attempt_cases attempted
  · obtain ⟨_, rfl, _⟩ := LinkStore.create_cases made
    exact ⟨link, held, _, Function.update_self .., rfl⟩
  -- The attempt would have failed on a taken code.
  · have free : code ∉ w.allocations.store.rows := AList.lookup_eq_none.mp (apart.free held)
    rw [Allocation.attempt, here, LinkStore.create, if_neg free] at attempted
    cases (Prod.mk.inj (Option.some.inj attempted)).2

end

/-- Two instances in one millisecond, and a draw that the clock makes fail. -/
theorem snowflake_never_collides_backwards :
    ∃ w : SnowflakeAllocation Bool,
      Run Step (start (fun k => if k then 1 else 0)
          (fun k => if k then [epochMs + 7, epochMs + 7, epochMs - 6000] else [epochMs + 7]) .empty)
        [.allocate 0 true {} "https://example.com" none, .allocate 1 false {} "https://example.org" none,
          .allocate 2 true {} "https://example.net" none, .draw 0, .draw 1, .draw 2, .insert 1 9, .insert 0 9,
          .insert 2 9, .allocate 3 true {} "https://example.com" none, .draw 3] w ∧
      w.allocations.store.count = 3 ∧ ∀ id a error, w.allocations.call id = some a → a.phase ≠ .exhausted error := by
  have executed : ∃ w : SnowflakeAllocation Bool,
      Run Step (start (fun k => if k then 1 else 0)
          (fun k => if k then [epochMs + 7, epochMs + 7, epochMs - 6000] else [epochMs + 7]) .empty)
        [.allocate 0 true {} "https://example.com" none, .allocate 1 false {} "https://example.org" none,
          .allocate 2 true {} "https://example.net" none, .draw 0, .draw 1, .draw 2, .insert 1 9, .insert 0 9,
          .insert 2 9, .allocate 3 true {} "https://example.com" none, .draw 3] w ∧
      w.allocations.store.count = 3 :=
    Run.exists_of_execute (fun _ _ _ done => done) (by decide +kernel)
  obtain ⟨w, run, count⟩ := executed
  have distinct : Function.Injective fun k : Bool => if k then (1 : Fin (maxInstance + 1)) else 0 := by
    intro a b same
    cases a <;> cases b <;> first | rfl | exact absurd same (by decide)
  have unclaimed : Unclaimed (fun k : Bool => if k then (1 : Fin (maxInstance + 1)) else 0) .empty := by
    intro code link id k stored
    cases (AList.lookup_empty code).symm.trans stored
  exact ⟨w, run, count, (snowflake_never_collides distinct unclaimed run).2.2⟩

end SnowflakeAllocation
end UrlShortener
