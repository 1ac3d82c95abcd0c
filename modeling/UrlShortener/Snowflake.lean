import Mathlib.Logic.Function.Basic
import UrlShortener.General.BitFields
import UrlShortener.General.Run

namespace UrlShortener
open Transition

def epochMs : Int := 1735689600000
def instanceBits : Nat := 10
def sequenceBits : Nat := 12
def maxInstance : Nat := 2 ^ instanceBits - 1
def maxSequence : Nat := 2 ^ sequenceBits - 1

/-- `SnowflakeGenerator` between two calls of `next_id`. -/
structure SnowflakeGenerator where
  instanceId : Nat
  lastMs : Int := -1
  sequence : Nat := 0
  instanceId_le : instanceId ≤ maxInstance
  sequence_le : sequence ≤ maxSequence := by decide

/-- The three fields of an id: milliseconds since the epoch, which may be
negative, above the instance above the sequence. -/
def snowflake (ms : Int) (instanceId sequence : Nat) : Int :=
  (((ms - epochMs) <<< (instanceBits + sequenceBits)).lor ((instanceId : Int) <<< sequenceBits)).lor sequence

structure DecodedId where
  timestampMs : Int
  instanceId : Int
  sequence : Int
  deriving DecidableEq

def decodeId (id : Int) : DecodedId where
  timestampMs := id >>> (instanceBits + sequenceBits) + epochMs
  instanceId := (id >>> sequenceBits).land maxInstance
  sequence := id.land maxSequence

namespace SnowflakeGenerator

/-- `while not passes(now): now = self._now()`, where the first reading is the
one taken before the loop: the reading that ends it and those still to come.
`none` when no reading does. -/
def spin (passes : Int → Bool) : List Int → Option (Int × List Int)
  | [] => none
  | now :: later => if passes now then some (now, later) else spin passes later

/-- The end of `next_id`. -/
def issue (g : SnowflakeGenerator) (now : Int) (sequence : Nat) (fits : sequence ≤ maxSequence) :
    Except String Int × SnowflakeGenerator :=
  (.ok (snowflake now g.instanceId sequence),
    { g with lastMs := now, sequence := sequence, sequence_le := fits })

/-- `next_id` over the coming readings of the clock: its answer and the
readings it has left. `none` while it is still spinning after the last one. -/
def nextId (g : SnowflakeGenerator) : List Int → Option ((Except String Int × SnowflakeGenerator) × List Int)
  | [] => none
  | now :: later =>
    if now < g.lastMs ∧ 5000 < g.lastMs - now then
      some ((.error s!"clock moved backwards by {g.lastMs - now}ms; refusing to generate ids", g), later)
    else
      (spin (fun now => g.lastMs ≤ now) (now :: later)).bind fun (now, later) =>
        if now = g.lastMs then
          if room : g.sequence + 1 ≤ maxSequence then some (g.issue now (g.sequence + 1) room, later)
          -- The sequence is used up: the next millisecond starts again from zero.
          else (spin (fun now => g.lastMs < now) (now :: later)).map fun (now, later) =>
            (g.issue now 0 (Nat.zero_le _), later)
        else some (g.issue now 0 (Nat.zero_le _), later)

end SnowflakeGenerator

section
variable {ms ms' : Int} {instanceId sequence sequence' : Nat}

theorem snowflake_eq (ms : Int) (instance_le : instanceId ≤ maxInstance) (sequence_le : sequence ≤ maxSequence) :
    snowflake ms instanceId sequence = (ms - epochMs) * 4194304 + instanceId * 4096 + sequence := by
  have instance_fits : ((instanceId : Int)) < 2 ^ instanceBits := by
    simp only [maxInstance, instanceBits] at instance_le ⊢
    omega
  have sequence_fits : ((sequence : Int)) < 2 ^ sequenceBits := by
    simp only [maxSequence, sequenceBits] at sequence_le ⊢
    omega
  have high : ((ms - epochMs) <<< (instanceBits + sequenceBits)).lor ((instanceId : Int) <<< sequenceBits) =
      ((ms - epochMs) * 2 ^ instanceBits + instanceId) <<< sequenceBits := by
    have shifted : ((instanceId : Int) <<< sequenceBits) < 2 ^ (instanceBits + sequenceBits) := by
      rw [Int.shiftLeft_eq]
      simp only [instanceBits, sequenceBits] at instance_fits ⊢
      omega
    have nonneg : 0 ≤ (instanceId : Int) <<< sequenceBits := by
      rw [Int.shiftLeft_eq]
      positivity
    rw [BitFields.lor_shiftLeft _ nonneg shifted, Int.shiftLeft_eq, Int.shiftLeft_eq, pow_add]
    ring
  rw [snowflake, high, BitFields.lor_shiftLeft _ (Int.natCast_nonneg _) sequence_fits]
  simp only [instanceBits, sequenceBits]
  ring

/-- An id is read back field by field, also when it is negative. -/
theorem decodeId_snowflake (ms : Int) (instance_le : instanceId ≤ maxInstance)
    (sequence_le : sequence ≤ maxSequence) :
    decodeId (snowflake ms instanceId sequence) = ⟨ms, instanceId, sequence⟩ := by
  have instance_mask : ((maxInstance : Nat) : Int) = 2 ^ 10 - 1 := rfl
  have sequence_mask : ((maxSequence : Nat) : Int) = 2 ^ 12 - 1 := rfl
  rw [decodeId, instance_mask, sequence_mask, BitFields.land_mask, BitFields.land_mask,
    snowflake_eq ms instance_le sequence_le, Int.shiftRight_eq_div_pow, Int.shiftRight_eq_div_pow]
  simp only [maxInstance, maxSequence, instanceBits, sequenceBits] at instance_le sequence_le ⊢
  simp only [DecodedId.mk.injEq]
  omega

/-- Ids follow the order of milliseconds and, within one, of sequences. -/
theorem snowflake_lt (instance_le : instanceId ≤ maxInstance) (sequence_le : sequence ≤ maxSequence)
    (sequence_le' : sequence' ≤ maxSequence) (later : ms < ms' ∨ (ms = ms' ∧ sequence < sequence')) :
    snowflake ms instanceId sequence < snowflake ms' instanceId sequence' := by
  rw [snowflake_eq ms instance_le sequence_le, snowflake_eq ms' instance_le sequence_le']
  simp only [maxSequence, sequenceBits] at sequence_le sequence_le'
  omega

end

namespace SnowflakeGenerator
variable {g g' : SnowflakeGenerator} {id : Int}

/-- What a call that returns `id` does to the generator. -/
structure Issues (g : SnowflakeGenerator) (id : Int) (g' : SnowflakeGenerator) : Prop where
  instanceId : g'.instanceId = g.instanceId
  id : id = snowflake g'.lastMs g'.instanceId g'.sequence
  later : g.lastMs < g'.lastMs ∨ (g.lastMs = g'.lastMs ∧ g.sequence < g'.sequence)

theorem spin_passes {passes : Int → Bool} {readings later : List Int} {now : Int}
    (ended : spin passes readings = some (now, later)) : passes now = true := by
  induction readings with
  | nil => cases ended
  | cons reading rest ih =>
    by_cases here : passes reading = true
    · rw [spin, if_pos here] at ended
      cases ended
      exact here
    · rw [spin, if_neg here] at ended
      exact ih ended

/-- A call refuses and leaves the generator alone, or it moves it forward. -/
theorem nextId_cases {readings rest : List Int} {answer : Except String Int}
    (called : g.nextId readings = some ((answer, g'), rest)) :
    (∃ error, answer = .error error ∧ g' = g) ∨ ∃ id, answer = .ok id ∧ g.Issues id g' := by
  cases readings with
  | nil => cases called
  | cons reading later =>
    rw [nextId] at called
    split at called
    · cases called
      exact Or.inl ⟨_, rfl, rfl⟩
    · refine Or.inr ?_
      obtain ⟨⟨now, later⟩, waited, called⟩ := Option.bind_eq_some_iff.mp called
      have caughtUp : g.lastMs ≤ now := of_decide_eq_true (spin_passes waited)
      dsimp only at called
      split at called
      · rename_i same
        split at called
        · cases called
          exact ⟨_, rfl, rfl, rfl, Or.inr ⟨same.symm, Nat.lt_succ_self _⟩⟩
        · obtain ⟨⟨next, later⟩, waited, called⟩ := Option.map_eq_some_iff.mp called
          have passed : g.lastMs < next := of_decide_eq_true (spin_passes waited)
          cases called
          exact ⟨_, rfl, rfl, rfl, Or.inl passed⟩
      · rename_i different
        have passed : g.lastMs < now := by omega
        cases called
        exact ⟨_, rfl, rfl, rfl, Or.inl passed⟩

/-- A new id is above every id of the place the generator stood at. -/
theorem Issues.snowflake_lt (issues : g.Issues id g') :
    snowflake g.lastMs g.instanceId g.sequence < id := by
  rw [issues.id, issues.instanceId]
  exact UrlShortener.snowflake_lt g.instanceId_le g.sequence_le g'.sequence_le issues.later

theorem Issues.decodeId_instanceId (issues : g.Issues id g') : (decodeId id).instanceId = g.instanceId := by
  rw [issues.id, decodeId_snowflake _ g'.instanceId_le g'.sequence_le, issues.instanceId]

end SnowflakeGenerator

/-- Any number of generators, each with the coming readings of its own clock,
and the ids they have returned so far. -/
structure SnowflakeFleet (ι : Type) where
  generator : ι → SnowflakeGenerator
  clock : ι → List Int
  issued : List (ι × Int)

namespace SnowflakeFleet
variable {ι : Type} [DecidableEq ι]

/-- The generators as they are constructed. -/
def start (instanceId : ι → Fin (maxInstance + 1)) (clock : ι → List Int) : SnowflakeFleet ι where
  generator k := { instanceId := instanceId k, instanceId_le := Nat.le_of_lt_succ (instanceId k).isLt }
  clock := clock
  issued := []

/-- One call of `next_id` on the generator `k`, under its lock. -/
def nextId (f : SnowflakeFleet ι) (k : ι) : Option (SnowflakeFleet ι) :=
  ((f.generator k).nextId (f.clock k)).map fun ((answer, g), later) =>
    { generator := Function.update f.generator k g
      clock := Function.update f.clock k later
      issued := match answer with
        | .ok id => f.issued ++ [(k, id)]
        | .error _ => f.issued }

def Step (f : SnowflakeFleet ι) (k : ι) (f' : SnowflakeFleet ι) : Prop :=
  f.nextId k = some f'

/-- The ids returned by the generator `k`, in the order they were issued. -/
def issuedBy (f : SnowflakeFleet ι) (k : ι) : List Int :=
  (f.issued.filter (·.1 = k)).map Prod.snd

/-- Every id belongs to its generator and does not exceed the place the
generator stands at. -/
structure Sound (instanceId : ι → Fin (maxInstance + 1)) (f : SnowflakeFleet ι) : Prop where
  own : ∀ k, (f.generator k).instanceId = instanceId k
  read : ∀ {k id}, (k, id) ∈ f.issued → (decodeId id).instanceId = (instanceId k : Nat)
  le : ∀ {k id}, (k, id) ∈ f.issued →
    id ≤ snowflake (f.generator k).lastMs (f.generator k).instanceId (f.generator k).sequence
  ordered : ∀ k, (f.issuedBy k).Pairwise (· < ·)
  distinct : (f.issued.map Prod.snd).Nodup

section
variable {instanceId : ι → Fin (maxInstance + 1)} {clock : ι → List Int} {f f' : SnowflakeFleet ι}
  {k : ι} {trace : List ι}

theorem step_cases (taken : f.Step k f') :
    (f'.issued = f.issued ∧ f'.generator = f.generator) ∨
      ∃ id g, (f.generator k).Issues id g ∧ f'.issued = f.issued ++ [(k, id)] ∧
        f'.generator = Function.update f.generator k g := by
  obtain ⟨⟨⟨answer, g⟩, later⟩, called, same⟩ := Option.map_eq_some_iff.mp taken
  rcases SnowflakeGenerator.nextId_cases called with ⟨error, refused, kept⟩ | ⟨id, returned, issues⟩
  · cases same
    subst refused kept
    exact Or.inl ⟨rfl, Function.update_eq_self ..⟩
  · cases same
    subst returned
    exact Or.inr ⟨id, g, issues, rfl, rfl⟩

theorem issuedBy_append {id : Int} (issued : f'.issued = f.issued ++ [(k, id)]) (other : ι) :
    f'.issuedBy other = if k = other then f.issuedBy other ++ [id] else f.issuedBy other := by
  by_cases own : k = other
  · simp only [issuedBy, issued, List.filter_append, List.map_append, own, List.filter_cons, decide_true,
      if_true, List.filter_nil, List.map_cons, List.map_nil]
  · simp only [issuedBy, issued, List.filter_append, own, List.filter_cons, decide_false, Bool.false_eq_true,
      if_false, List.filter_nil, List.append_nil]

theorem mem_issuedBy {id : Int} (member : id ∈ f.issuedBy k) : (k, id) ∈ f.issued := by
  obtain ⟨⟨other, same⟩, held, rfl⟩ := List.mem_map.mp member
  obtain ⟨held, own⟩ := List.mem_filter.mp held
  exact (of_decide_eq_true own : other = k) ▸ held

/-- The new id is above all that its generator has issued. -/
theorem Sound.above {id earlier : Int} {g : SnowflakeGenerator} (sound : f.Sound instanceId)
    (issues : (f.generator k).Issues id g) (member : (k, earlier) ∈ f.issued) : earlier < id := by
  have below := sound.le member
  have next := issues.snowflake_lt
  omega

/-- The instance is read off the id, so no other generator has issued it. -/
theorem Sound.new {id : Int} {g : SnowflakeGenerator} (sound : f.Sound instanceId)
    (distinct : Function.Injective instanceId) (issues : (f.generator k).Issues id g) {other : ι} :
    (other, id) ∉ f.issued := by
  intro held
  have sameInstance : instanceId other = instanceId k := by
    have first := sound.read held
    rw [issues.decodeId_instanceId, sound.own] at first
    exact Fin.ext (by omega)
  cases distinct sameInstance
  exact absurd (sound.above issues held) (lt_irrefl _)

theorem Sound.issue {id : Int} {g : SnowflakeGenerator} (sound : f.Sound instanceId)
    (distinct : Function.Injective instanceId) (issues : (f.generator k).Issues id g)
    (issued : f'.issued = f.issued ++ [(k, id)]) (generator : f'.generator = Function.update f.generator k g) :
    f'.Sound instanceId := by
  have origin {other : ι} {earlier : Int} (member : (other, earlier) ∈ f'.issued) :
      (other, earlier) ∈ f.issued ∨ (other = k ∧ earlier = id) := by
    rw [issued] at member
    rcases List.mem_append.mp member with before | new
    · exact Or.inl before
    · exact Or.inr (Prod.mk.inj (List.mem_singleton.mp new))
  refine ⟨fun other => ?_, fun {other earlier} member => ?_, fun {other earlier} member => ?_, fun other => ?_, ?_⟩
  · rw [generator]
    by_cases own : other = k
    · rw [own, Function.update_self, issues.instanceId, sound.own]
    · rw [Function.update_of_ne own, sound.own]
  · rcases origin member with before | ⟨rfl, rfl⟩
    · exact sound.read before
    · rw [issues.decodeId_instanceId, sound.own]
  · rw [generator]
    rcases origin member with before | ⟨rfl, rfl⟩
    · by_cases own : other = k
      · subst own
        rw [Function.update_self, ← issues.id]
        exact (sound.above issues before).le
      · rw [Function.update_of_ne own]
        exact sound.le before
    · rw [Function.update_self, ← issues.id]
  · rw [issuedBy_append issued]
    split
    · rename_i own
      subst own
      refine List.pairwise_append.mpr ⟨sound.ordered k, List.pairwise_singleton .., ?_⟩
      intro earlier member new isNew
      rw [List.mem_singleton.mp isNew]
      exact sound.above issues (mem_issuedBy member)
    · exact sound.ordered other
  · rw [issued, List.map_append, List.map_singleton]
    refine List.nodup_append.mpr ⟨sound.distinct, List.nodup_singleton _, ?_⟩
    intro earlier member new isNew same
    rw [List.mem_singleton.mp isNew] at same
    obtain ⟨⟨other, earlier⟩, held, rfl⟩ := List.mem_map.mp member
    cases same
    exact sound.new distinct issues held

theorem Sound.refuse (sound : f.Sound instanceId) (issued : f'.issued = f.issued)
    (generator : f'.generator = f.generator) : f'.Sound instanceId where
  own k := by rw [generator, sound.own]
  read member := sound.read (issued ▸ member)
  le member := by
    rw [generator]
    exact sound.le (issued ▸ member)
  ordered k := by
    rw [issuedBy, issued]
    exact sound.ordered k
  distinct := by rw [issued]; exact sound.distinct

theorem sound_of_run (distinct : Function.Injective instanceId)
    (run : Run Step (start instanceId clock) trace f) : f.Sound instanceId := by
  induction run with
  | start =>
    refine ⟨fun _ => rfl, ?_, ?_, fun _ => List.Pairwise.nil, List.nodup_nil⟩
    · intro k id member
      cases member
    · intro k id member
      cases member
  | next _ taken ih =>
    rcases step_cases taken with ⟨issued, generator⟩ | ⟨id, g, issues, issued, generator⟩
    · exact ih.refuse issued generator
    · exact ih.issue distinct issues issued generator

/-- Whatever the clocks do, each generator issues its ids in increasing order
and no id is issued twice. -/
theorem ids_increasing_and_unique (distinct : Function.Injective instanceId)
    (run : Run Step (start instanceId clock) trace f) :
    (∀ k, (f.issuedBy k).Pairwise (· < ·)) ∧ (f.issued.map Prod.snd).Nodup :=
  ⟨(sound_of_run distinct run).ordered, (sound_of_run distinct run).distinct⟩

end

/-- Two generators before the epoch. The clock of one stalls, steps back by
two milliseconds and, after a jump ahead, too far back for its last call. -/
theorem ids_of_unsteady_clocks :
    ∃ f : SnowflakeFleet Bool,
      Run Step (start (fun k => if k then 1 else 0)
        fun k => if k then [5, 5, 3, 5, 6000, 0] else [5]) [true, false, true, true, true, true] f ∧
      f.issued = [(true, snowflake 5 1 0), (false, snowflake 5 0 0), (true, snowflake 5 1 1),
        (true, snowflake 5 1 2), (true, snowflake 6000 1 0)] ∧
      (∀ k, (f.issuedBy k).Pairwise (· < ·)) ∧ (f.issued.map Prod.snd).Nodup := by
  have executed : ∃ f : SnowflakeFleet Bool,
      Run Step (start (fun k => if k then 1 else 0)
        fun k => if k then [5, 5, 3, 5, 6000, 0] else [5]) [true, false, true, true, true, true] f ∧
      f.issued = [(true, snowflake 5 1 0), (false, snowflake 5 0 0), (true, snowflake 5 1 1),
        (true, snowflake 5 1 2), (true, snowflake 6000 1 0)] :=
    Run.exists_of_execute (fun _ _ _ called => called) (by decide +kernel)
  obtain ⟨f, run, issued⟩ := executed
  have distinct : Function.Injective fun k : Bool => if k then (1 : Fin (maxInstance + 1)) else 0 := by
    intro a b same
    cases a with
    | true => cases b with
      | true => rfl
      | false => exact absurd same (by decide)
    | false => cases b with
      | true => exact absurd same (by decide)
      | false => rfl
  exact ⟨f, run, issued, ids_increasing_and_unique distinct run⟩

end SnowflakeFleet

end UrlShortener
