import UrlShortener.Codes
import UrlShortener.General.Rejection

namespace UrlShortener

def RandomCodeGenerator.keyspace (g : RandomCodeGenerator) : Nat :=
  base ^ g.length

/-- The loop of `allocate` with a random generator, from the coming choices of
its rng; `clock` is read in every round. `none` while too few choices have come. -/
def Allocation.rounds (g : RandomCodeGenerator) (clock : Nat → Int) (store : LinkStore) :
    Nat → Allocation → List (Fin base) → Option (LinkStore × AllocationPhase)
  | 0, a, _ => a.giveUp.map fun phase => (store, phase)
  | left + 1, a, choices => (g.nextCode choices).bind fun (code, later) =>
    (a.attempt store code (clock left)).bind fun (store, phase) => match phase with
      | .attempting _ => rounds g clock store left { a with phase := phase } later
      | _ => some (store, phase)

theorem Allocation.attempt_taken (a : Allocation) {store : LinkStore} {code : String} {clock : Int} {left : Nat}
    {row : Link} (phase : a.phase = .attempting (left + 1)) (found : store.get code = some row) :
    a.attempt store code clock = some (store, .attempting left) := by
  have held : code ∈ store.rows := AList.lookup_isSome.mp (Option.isSome_iff_exists.mpr ⟨row, found⟩)
  rw [attempt, phase]
  dsimp only
  rw [LinkStore.create, if_pos held]

theorem Allocation.attempt_free (a : Allocation) {store : LinkStore} {code : String} (clock : Int) {left : Nat}
    (phase : a.phase = .attempting (left + 1)) (found : store.get code = none) :
    ∃ link : Link, link.code = code ∧ a.attempt store code clock = some (store.insert link, .returned link) := by
  have absent : code ∉ store.rows := AList.lookup_eq_none.mp found
  rw [attempt, phase]
  dsimp only
  rw [LinkStore.create, if_neg absent]
  exact ⟨_, rfl, rfl⟩

def AllocationPhase.issued : AllocationPhase → Option String
  | .returned link => some link.code
  | _ => none

/-- The code that `allocate` issues; `some none` when it raises. -/
def CodeAllocator.issues (c : CodeAllocator) (g : RandomCodeGenerator) (store : LinkStore) (target : String)
    (ttlSeconds : Option Int) (clock : Nat → Int) (choices : List (Fin base)) : Option (Option String) :=
  (Allocation.rounds g clock store c.maxAttempts ⟨c, target, ttlSeconds, .attempting c.maxAttempts⟩ choices).map
    fun (_, phase) => phase.issued

namespace RandomCodeGenerator
variable (g : RandomCodeGenerator)

def spell (word : Fin g.length → Fin base) : String :=
  String.ofList ((List.ofFn word).map letter)

/-- The choices of an rng that makes one word after another. -/
def choicesOf {k : Nat} (draws : Fin k → Fin g.length → Fin base) : List (Fin base) :=
  (List.ofFn fun round => List.ofFn (draws round)).flatten

def takenBy (store : LinkStore) (word : Fin g.length → Fin base) : Bool :=
  (store.get (g.spell word)).isSome

/-- The number of codes of this length that the store has links for. -/
def inUse (store : LinkStore) : Nat :=
  Rejection.rejected (g.takenBy store)

variable {g} {store : LinkStore} {word : Fin g.length → Fin base} {k : Nat}

theorem letter_injective : Function.Injective letter :=
  List.nodup_iff_injective_get.mp alphabet_nodup

theorem spell_injective : Function.Injective g.spell := by
  intro word other same
  exact List.ofFn_injective (letter_injective.list_map (String.ofList_injective same))

theorem inUse_le_count : g.inUse store ≤ store.count := by
  have counted : store.count = store.rows.keys.toFinset.card := by
    rw [List.toFinset_card_of_nodup store.rows.keys_nodup]
    exact (List.length_map _).symm
  rw [counted]
  refine Finset.card_le_card_of_injOn g.spell (fun word member => ?_) (spell_injective.injOn)
  have taken := (Finset.mem_filter.mp member).2
  exact List.mem_toFinset.mpr (AList.mem_keys.mp (AList.lookup_isSome.mp taken))

theorem nextCode_append (later : List (Fin base)) :
    g.nextCode (List.ofFn word ++ later) = some (g.spell word, later) := by
  have length : (List.ofFn word).length = g.length := List.length_ofFn
  rw [nextCode, if_pos (by rw [List.length_append, length]; exact Nat.le_add_right ..), List.take_left' length,
    List.drop_left' length, spell]

theorem choicesOf_succ (draws : Fin (k + 1) → Fin g.length → Fin base) :
    g.choicesOf draws = List.ofFn (draws 0) ++ g.choicesOf fun round => draws round.succ := by
  rw [choicesOf, List.ofFn_succ, List.flatten_cons]
  rfl

/-- `allocate` issues the first word whose code is free. -/
theorem rounds_issued (clock : Nat → Int) {a : Allocation} (phase : a.phase = .attempting k)
    (draws : Fin k → Fin g.length → Fin base) :
    (Allocation.rounds g clock store k a (g.choicesOf draws)).map (fun ended => ended.2.issued) =
      some ((Rejection.firstFree (g.takenBy store) (List.ofFn draws)).map g.spell) := by
  induction k generalizing a with
  | zero =>
    rw [Allocation.rounds, Allocation.giveUp, phase, List.ofFn_zero]
    rfl
  | succ left ih =>
    rw [choicesOf_succ, Allocation.rounds, nextCode_append, Option.bind_some, List.ofFn_succ, Rejection.firstFree_cons]
    dsimp only
    cases found : store.get (g.spell (draws 0)) with
    | some row =>
      have taken : g.takenBy store (draws 0) = true := by rw [takenBy, found]; rfl
      rw [taken, if_pos rfl, a.attempt_taken phase found]
      exact ih rfl _
    | none =>
      have free : g.takenBy store (draws 0) = false := by rw [takenBy, found]; rfl
      obtain ⟨link, sameCode, attempted⟩ := a.attempt_free (clock left) phase found
      rw [free, if_neg Bool.false_ne_true, attempted, Option.map_some, ← sameCode]
      rfl

end RandomCodeGenerator

/-- Every free code of the generator's length is issued equally often, and
`allocate` raises with the probability that all its draws are in use, which is
at most the share of the keyspace that all links together could fill. -/
theorem random_allocation_uniform (g : RandomCodeGenerator) (c : CodeAllocator) (store : LinkStore) (target : String)
    (ttlSeconds : Option Int) (clock : Nat → Int) :
    Rejection.share (fun draws : Fin c.maxAttempts → Fin g.length → Fin base =>
        c.issues g store target ttlSeconds clock (g.choicesOf draws) = some none) =
      ((g.inUse store : ℚ) / g.keyspace) ^ c.maxAttempts ∧
    g.inUse store ≤ store.count ∧
    ∀ word, store.get (g.spell word) = none →
      Rejection.share (fun draws : Fin c.maxAttempts → Fin g.length → Fin base =>
          c.issues g store target ttlSeconds clock (g.choicesOf draws) = some (some (g.spell word))) =
        (1 - ((g.inUse store : ℚ) / g.keyspace) ^ c.maxAttempts) / (g.keyspace - g.inUse store) := by
  have keyspace : Fintype.card (Fin g.length → Fin base) = g.keyspace := by
    rw [Fintype.card_fun, Fintype.card_fin, Fintype.card_fin, RandomCodeGenerator.keyspace]
  have issued (draws : Fin c.maxAttempts → Fin g.length → Fin base) :
      c.issues g store target ttlSeconds clock (g.choicesOf draws) =
        some ((Rejection.firstFree (g.takenBy store) (List.ofFn draws)).map g.spell) :=
    RandomCodeGenerator.rounds_issued clock rfl draws
  refine ⟨?_, RandomCodeGenerator.inUse_le_count, fun word free => ?_⟩
  · simp only [issued, Option.some.injEq, Option.map_eq_none_iff]
    rw [Rejection.share_none, keyspace]
    rfl
  · have unused : g.takenBy store word = false := by rw [RandomCodeGenerator.takenBy, free]; rfl
    have spelled (answer : Option (Fin g.length → Fin base)) :
        answer.map g.spell = some (g.spell word) ↔ answer = some word := by
      rw [← Option.map_some (f := g.spell), (Option.map_injective RandomCodeGenerator.spell_injective).eq_iff]
    simp only [issued, Option.some.injEq, spelled]
    rw [Rejection.share_some _ unused, keyspace]
    rfl

/-- One-letter codes, with a link for one of them. -/
theorem random_allocation_uniform_letter :
    let store := LinkStore.empty.insert ⟨"A", "https://example.com", 0, none⟩
    Rejection.share (fun draws : Fin 5 → Fin 1 → Fin base =>
        CodeAllocator.issues {} { length := 1 } store "https://example.org" none (fun _ => 7)
          (RandomCodeGenerator.choicesOf { length := 1 } draws) = some none) = (1 / 62) ^ 5 ∧
    Rejection.share (fun draws : Fin 5 → Fin 1 → Fin base =>
        CodeAllocator.issues {} { length := 1 } store "https://example.org" none (fun _ => 7)
          (RandomCodeGenerator.choicesOf { length := 1 } draws) = some (some "z")) = (1 - (1 / 62) ^ 5) / (62 - 1) := by
  intro store
  obtain ⟨raises, _, issues⟩ := random_allocation_uniform { length := 1 } {} store "https://example.org" none fun _ => 7
  have inUse : RandomCodeGenerator.inUse { length := 1 } store = 1 := by decide +kernel
  have keyspace : RandomCodeGenerator.keyspace { length := 1 } = 62 := rfl
  rw [inUse, keyspace] at raises issues
  exact ⟨raises, issues (fun _ => 61) (by decide +kernel)⟩

end UrlShortener
