import UrlShortener.Snowflake

namespace UrlShortener
namespace SnowflakeGenerator
variable {g : SnowflakeGenerator} {readings : List Int}

/-- The readings that one call has taken out of the coming ones: all of them
while it is still spinning. -/
def taken (g : SnowflakeGenerator) (readings : List Int) : List Int :=
  match g.nextId readings with
  | some (_, later) => readings.take (readings.length - later.length)
  | none => readings

/-- A reading that the clock can only give after a large jump. -/
def FarBehind (g : SnowflakeGenerator) (now : Int) : Prop :=
  5000 < g.lastMs - now

/-- If the clock is far behind when the call reads it, the call raises
RuntimeError and keeps the last issued millisecond. -/
def RefusesJumps (g : SnowflakeGenerator) (readings : List Int) : Prop :=
  (∃ now ∈ g.taken readings, g.FarBehind now) →
    ∃ detail g' later, g.nextId readings = some ((.error detail, g'), later) ∧ g'.lastMs = g.lastMs

/-- No id can be issued for this reading. -/
def Waits (g : SnowflakeGenerator) (now : Int) : Prop :=
  now < g.lastMs ∨ (now = g.lastMs ∧ maxSequence ≤ g.sequence)

instance (g : SnowflakeGenerator) : DecidablePred g.Waits :=
  fun now => inferInstanceAs (Decidable (now < g.lastMs ∨ (now = g.lastMs ∧ maxSequence ≤ g.sequence)))

/-- The readings before the first one that an id can be issued for. -/
def waited (g : SnowflakeGenerator) (readings : List Int) : List Int :=
  readings.takeWhile fun now => g.Waits now

theorem waited_append {before : List Int} (waits : ∀ early ∈ before, g.Waits early) (rest : List Int) :
    g.waited (before ++ rest) = before ++ g.waited rest :=
  List.takeWhile_append_of_pos fun early member => decide_eq_true (waits early member)

theorem waited_eq_self (waits : ∀ now ∈ readings, g.Waits now) : g.waited readings = readings := by
  have none : g.waited [] = [] := rfl
  rw [← List.append_nil readings, waited_append waits, none]

theorem waited_ready {now : Int} {later : List Int} (ready : ¬ g.Waits now) : g.waited (now :: later) = [] :=
  List.takeWhile_cons_of_neg fun waits => ready (of_decide_eq_true waits)

theorem spin_cases (passes : Int → Bool) (readings : List Int) :
    ((∀ now ∈ readings, passes now = false) ∧ spin passes readings = none) ∨
      ∃ before now later, readings = before ++ now :: later ∧ (∀ early ∈ before, passes early = false) ∧
        passes now = true ∧ spin passes readings = some (now, later) := by
  induction readings with
  | nil => exact Or.inl ⟨fun _ => nofun, rfl⟩
  | cons first rest ih =>
    by_cases here : passes first = true
    · refine Or.inr ⟨[], first, rest, rfl, fun _ => nofun, here, ?_⟩
      rw [spin, if_pos here]
    · have notYet : passes first = false := Bool.eq_false_iff.mpr here
      rw [spin, if_neg here]
      rcases ih with ⟨nonePasses, spinning⟩ | ⟨before, now, later, rfl, early, passed, ended⟩
      · exact Or.inl ⟨List.forall_mem_cons.mpr ⟨notYet, nonePasses⟩, spinning⟩
      · exact Or.inr ⟨first :: before, now, later, rfl, List.forall_mem_cons.mpr ⟨notYet, early⟩, passed, ended⟩

/-- A second loop that waits for more is the only one that counts. -/
theorem spin_spin {reached passed : Int → Bool} (stronger : ∀ now, passed now = true → reached now = true)
    (readings : List Int) :
    ((spin reached readings).bind fun (now, later) => spin passed (now :: later)) = spin passed readings := by
  induction readings with
  | nil => rfl
  | cons first rest ih =>
    by_cases here : reached first = true
    · rw [spin, if_pos here, Option.bind_some]
    · have notYet : ¬ passed first = true := fun past => here (stronger first past)
      rw [spin, if_neg here, ih, spin, if_neg notYet]

/-- The call ends at the first reading that an id can be issued for. -/
def IssuesWhenReady (g : SnowflakeGenerator) (readings : List Int) : Prop :=
  (spin (fun now => ¬ g.Waits now) readings = none ∧ g.nextId readings = none) ∨
    ∃ now later id g', spin (fun now => ¬ g.Waits now) readings = some (now, later) ∧
      g.nextId readings = some ((.ok id, g'), later)

/-- With room for another id in the last millisecond, the first loop is the only one. -/
theorem issuesWhenReady_of_room {first : Int} (rest : List Int) (near : ¬ g.FarBehind first)
    (room : g.sequence + 1 ≤ maxSequence) : g.IssuesWhenReady (first :: rest) := by
  have sameTest : (fun now => decide (g.lastMs ≤ now)) = fun now => decide (¬ g.Waits now) := by
    funext now
    rw [decide_eq_decide, Waits]
    omega
  rw [IssuesWhenReady, nextId, if_neg fun refused => near refused.2, sameTest]
  cases spin (fun now => decide (¬ g.Waits now)) (first :: rest) with
  | none => exact Or.inl ⟨rfl, rfl⟩
  | some ended =>
    obtain ⟨now, later⟩ := ended
    by_cases same : now = g.lastMs
    · simp only [Option.bind_some, if_pos same, dif_pos room]
      exact Or.inr ⟨now, later, _, _, rfl, rfl⟩
    · simp only [Option.bind_some, if_neg same]
      exact Or.inr ⟨now, later, _, _, rfl, rfl⟩

/-- Without room the call ends where the second loop does, also when it never enters it. -/
theorem issuesWhenReady_of_full {first : Int} (rest : List Int) (near : ¬ g.FarBehind first)
    (full : ¬ g.sequence + 1 ≤ maxSequence) : g.IssuesWhenReady (first :: rest) := by
  have sameTest : (fun now => decide (g.lastMs < now)) = fun now => decide (¬ g.Waits now) := by
    funext now
    rw [decide_eq_decide, Waits]
    omega
  have weaker (now : Int) (past : decide (g.lastMs < now) = true) : decide (g.lastMs ≤ now) = true :=
    decide_eq_true (of_decide_eq_true past).le
  rw [IssuesWhenReady, nextId, if_neg fun refused => near refused.2, ← sameTest, ← spin_spin weaker]
  rcases spin_cases (fun now => decide (g.lastMs ≤ now)) (first :: rest) with
    ⟨_, spinning⟩ | ⟨_, now, later, _, _, reached, ended⟩
  · rw [spinning]
    exact Or.inl ⟨rfl, rfl⟩
  · rw [ended, Option.bind_some, Option.bind_some]
    have caughtUp : g.lastMs ≤ now := of_decide_eq_true reached
    by_cases same : now = g.lastMs
    · simp only [if_pos same, dif_neg full]
      cases spin (fun now => decide (g.lastMs < now)) (now :: later) with
      | none => exact Or.inl ⟨rfl, rfl⟩
      | some ended => exact Or.inr ⟨ended.1, ended.2, _, _, rfl, rfl⟩
    · have past : g.lastMs < now := by omega
      simp only [if_neg same]
      exact Or.inr ⟨now, later, _, _, by rw [spin, if_pos (decide_eq_true past)], rfl⟩

theorem issuesWhenReady_of_near {first : Int} (rest : List Int) (near : ¬ g.FarBehind first) :
    g.IssuesWhenReady (first :: rest) := by
  by_cases room : g.sequence + 1 ≤ maxSequence
  · exact issuesWhenReady_of_room rest near room
  · exact issuesWhenReady_of_full rest near room

theorem nextId_of_farBehind {first : Int} (rest : List Int) (far : g.FarBehind first) :
    ∃ detail, g.nextId (first :: rest) = some ((.error detail, g), rest) := by
  have behind : first < g.lastMs := by
    rw [FarBehind] at far
    omega
  exact ⟨_, by rw [nextId, if_pos ⟨behind, far⟩]⟩

theorem waited_of_spinning (spinning : spin (fun now => ¬ g.Waits now) readings = none) :
    g.waited readings = readings := by
  rcases spin_cases (fun now => decide (¬ g.Waits now)) readings with ⟨waits, _⟩ | ⟨_, _, _, _, _, _, ended⟩
  · exact waited_eq_self fun now member => not_not.mp (of_decide_eq_false (waits now member))
  · cases spinning.symm.trans ended

theorem waited_of_ended {now : Int} {later : List Int}
    (ended : spin (fun now => ¬ g.Waits now) readings = some (now, later)) :
    readings = g.waited readings ++ now :: later ∧ ¬ g.Waits now := by
  rcases spin_cases (fun now => decide (¬ g.Waits now)) readings with
    ⟨_, spinning⟩ | ⟨before, now', later', same, waits, ready, ended'⟩
  · cases spinning.symm.trans ended
  · cases ended.symm.trans ended'
    have ready : ¬ g.Waits now := of_decide_eq_true ready
    have waited : g.waited readings = before := by
      rw [same, waited_append fun early member => not_not.mp (of_decide_eq_false (waits early member)),
        waited_ready ready, List.append_nil]
    exact ⟨waited.symm ▸ same, ready⟩

theorem taken_of_ended {before later : List Int} {now : Int} {answer : Except String Int × SnowflakeGenerator}
    (same : readings = before ++ now :: later) (called : g.nextId readings = some (answer, later)) :
    g.taken readings = before ++ [now] := by
  rw [taken, called, same, List.append_cons]
  dsimp only
  rw [List.length_append, Nat.add_sub_cancel, List.take_left]

/-- Without a refusal, the readings that the call has taken and those that it has
waited through are the same but for the one that ended it. -/
theorem not_refused_of_near {first : Int} (rest : List Int) (near : ¬ g.FarBehind first) :
    (∀ detail g' later, g.nextId (first :: rest) ≠ some ((.error detail, g'), later)) ∧
      ∀ now, g.FarBehind now → (now ∈ g.taken (first :: rest) ↔ now ∈ g.waited (first :: rest)) := by
  rcases issuesWhenReady_of_near rest near with ⟨spinning, called⟩ | ⟨now, later, id, g', ended, called⟩
  · refine ⟨fun detail g' later refused => ?_, fun now _ => ?_⟩
    · cases called.symm.trans refused
    · rw [taken, called, waited_of_spinning spinning]
  · obtain ⟨same, ready⟩ := waited_of_ended ended
    refine ⟨fun detail g' later refused => ?_, fun reading far => ?_⟩
    · cases called.symm.trans refused
    · have notFar : ¬ g.FarBehind now := by
        rw [FarBehind]
        rw [Waits] at ready
        omega
      rw [taken_of_ended same called, List.mem_append, List.mem_singleton]
      constructor
      · rintro (early | rfl)
        · exact early
        · exact absurd far notFar
      · exact Or.inl

/-- A jump is refused exactly if the first reading shows it: the readings that
the loops wait through are not measured again. -/
theorem refusesJumps_iff : g.RefusesJumps readings ↔
    (∃ first ∈ readings.head?, g.FarBehind first) ∨ ∀ now ∈ g.waited readings, ¬ g.FarBehind now := by
  cases readings with
  | nil =>
    refine iff_of_true ?_ (Or.inr fun _ => nofun)
    rintro ⟨now, member, _⟩
    cases member
  | cons first rest =>
    by_cases far : g.FarBehind first
    · obtain ⟨detail, refused⟩ := nextId_of_farBehind rest far
      exact iff_of_true (fun _ => ⟨detail, g, rest, refused, rfl⟩) (Or.inl ⟨first, rfl, far⟩)
    · obtain ⟨issues, seen⟩ := not_refused_of_near rest far
      constructor
      · refine fun refuses => Or.inr fun now member farBehind => ?_
        obtain ⟨detail, g', later, refused, _⟩ := refuses ⟨now, (seen now farBehind).mpr member, farBehind⟩
        exact issues detail g' later refused
      · rintro (⟨_, same, farBehind⟩ | steady) ⟨now, member, jumped⟩
        · cases same
          exact absurd farBehind far
        · exact absurd jumped (steady now ((seen now jumped).mp member))

/-- Both loops wait through a minute's jump, one behind a drift of a millisecond,
the other in a millisecond whose ids are used up. -/
theorem jumps_waited_through :
    ∃ drifted full : SnowflakeGenerator,
      drifted.lastMs = 1800000000000 ∧ drifted.sequence = 0 ∧
      ¬ drifted.RefusesJumps [1799999999999, 1799999940000, 1800000000000] ∧
      full.lastMs = 1800000000000 ∧ full.sequence = 4095 ∧
      ¬ full.RefusesJumps [1800000000000, 1799999940000, 1800000000001] := by
  refine ⟨{ instanceId := 0, lastMs := 1800000000000, instanceId_le := by decide },
    { instanceId := 0, lastMs := 1800000000000, sequence := 4095, instanceId_le := by decide }, rfl, rfl, ?_,
    rfl, rfl, ?_⟩
  · intro refuses
    obtain ⟨_, _, _, refused, _⟩ := refuses ⟨1799999940000, by decide, by rw [FarBehind]; decide⟩
    cases refused
  · intro refuses
    obtain ⟨_, _, _, refused, _⟩ := refuses ⟨1799999940000, by decide, by rw [FarBehind]; decide⟩
    cases refused

end SnowflakeGenerator

end UrlShortener
