import UrlShortener.Codes

namespace UrlShortener

/-- A code that `encode_base62` can have made. -/
def CanonicalCode (code : String) : Prop :=
  code ≠ "" ∧ (∀ ch ∈ code.toList, ch ∈ alphabet) ∧ (code.toList.head? = some '0' → code = "0")

/-- What a TEXT key is stored as. -/
def utf8 (code : String) : List UInt8 :=
  code.toUTF8.data.toList

/-- The order by length, then byte by byte. -/
def Precedes (code other : String) : Prop :=
  code.length < other.length ∨ (code.length = other.length ∧ List.Lex (· < ·) (utf8 code) (utf8 other))

section
variable {code other : String} {m n : Nat}

theorem decodeLoop_cases (n : Nat) (word : List Char) :
    ((∀ ch ∈ word, ch ∈ alphabet) ∧ ∃ m, decodeLoop n word = .ok m) ∨
      ∃ ch ∈ word, ch ∉ alphabet ∧ decodeLoop n word = .error (.invalidCharacter ch) := by
  induction word generalizing n with
  | nil => exact Or.inl ⟨fun _ => nofun, n, rfl⟩
  | cons ch rest ih =>
    rw [decodeLoop]
    cases found : alphabet.idxOf? ch with
    | none =>
      have foreign : ch ∉ alphabet := List.idxOf?_eq_none_iff.mp found
      exact Or.inr ⟨ch, List.mem_cons_self, foreign, rfl⟩
    | some index =>
      have own : ch ∈ alphabet := by
        obtain ⟨inside, same, _⟩ := List.idxOf?_eq_some_iff.mp found
        exact same ▸ List.getElem_mem inside
      rcases ih (n * base + index) with ⟨letters, m, read⟩ | ⟨other, member, foreign, refused⟩
      · exact Or.inl ⟨List.forall_mem_cons.mpr ⟨own, letters⟩, m, read⟩
      · exact Or.inr ⟨other, List.mem_cons_of_mem ch member, foreign, refused⟩

/-- The ValueError is about the first foreign character, and a word without one
is read as a number. -/
theorem decodeBase62_refuses_iff (code : String) :
    (∃ ch, decodeBase62 code = .error (.invalidCharacter ch)) ↔ ∃ ch ∈ code.toList, ch ∉ alphabet := by
  rcases decodeLoop_cases 0 code.toList with ⟨letters, m, read⟩ | ⟨ch, member, foreign, refused⟩
  · refine iff_of_false ?_ ?_
    · rintro ⟨ch, refused⟩
      cases read.symm.trans refused
    · rintro ⟨ch, member, foreign⟩
      exact foreign (letters ch member)
  · exact iff_of_true ⟨ch, refused⟩ ⟨ch, member, foreign⟩

theorem decodeBase62_reads_iff (code : String) :
    (∃ n, decodeBase62 code = .ok n) ↔ ∀ ch ∈ code.toList, ch ∈ alphabet := by
  rcases decodeLoop_cases 0 code.toList with ⟨letters, m, read⟩ | ⟨ch, member, foreign, refused⟩
  · exact iff_of_true ⟨m, read⟩ letters
  · refine iff_of_false ?_ fun letters => foreign (letters ch member)
    rintro ⟨m, read⟩
    cases refused.symm.trans read

theorem canonicalCode_iff : CanonicalCode code ↔ ∃ n : Nat, decodeBase62 code = .ok n ∧ encodeBase62 n = .ok code := by
  constructor
  · rintro ⟨nonempty, letters, zero⟩
    obtain ⟨n, read⟩ := (decodeBase62_reads_iff code).mpr letters
    have spelling : Canonical code := by
      by_cases head : code.toList.head? = some '0'
      · exact Or.inl (zero head)
      · exact Or.inr ⟨nonempty, head⟩
    exact ⟨n, read, encodeBase62_iff.mpr ⟨spelling, n, read, rfl⟩⟩
  · rintro ⟨n, read, encoded⟩
    obtain ⟨spelling, _⟩ := encodeBase62_iff.mp encoded
    have letters := (decodeBase62_reads_iff code).mp ⟨n, read⟩
    rcases spelling with rfl | ⟨nonempty, head⟩
    · exact ⟨by decide, letters, fun _ => rfl⟩
    · exact ⟨nonempty, letters, fun zero => absurd zero head⟩

theorem decodeBase62_encode (encoded : encodeBase62 n = .ok code) : decodeBase62 code = .ok n := by
  obtain ⟨_, m, read, same⟩ := encodeBase62_iff.mp encoded
  cases Int.natCast_inj.mp same
  exact read

theorem exists_encodeBase62 (n : Nat) : ∃ code, encodeBase62 n = .ok code := by
  rcases Nat.eq_zero_or_pos n with rfl | positive
  · exact ⟨_, encodeBase62_zero⟩
  · exact ⟨_, encodeBase62_pos positive⟩

theorem utf8_eq_map (letters : ∀ ch ∈ code.toList, ch ∈ alphabet) :
    utf8 code = code.toList.map fun ch => ch.val.toUInt8 := by
  have oneByte : (alphabet.all fun ch => ch.utf8Size = 1) = true := by decide
  simp only [List.all_eq_true, decide_eq_true_eq] at oneByte
  rw [utf8, String.toUTF8_eq_toByteArray, ← String.utf8Encode_toList]
  generalize code.toList = word at letters ⊢
  induction word with
  | nil => rfl
  | cons ch rest ih =>
    obtain ⟨own, others⟩ := List.forall_mem_cons.mp letters
    rw [List.utf8Encode_cons, List.utf8Encode_singleton, String.utf8EncodeChar_eq_singleton (oneByte ch own),
      ByteArray.data_append, Array.toList_append, ih others, List.map_cons, List.data_toByteArray,
      List.singleton_append]

theorem lt_of_shorter (encoded : encodeBase62 m = .ok code) (encoded' : encodeBase62 n = .ok other)
    (shorter : code.length < other.length) : m < n := by
  obtain ⟨spelling, _⟩ := encodeBase62_iff.mp encoded'
  rw [← String.length_toList, ← String.length_toList] at shorter
  refine Numerals.readFrom_lt_of_shorter alphabet_nodup (by decide) shorter ?_
    (decodeBase62_ok.mp (decodeBase62_encode encoded)) (decodeBase62_ok.mp (decodeBase62_encode encoded'))
  rcases spelling with rfl | ⟨_, head⟩
  -- Only the empty code is shorter than the code of zero.
  · exact absurd (List.length_eq_zero_iff.mp (Nat.lt_one_iff.mp shorter)) (oneSegment_of_encode encoded).1
  · exact head

theorem lt_iff_of_length_eq (encoded : encodeBase62 m = .ok code) (encoded' : encodeBase62 n = .ok other)
    (length : code.length = other.length) : m < n ↔ List.Lex (· < ·) (utf8 code) (utf8 other) := by
  have read := decodeBase62_encode encoded
  have read' := decodeBase62_encode encoded'
  have ascending : alphabet.Pairwise fun x y => x.val.toUInt8 < y.val.toUInt8 := by decide +kernel
  rw [utf8_eq_map ((decodeBase62_reads_iff code).mp ⟨_, read⟩),
    utf8_eq_map ((decodeBase62_reads_iff other).mp ⟨_, read'⟩),
    Numerals.readFrom_lt_iff ascending (by rwa [String.length_toList, String.length_toList])
      (decodeBase62_ok.mp read) (decodeBase62_ok.mp read')]
  constructor
  · rintro (less | ⟨_, less⟩)
    · exact absurd less (Nat.lt_irrefl 0)
    · exact less
  · exact fun less => Or.inr ⟨rfl, less⟩

theorem lt_iff_precedes (encoded : encodeBase62 m = .ok code) (encoded' : encodeBase62 n = .ok other) :
    m < n ↔ Precedes code other := by
  rcases Nat.lt_trichotomy code.length other.length with shorter | equal | longer
  · exact iff_of_true (lt_of_shorter encoded encoded' shorter) (Or.inl shorter)
  · rw [lt_iff_of_length_eq encoded encoded' equal]
    constructor
    · exact fun less => Or.inr ⟨equal, less⟩
    · rintro (shorter | ⟨_, less⟩)
      · exact absurd shorter (Nat.not_lt.mpr equal.ge)
      · exact less
  · refine iff_of_false (Nat.lt_asymm (lt_of_shorter encoded' encoded longer)) ?_
    rintro (shorter | ⟨equal, _⟩)
    · exact Nat.lt_asymm longer shorter
    · exact Nat.ne_of_gt longer equal

end

section
variable {g g' : SnowflakeGenerator} {now later : Chance} {code : String}

/-- A code names the millisecond, the instance and the sequence that its
generator stands at, whatever the clock and the calls before. -/
theorem code_names_state
    (drawn : (CodeGenerator.snowflake g).nextCode now = some (.ok code, .snowflake g', later)) :
    g'.instanceId = g.instanceId ∧ g'.sequence ≤ 4095 ∧
      ∃ id : Nat, decodeBase62 code = .ok id ∧ decodeId id = ⟨g'.lastMs, g'.instanceId, g'.sequence⟩ ∧
        (g'.lastMs - epochMs < 2 ^ 41 → id < 2 ^ 63) := by
  obtain ⟨⟨⟨answer, made⟩, readings⟩, called, same⟩ := Option.map_eq_some_iff.mp drawn
  cases answer with
  | error detail => cases same
  | ok id =>
    have encoded : encodeBase62 id = .ok code := (Prod.mk.inj same).1
    cases (Prod.mk.inj (Prod.mk.inj same).2).1
    rcases SnowflakeGenerator.nextId_cases called with ⟨error, refused, _⟩ | ⟨id', returned, issues⟩
    · cases refused
    · cases returned
      obtain ⟨_, n, read, rfl⟩ := encodeBase62_iff.mp encoded
      have fields := issues.id
      refine ⟨issues.instanceId, g'.sequence_le, n, read, ?_, fun early => ?_⟩
      · rw [fields, decodeId_snowflake _ g'.instanceId_le g'.sequence_le]
      · rw [snowflake_eq _ g'.instanceId_le g'.sequence_le] at fields
        have instanceFits : g'.instanceId ≤ 1023 := g'.instanceId_le
        have sequenceFits : g'.sequence ≤ 4095 := g'.sequence_le
        omega

theorem first_code_names_state :
    ∃ (g g' : SnowflakeGenerator) (later : Chance),
      (CodeGenerator.snowflake g).nextCode { readings := [1800000000000] } =
        some (.ok "JvOncrPfou", .snowflake g', later) ∧
      g'.lastMs = 1800000000000 ∧ g'.sequence = 0 ∧
      g'.instanceId = g.instanceId ∧ g'.sequence ≤ 4095 ∧
        ∃ id : Nat, decodeBase62 "JvOncrPfou" = .ok id ∧
          decodeId id = ⟨g'.lastMs, g'.instanceId, g'.sequence⟩ ∧ (g'.lastMs - epochMs < 2 ^ 41 → id < 2 ^ 63) := by
  let g : SnowflakeGenerator := { instanceId := 37, instanceId_le := by decide }
  let g' : SnowflakeGenerator := { g with lastMs := 1800000000000 }
  have encoded : encodeBase62 (snowflake 1800000000000 37 0) = .ok "JvOncrPfou" :=
    encodeBase62_iff.mpr ⟨Or.inr ⟨by decide, by decide⟩, 269737367961751552, rfl, rfl⟩
  have drawn : (CodeGenerator.snowflake g).nextCode { readings := [1800000000000] } =
      some (.ok "JvOncrPfou", .snowflake g', { readings := [] }) :=
    congrArg (fun answer => some (answer, CodeGenerator.snowflake g', ({ readings := [] } : Chance))) encoded
  exact ⟨g, g', _, drawn, rfl, rfl, code_names_state drawn⟩

end

/-- Codes and numbers correspond, and the codes sort as their numbers do. -/
theorem codes_follow_numbers :
    (∀ n : Nat, ∃ code, encodeBase62 n = .ok code ∧ decodeBase62 code = .ok n ∧ CanonicalCode code) ∧
      (∀ code, CanonicalCode code ↔ ∃ n : Nat, decodeBase62 code = .ok n ∧ encodeBase62 n = .ok code) ∧
      (∀ code, ((∃ ch, decodeBase62 code = .error (.invalidCharacter ch)) ↔ ∃ ch ∈ code.toList, ch ∉ alphabet) ∧
        ((∃ n, decodeBase62 code = .ok n) ↔ ∀ ch ∈ code.toList, ch ∈ alphabet)) ∧
      ∀ m n : Nat, ∃ code other, encodeBase62 m = .ok code ∧ encodeBase62 n = .ok other ∧
        (m < n ↔ Precedes code other) := by
  refine ⟨fun n => ?_, fun code => canonicalCode_iff, fun code =>
    ⟨decodeBase62_refuses_iff code, decodeBase62_reads_iff code⟩, fun m n => ?_⟩
  · obtain ⟨code, encoded⟩ := exists_encodeBase62 n
    have read := decodeBase62_encode encoded
    exact ⟨code, encoded, read, canonicalCode_iff.mpr ⟨n, read, encoded⟩⟩
  · obtain ⟨code, encoded⟩ := exists_encodeBase62 m
    obtain ⟨other, encoded'⟩ := exists_encodeBase62 n
    exact ⟨code, other, encoded, encoded', lt_iff_precedes encoded encoded'⟩

end UrlShortener
