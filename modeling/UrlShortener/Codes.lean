import UrlShortener.General.Numerals
import UrlShortener.Snowflake
import UrlShortener.CodeAllocator

namespace UrlShortener

def alphabet : List Char :=
  "0123456789ABCDEFGHIJKLMNOPQRSTUVWXYZabcdefghijklmnopqrstuvwxyz".toList

def base : Nat := alphabet.length

def letter (digit : Fin base) : Char :=
  alphabet.get digit

theorem alphabet_nodup : alphabet.Nodup := by decide

theorem base_pos : 0 < base := by decide

instance : NeZero base := ⟨by decide⟩

inductive CodeError
  | runtimeError (detail : String)
  | valueError (detail : String)
  /-- The ValueError of `decode_base62`. -/
  | invalidCharacter (ch : Char)

/-- The loop of `encode_base62`, with the letters it has appended. -/
def encodeLoop (n : Nat) (out : List Char) : List Char :=
  if n = 0 then out
  else encodeLoop (n / base) (out ++ [letter ⟨n % base, Nat.mod_lt n base_pos⟩])
termination_by n
decreasing_by exact Nat.div_lt_self (by omega) (by decide)

def encodeBase62 (n : Int) : Except CodeError String :=
  if n < 0 then .error (.valueError "negative id")
  else if n = 0 then .ok "0"
  else .ok (String.ofList (encodeLoop n.toNat []).reverse)

def decodeLoop (n : Nat) : List Char → Except CodeError Nat
  | [] => .ok n
  | ch :: rest => match alphabet.idxOf? ch with
    | some index => decodeLoop (n * base + index) rest
    | none => .error (.invalidCharacter ch)

def decodeBase62 (s : String) : Except CodeError Nat :=
  decodeLoop 0 s.toList

/-- The spellings that `encode_base62` has for numbers. -/
def Canonical (code : String) : Prop :=
  code = "0" ∨ (code ≠ "" ∧ code.toList.head? ≠ alphabet.head?)

theorem encodeLoop_eq (n : Nat) (out : List Char) :
    encodeLoop n out = out ++ (Numerals.write alphabet n).reverse := by
  have appended : encodeLoop n out = out ++ (Nat.digits base n).filterMap fun digit => alphabet[digit]? := by
    induction n, out using encodeLoop.induct with
    | case1 out => simp [encodeLoop]
    | case2 n out positive ih =>
      have digit : alphabet[n % base]? = some (letter ⟨n % base, Nat.mod_lt n base_pos⟩) :=
        List.getElem?_eq_getElem (Nat.mod_lt n base_pos)
      rw [encodeLoop, if_neg positive, ih, Nat.digits_def' (by decide) (Nat.pos_of_ne_zero positive),
        List.filterMap_cons_some digit, List.append_assoc, List.singleton_append]
  rw [appended, Numerals.write, List.filterMap_reverse, List.reverse_reverse, base]

theorem decodeLoop_ok {n m : Nat} {word : List Char} :
    decodeLoop n word = .ok m ↔ Numerals.readFrom alphabet n word = some m := by
  induction word generalizing n with
  | nil => simp [decodeLoop, Numerals.readFrom]
  | cons ch rest ih =>
    rw [decodeLoop, Numerals.readFrom]
    cases alphabet.idxOf? ch with
    | none => simp
    | some index => exact ih

theorem decodeBase62_ok {code : String} {n : Nat} :
    decodeBase62 code = .ok n ↔ Numerals.readFrom alphabet 0 code.toList = some n :=
  decodeLoop_ok

theorem encodeBase62_zero : encodeBase62 0 = .ok "0" := rfl

theorem encodeBase62_pos {n : Nat} (positive : 0 < n) :
    encodeBase62 n = .ok (String.ofList (Numerals.write alphabet n)) := by
  rw [encodeBase62, if_neg (by omega), if_neg (by omega), encodeLoop_eq, List.nil_append, List.reverse_reverse,
    Int.toNat_natCast]

/-- `decode_base62` takes back what `encode_base62` makes, and every other
spelling of a number begins with a zero or is empty. -/
theorem encodeBase62_iff {id : Int} {code : String} :
    encodeBase62 id = .ok code ↔ Canonical code ∧ ∃ n : Nat, decodeBase62 code = .ok n ∧ id = n := by
  rcases Int.lt_or_le id 0 with negative | nonneg
  · rw [encodeBase62, if_pos negative]
    constructor
    · intro refused
      cases refused
    · rintro ⟨_, n, _, same⟩
      omega
  · obtain ⟨n, rfl⟩ := Int.eq_ofNat_of_zero_le nonneg
    have spelled (m : Nat) : Numerals.write alphabet m = code.toList ↔
        decodeBase62 code = .ok m ∧ code.toList.head? ≠ alphabet.head? := by
      rw [Numerals.write_eq_iff alphabet_nodup (by decide), decodeBase62_ok]
    have zero : decodeBase62 "0" = .ok 0 := rfl
    rcases Nat.eq_zero_or_pos n with rfl | positive
    · rw [Nat.cast_zero, encodeBase62_zero]
      constructor
      · intro same
        cases same
        exact ⟨Or.inl rfl, 0, zero, rfl⟩
      · rintro ⟨spelling, m, read, same⟩
        cases Int.natCast_eq_zero.mp same.symm
        rcases spelling with rfl | ⟨nonempty, head⟩
        · rfl
        · have empty : code.toList = [] := ((spelled 0).mpr ⟨read, head⟩).symm.trans (by simp [Numerals.write])
          exact absurd (String.toList_eq_nil_iff.mp empty) nonempty
    · rw [encodeBase62_pos positive]
      constructor
      · intro same
        cases same
        obtain ⟨read, head⟩ := (spelled n).mp String.toList_ofList.symm
        refine ⟨Or.inr ⟨?_, head⟩, n, read, rfl⟩
        intro empty
        rw [empty] at read
        cases read
        exact Nat.lt_irrefl 0 positive
      · rintro ⟨spelling, m, read, same⟩
        cases Int.natCast_inj.mp same
        rcases spelling with rfl | ⟨_, head⟩
        · cases read
          exact absurd positive (Nat.lt_irrefl 0)
        · rw [(spelled n).mpr ⟨read, head⟩, String.ofList_toList]

/-- A code that names one segment of a path. -/
def OneSegment (code : String) : Prop :=
  code.toList ≠ [] ∧ '/' ∉ code.toList

theorem slash_not_letter (digits : List (Fin base)) : '/' ∉ digits.map letter := by
  intro slash
  obtain ⟨digit, _, same⟩ := List.mem_map.mp slash
  have member : '/' ∈ alphabet := same ▸ List.get_mem alphabet digit
  exact absurd member (by decide)

theorem oneSegment_of_encode {id : Int} {code : String} (encoded : encodeBase62 id = .ok code) : OneSegment code := by
  obtain ⟨spelling, n, read, _⟩ := encodeBase62_iff.mp encoded
  obtain ⟨digits, letters⟩ := Numerals.exists_digits (decodeBase62_ok.mp read)
  refine ⟨?_, letters ▸ slash_not_letter digits⟩
  rcases spelling with rfl | ⟨nonempty, _⟩
  · decide
  · exact fun none => nonempty (String.toList_eq_nil_iff.mp none)

structure RandomCodeGenerator where
  length : Nat := 7
  length_pos : 1 ≤ length := by decide

/-- What the outside gives to `next_code`: the coming choices of the rng and the
coming readings of the clock. -/
structure Chance where
  choices : List (Fin base) := []
  readings : List Int := []

/-- `next_code`, with the choices that it leaves; `none` while too few have come. -/
def RandomCodeGenerator.nextCode (g : RandomCodeGenerator) (choices : List (Fin base)) :
    Option (String × List (Fin base)) :=
  if g.length ≤ choices.length then
    some (String.ofList ((choices.take g.length).map letter), choices.drop g.length)
  else none

/-- The two schemes of `build_generator`. -/
inductive CodeGenerator
  | random (g : RandomCodeGenerator)
  | snowflake (g : SnowflakeGenerator)

namespace CodeGenerator

def nextCode (now : Chance) : CodeGenerator → Option (Except CodeError String × CodeGenerator × Chance)
  | random g => (g.nextCode now.choices).map fun (code, choices) =>
    (.ok code, random g, { now with choices := choices })
  | snowflake g => (g.nextId now.readings).map fun ((answer, g), readings) =>
    (match answer with
      | .ok id => encodeBase62 id
      | .error detail => .error (.runtimeError detail), snowflake g, { now with readings := readings })

/-- The next code is `code`, read off the choices of the rng or off the next id. -/
def Spells (g : CodeGenerator) (now : Chance) (code : String) : Prop :=
  match g with
  | random g => (now.choices.take g.length).map letter = code.toList
  | snowflake g => Canonical code ∧ ∃ id g' readings n, g.nextId now.readings = some ((.ok id, g'), readings) ∧
      decodeBase62 code = .ok n ∧ id = n

variable {g h : CodeGenerator} {now later : Chance} {code other : String}

theorem nextCode_oneSegment (drawn : g.nextCode now = some (.ok code, h, later)) : OneSegment code := by
  cases g with
  | random g =>
    obtain ⟨⟨made, rest⟩, next, same⟩ := Option.map_eq_some_iff.mp drawn
    cases same
    obtain ⟨enough, same⟩ := Option.ite_none_right_eq_some.mp next
    cases same
    have positive := g.length_pos
    refine ⟨?_, ?_⟩
    · rw [String.toList_ofList]
      intro none
      have length := congrArg List.length none
      rw [List.length_map, List.length_take, List.length_nil] at length
      omega
    · rw [String.toList_ofList]
      exact slash_not_letter _
  | snowflake g =>
    obtain ⟨⟨⟨answer, g'⟩, rest⟩, _, same⟩ := Option.map_eq_some_iff.mp drawn
    cases answer with
    | error detail => cases same
    | ok id => exact oneSegment_of_encode (Prod.mk.inj same).1

theorem spells_iff (drawn : g.nextCode now = some (.ok code, h, later)) : g.Spells now other ↔ code = other := by
  cases g with
  | random g =>
    obtain ⟨⟨made, rest⟩, next, same⟩ := Option.map_eq_some_iff.mp drawn
    cases same
    obtain ⟨_, same⟩ := Option.ite_none_right_eq_some.mp next
    cases same
    rw [Spells, ← String.toList_inj, String.toList_ofList]
  | snowflake g =>
    obtain ⟨⟨⟨answer, g'⟩, rest⟩, next, same⟩ := Option.map_eq_some_iff.mp drawn
    cases answer with
    | error detail => cases same
    | ok id =>
      have encoded : encodeBase62 id = .ok code := (Prod.mk.inj same).1
      constructor
      · rintro ⟨spelling, id', _, _, n, next', read, number⟩
        cases next.symm.trans next'
        have encoded' := encodeBase62_iff.mpr ⟨spelling, n, read, number⟩
        exact Except.ok.inj (encoded.symm.trans encoded')
      · rintro rfl
        obtain ⟨spelling, n, read, number⟩ := encodeBase62_iff.mp encoded
        exact ⟨spelling, id, g', rest, n, next, read, number⟩

end CodeGenerator

end UrlShortener
