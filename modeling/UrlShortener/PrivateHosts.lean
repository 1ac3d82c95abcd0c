import UrlShortener.General.IpAddresses
import UrlShortener.HostSpellings

namespace UrlShortener
open IpAddress Regex

/-- What the rules catch of the private addresses: every IPv4 one, fd00::/8,
one spelling of the loopback address, and what the lists have by chance. -/
def Caught (p : ReputationPolicy) (address : Address) (text : List Char) : Prop :=
  match address with
  | .v4 _ => True
  | .v6 address => InNetwork 128 (0xfd00 * 2 ^ 112) 8 address ∨ text = "::1".toList ∨
      registrableSuffixMatch (String.ofList (text.map Char.toLower)) p.blocklist = true ∨
      registrableSuffixMatch (String.ofList (text.map Char.toLower)) p.shorteners = true

section
variable {t : TextTables} {text : List Char} {address : V4}

theorem search_exactly {word rest : List Char} :
    (seq start (literal word)).search (word ++ rest) = true := by
  rw [search_start, run_literal]
  exact ⟨rest, rfl, rfl⟩

theorem v4_text (address : V4) : V4.text address = Nat.toDigits 10 (V4.octet address 0) ++ '.' ::
    (Nat.toDigits 10 (V4.octet address 1) ++ '.' :: (Nat.toDigits 10 (V4.octet address 2) ++ '.' ::
      Nat.toDigits 10 (V4.octet address 3))) := by
  have range : List.range 4 = [0, 1, 2, 3] := rfl
  rw [V4.text, range]
  simp only [List.map_cons, List.map_nil, List.intercalate_cons_cons, List.intercalate_singleton, List.append_assoc,
    List.singleton_append]

/-- The second octet of 172.16.0.0/12, digit by digit. -/
theorem run_second_octet (t : TextTables) {n : Nat} (lower : 16 ≤ n) (upper : n ≤ 31) (rest : List Char) :
    (seq (alt (seq (exactly "1") (one fun c => '6' ≤ c && c ≤ '9'))
      (alt (seq (exactly "2") (one t.digit)) (seq (exactly "3") (one fun c => c = '0' || c = '1')))) (exactly ".")).run
        (fun _ _ => true) false (Nat.toDigits 10 n ++ '.' :: rest) = true := by
  have digit (c : Char) (ascii : c.toNat < 128) : t.digit c = c.isDigit := t.digit_ascii c ascii
  interval_cases n <;> simp [run, exactly, literal, word, digit, Nat.toDigits, Nat.toDigitsCore, Nat.digitChar]

theorem privateHost_of_v4 (t : TextTables) (inside : V4.Private address) :
    privateHost t (String.ofList (V4.text address)) = true := by
  have found {r : Regex} (member : r ∈ privateHostPatterns t) (matched : r.search (V4.text address) = true) :
      privateHost t (String.ofList (V4.text address)) = true :=
    List.any_eq_true.mpr ⟨r, member, by rwa [String.toList_ofList]⟩
  have begins (word : String) (member : seq start (exactly word) ∈ privateHostPatterns t)
      (same : ∃ rest, V4.text address = word.toList ++ rest) :
      privateHost t (String.ofList (V4.text address)) = true := by
    obtain ⟨rest, same⟩ := same
    exact found member (same ▸ search_exactly)
  have small := address.isLt
  have shape := v4_text address
  simp only [V4.Private, InNetwork, octets] at inside
  simp only [V4.octet] at shape
  rcases inside with loopback | ten | seventeen | sixteen | linkLocal
  · have first : address.val / 256 ^ (3 - 0) % 256 = 127 := by omega
    rw [first] at shape
    exact begins "127." (by simp [privateHostPatterns]) ⟨_, shape⟩
  · have first : address.val / 256 ^ (3 - 0) % 256 = 10 := by omega
    rw [first] at shape
    exact begins "10." (by simp [privateHostPatterns]) ⟨_, shape⟩
  · have first : address.val / 256 ^ (3 - 0) % 256 = 172 := by omega
    have second : 16 ≤ address.val / 256 ^ (3 - 1) % 256 ∧ address.val / 256 ^ (3 - 1) % 256 ≤ 31 := by omega
    rw [first] at shape
    refine found (List.mem_of_getElem? (show (privateHostPatterns t)[4]? = some _ from rfl)) ?_
    rw [shape, search_start]
    exact run_literal.mpr ⟨_, rfl, run_second_octet t second.1 second.2 _⟩
  · have first : address.val / 256 ^ (3 - 0) % 256 = 192 := by omega
    have second : address.val / 256 ^ (3 - 1) % 256 = 168 := by omega
    rw [first, second] at shape
    exact begins "192.168." (by simp [privateHostPatterns]) ⟨_, shape⟩
  · have first : address.val / 256 ^ (3 - 0) % 256 = 169 := by omega
    have second : address.val / 256 ^ (3 - 1) % 256 = 254 := by omega
    rw [first, second] at shape
    exact begins "169.254." (by simp [privateHostPatterns]) ⟨_, shape⟩

end

/-- The letters of an IPv6 host in lower case. -/
def v6Letters : List Char :=
  "0123456789abcdef:.".toList

section
variable {t : TextTables} {text : List Char}

theorem v6Letter_of_textChar {c : Char} (own : TextChar c) : c.toLower ∈ v6Letters := by
  rcases own with digit | rfl | rfl
  · exact List.mem_of_mem_take (i := 16) digit
  · decide
  · decide

theorem v6Letter_lower {c : Char} (member : c ∈ v6Letters) : c.toNat < 128 ∧ c.toLower = c := by
  have all : (v6Letters.all fun c => c.toNat < 128 ∧ c.toLower = c) = true := by decide
  exact of_decide_eq_true (List.all_eq_true.mp all c member)

theorem folds_v6Letter {letter c : Char} (ascii : letter.toNat < 128) (lower : letter.toLower = letter)
    (member : c ∈ v6Letters) : t.folds letter c = decide (c = letter) := by
  obtain ⟨own, same⟩ := v6Letter_lower member
  rw [t.folds_ascii letter c ascii own, same, lower]

theorem hexDigit_v6Letter {c : Char} (member : c ∈ v6Letters) :
    (hexDigits.any fun digit => t.folds digit c) = true ↔ c ∈ hexDigits := by
  have all : (hexDigits.all fun digit => digit.toNat < 128 ∧ digit.toLower = digit) = true := by decide
  simp only [List.all_eq_true, decide_eq_true_eq] at all
  constructor
  · intro some
    obtain ⟨digit, listed, folded⟩ := List.any_eq_true.mp some
    rw [folds_v6Letter (all digit listed).1 (all digit listed).2 member] at folded
    exact of_decide_eq_true folded ▸ listed
  · intro listed
    refine List.any_eq_true.mpr ⟨c, listed, ?_⟩
    rw [folds_v6Letter (all c listed).1 (all c listed).2 member]
    exact decide_eq_true rfl

/-- A text of IPv6 letters has no `l`, which three of the patterns need. -/
theorem search_of_needs_l {r : Regex} (letters : ∀ c ∈ text, c ∈ v6Letters) (needs : r.Needs (t.folds 'l')) :
    r.search text = false := by
  refine eq_false_of_ne_true fun found => ?_
  obtain ⟨c, member, folded⟩ := needs.mem_of_search found
  rw [folds_v6Letter (by decide) (by decide) (letters c member)] at folded
  rw [of_decide_eq_true folded] at member
  exact absurd (letters 'l' member) (by decide)

/-- A colon comes before the first dot. -/
theorem run_dotted {word front more first rest : List Char} {k : Bool → List Char → Bool}
    (colon : ':' ∉ front) (dot : '.' ∉ first) (dotted : word = front ++ '.' :: more)
    (text_eq : text = first ++ ':' :: rest) : (literal word).run k true text = false := by
  refine eq_false_of_ne_true fun found => ?_
  obtain ⟨last, same, _⟩ := run_literal.mp found
  rw [text_eq, dotted, List.append_assoc] at same
  rcases List.append_eq_append_iff.mp same with ⟨part, whole, tails⟩ | ⟨part, whole, tails⟩
  · cases part with
    | nil => cases tails
    | cons c part =>
      cases (List.cons.inj tails).1
      exact colon (whole ▸ List.mem_append_right _ List.mem_cons_self)
  · cases part with
    | nil => cases tails
    | cons c part =>
      cases (List.cons.inj tails).1
      exact dot (whole ▸ List.mem_append_right _ List.mem_cons_self)

theorem mem_of_run_literal {c : Char} {k : Bool → List Char → Bool} {b : Bool}
    (found : (literal [c]).run k b text = true) : c ∈ text := by
  obtain ⟨rest, rfl, _⟩ := run_literal.mp found
  exact List.mem_cons_self

/-- The loopback pattern finds one spelling. -/
theorem search_loopback (letters : ∀ c ∈ text, c ∈ v6Letters) :
    (seq start (seq (opt (exactly "[")) (seq (exactly "::1") (seq (opt (exactly "]")) finish)))).search text = true ↔
      text = "::1".toList := by
  have absent {c : Char} (other : c ∉ v6Letters) : c ∉ text := fun member => other (letters c member)
  rw [search_start]
  constructor
  · intro found
    rcases Bool.or_eq_true_iff.mp found with bracket | found
    · exact absurd (mem_of_run_literal (c := '[') bracket) (absent (by decide))
    · obtain ⟨rest, same, found⟩ := run_literal.mp found
      have inside {c : Char} (member : c ∈ rest) : c ∈ text := same ▸ List.mem_append_right _ member
      rcases Bool.or_eq_true_iff.mp found with bracket | ended
      · exact absurd (inside (mem_of_run_literal (c := ']') bracket)) (absent (by decide))
      · rcases Bool.or_eq_true_iff.mp (Bool.and_eq_true_iff.mp ended).1 with none | newline
        · rw [same, List.isEmpty_iff.mp none, List.append_nil]
        · rw [of_decide_eq_true newline] at inside
          exact absurd (inside List.mem_cons_self) (absent (by decide))
  · rintro rfl
    rfl

/-- The pattern for unique local addresses finds a first group that begins with fd. -/
theorem search_uniqueLocal (letters : ∀ c ∈ text, c ∈ v6Letters) :
    (seq start (seq (opt (exactly "[")) (seq (t.folded "fd") (seq t.hexDigit (seq t.hexDigit (exactly ":")))))).search
      text = true ↔ ∃ c d rest, text = 'f' :: 'd' :: c :: d :: ':' :: rest ∧ c ∈ hexDigits ∧ d ∈ hexDigits := by
  have absent {c : Char} (other : c ∉ v6Letters) : c ∉ text := fun member => other (letters c member)
  have letter_f {c : Char} (member : c ∈ v6Letters) : t.folds 'f' c = decide (c = 'f') :=
    folds_v6Letter (by decide) (by decide) member
  have letter_d {c : Char} (member : c ∈ v6Letters) : t.folds 'd' c = decide (c = 'd') :=
    folds_v6Letter (by decide) (by decide) member
  rw [search_start]
  constructor
  · intro found
    rcases Bool.or_eq_true_iff.mp found with bracket | found
    · exact absurd (mem_of_run_literal (c := '[') bracket) (absent (by decide))
    · obtain ⟨front, rest, rfl, folded, later⟩ := run_word.mp found
      obtain ⟨f, d, rfl⟩ := List.length_eq_two.mp folded.length_eq.symm
      obtain ⟨first, second⟩ : t.folds 'f' f = true ∧ t.folds 'd' d = true := by
        have pairs : List.Forall₂ (fun (accepts : Char → Bool) c => accepts c = true) [t.folds 'f', t.folds 'd'] [f, d] :=
          folded
        rw [List.forall₂_cons, List.forall₂_cons] at pairs
        exact ⟨pairs.1, pairs.2.1⟩
      rw [letter_f (letters f List.mem_cons_self)] at first
      rw [letter_d (letters d (List.mem_cons_of_mem _ List.mem_cons_self))] at second
      cases of_decide_eq_true first
      cases of_decide_eq_true second
      obtain ⟨c, rest, rfl, third, later⟩ := run_one.mp later
      obtain ⟨e, rest, rfl, fourth, later⟩ := run_one.mp later
      obtain ⟨rest, rfl, _⟩ := run_literal.mp later
      have inside {x : Char} (member : x ∈ ['f', 'd', c, e]) : x ∈ v6Letters :=
        letters x (List.mem_append_left (':' :: rest) member)
      exact ⟨c, e, rest, rfl, (hexDigit_v6Letter (inside (by simp))).mp third,
        (hexDigit_v6Letter (inside (by simp))).mp fourth⟩
  · rintro ⟨c, d, rest, rfl, first, second⟩
    have inside {x : Char} (member : x ∈ ['f', 'd', c, d]) : x ∈ v6Letters :=
      letters x (List.mem_append_left (':' :: rest) member)
    have hex_c := (hexDigit_v6Letter (t := t) (inside (by simp))).mpr first
    have hex_d := (hexDigit_v6Letter (t := t) (inside (by simp))).mpr second
    have matched : (seq (t.folded "fd") (seq t.hexDigit (seq t.hexDigit (exactly ":")))).run (fun _ _ => true) true
        ('f' :: 'd' :: c :: d :: ':' :: rest) = true := by
      show (t.folds 'f' 'f' && (t.folds 'd' 'd' && ((hexDigits.any fun digit => t.folds digit c) &&
        ((hexDigits.any fun digit => t.folds digit d) && (decide (':' = ':') && true))))) = true
      rw [letter_f (inside (by simp)), letter_d (inside (by simp)), hex_c, hex_d]
      rfl
    rw [Regex.run, Regex.run, matched, Bool.or_true]

/-- What the patterns find in an IPv6 host. -/
theorem privateHost_v6 {first rest : List Char} (letters : ∀ c ∈ text, c ∈ v6Letters)
    (split : text = first ++ ':' :: rest) (dot : '.' ∉ first) :
    privateHost t (String.ofList text) = true ↔ text = "::1".toList ∨
      ∃ c d rest, text = 'f' :: 'd' :: c :: d :: ':' :: rest ∧ c ∈ hexDigits ∧ d ∈ hexDigits := by
  have dotted (front more : List Char) (colon : ':' ∉ front) (k : Bool → List Char → Bool) :
      (literal (front ++ '.' :: more)).run k true text = false :=
    run_dotted colon dot rfl split
  have quad (front more : List Char) (colon : ':' ∉ front) :
      (seq start (literal (front ++ '.' :: more))).search text = false := by
    rw [search_start]
    exact dotted front more colon _
  have named {first : Regex} (word : String) (member : 'l' ∈ word.toList) :
      (seq first (seq (t.folded word) finish)).search text = false :=
    search_of_needs_l letters (.second (.first (needs_word (List.mem_map_of_mem member))))
  have loopback : (seq start (exactly "127.")).search text = false := quad "127".toList [] (by decide)
  have ten : (seq start (exactly "10.")).search text = false := quad "10".toList [] (by decide)
  have sixteen : (seq start (exactly "192.168.")).search text = false := quad "192".toList "168.".toList (by decide)
  have seventeen (r : Regex) : (seq start (seq (exactly "172.") r)).search text = false := by
    rw [search_start]
    exact dotted "172".toList [] (by decide) _
  have linkLocal : (seq start (exactly "169.254.")).search text = false := quad "169".toList "254.".toList (by decide)
  simp only [privateHost, privateHostPatterns, List.any_cons, List.any_nil, String.toList_ofList, Bool.or_eq_true,
    named "localhost" (by decide), named "internal" (by decide), named "local" (by decide), loopback, ten, sixteen,
    seventeen, linkLocal, search_loopback letters, search_uniqueLocal letters, Bool.false_eq_true, false_or, or_false]

end

section
variable {t : TextTables} {text : List Char}

theorem word_head (address : V6) : (V6.words address).head? = some (address.val / 2 ^ 112) := by
  have small := address.isLt
  show some (address.val / 65536 ^ 7 % 65536) = some (address.val / 2 ^ 112)
  rw [Option.some.injEq]
  omega

theorem inNetwork_iff (address : V6) :
    InNetwork 128 (0xfd00 * 2 ^ 112) 8 address ↔ address.val / 2 ^ 112 / 256 = 0xfd := by
  rw [InNetwork]
  omega

/-- The first group is spelled with four digits, so that its first two show. -/
theorem first_group {first rest : List Char} {word : Nat} (group : Group first word) :
    (∃ c d rest', first.map Char.toLower ++ ':' :: rest = 'f' :: 'd' :: c :: d :: ':' :: rest' ∧ c ∈ hexDigits ∧
      d ∈ hexDigits) ↔ word / 256 = 0xfd := by
  have digit {c : Char} (member : c ∈ first.map Char.toLower) : c ∈ hexDigits := by
    obtain ⟨letter, inside, rfl⟩ := List.mem_map.mp member
    exact group.toLower_mem inside
  have colon : ':' ∉ first.map Char.toLower := fun member => absurd (digit member) (by decide)
  rw [group.upper_byte]
  constructor
  · rintro ⟨c, d, rest', same, digit_c, digit_d⟩
    have colon' : ':' ∉ ['f', 'd', c, d] := by
      intro member
      simp only [List.mem_cons, List.not_mem_nil, or_false] at member
      rcases member with other | other | rfl | rfl
      · cases other
      · cases other
      · exact absurd digit_c (by decide)
      · exact absurd digit_d (by decide)
    have pieces := congrArg (List.splitOn ':') (same.trans (show _ = ['f', 'd', c, d] ++ ':' :: rest' from rfl))
    rw [List.splitOn_append_cons_self_of_not_mem colon, List.splitOn_append_cons_self_of_not_mem colon'] at pieces
    exact ⟨c, d, (List.cons.inj pieces).1⟩
  · rintro ⟨c, d, same⟩
    rw [same] at digit ⊢
    exact ⟨c, d, rest, rfl, digit (by simp), digit (by simp)⟩

/-- Of the IPv6 hosts, the patterns find fd00::/8 in every spelling and the
loopback address in one. -/
theorem privateHost_spelling {address : V6} (spelled : Spells (V6.words address) text) :
    privateHost t (String.ofList (text.map Char.toLower)) = true ↔
      InNetwork 128 (0xfd00 * 2 ^ 112) 8 address ∨ text = "::1".toList := by
  have letters : ∀ c ∈ text.map Char.toLower, c ∈ v6Letters := by
    intro c member
    obtain ⟨letter, inside, rfl⟩ := List.mem_map.mp member
    exact v6Letter_of_textChar (spelled.textChar inside)
  have loopback : text.map Char.toLower = "::1".toList ↔ text = "::1".toList := by
    constructor
    · intro same
      have letterless : Letterless "::1" := by decide
      have whole : lowerCase (String.ofList text) = "::1" := by
        rw [← String.toList_inj, toList_lowerCase, String.toList_ofList, same]
      rw [← letterless.eq_of_lowerCase whole, String.toList_ofList]
    · rintro rfl
      rfl
  obtain ⟨first, rest, rfl, shape⟩ := spelled.head
  have split : (first ++ ':' :: rest).map Char.toLower = first.map Char.toLower ++ ':' :: rest.map Char.toLower :=
    List.map_append
  have dot : '.' ∉ first.map Char.toLower := by
    intro member
    obtain ⟨letter, inside, same⟩ := List.mem_map.mp member
    rcases shape with ⟨rfl, _⟩ | ⟨word, group, _⟩
    · cases inside
    · exact absurd (same ▸ group.toLower_mem inside) (by decide)
  rw [privateHost_v6 letters split dot, or_comm, loopback, split, inNetwork_iff]
  refine or_congr_left ?_
  rw [word_head, Option.some.injEq] at shape
  rcases shape with ⟨rfl, zero⟩ | ⟨word, group, same⟩
  · refine iff_of_false ?_ (by omega)
    rintro ⟨c, d, rest', same, _⟩
    cases same
  · rw [Option.some.injEq] at same
    rw [first_group group, same]

theorem v4_lower (address : V4) : (V4.text address).map Char.toLower = V4.text address := by
  nth_rewrite 2 [← List.map_id (V4.text address)]
  refine List.map_congr_left fun c member => Char.toLower_eq_of_not_isUpper fun upper => ?_
  rcases V4.mem_text member with digit | rfl
  · simp only [Char.isUpper, Char.isDigit, Bool.and_eq_true, decide_eq_true_eq, UInt32.le_iff_toNat_le] at upper digit
    exact absurd (upper.1.trans digit.2) (by decide)
  · cases upper

/-- A private address is refused, apart from the IPv6 spellings that neither
the patterns nor the lists have. -/
theorem refused_iff_caught {t : TextTables} {p : ReputationPolicy} (guarded : p.allowPrivate = false)
    {address : Address} (inside : address.Private) {text : List Char} (spelled : address.SpelledBy text) {url : String}
    (named : hostOf t url = String.ofList (text.map Char.toLower)) :
    (p.evaluate t url).action = .refuse ↔ Caught p address text := by
  rw [ReputationPolicy.evaluate, ReputationPolicy.judge_refuse, ReputationPolicy.refuses_iff, named]
  cases address with
  | v4 address =>
    have same : text = V4.text address := spelled
    have found := privateHost_of_v4 t inside
    rw [same, v4_lower]
    exact iff_of_true (Or.inr (Or.inl ⟨guarded, found⟩)) trivial
  | v6 address =>
    have spelled : Spells (V6.words address) text := spelled
    have nonempty : String.ofList (text.map Char.toLower) ≠ "" := by
      obtain ⟨first, rest, rfl, _⟩ := spelled.head
      intro empty
      have none := congrArg String.toList empty
      rw [String.toList_ofList, List.map_append] at none
      simp at none
    rw [privateHost_spelling spelled]
    simp only [nonempty, guarded, true_and, false_or, Caught, or_assoc]

end

/-- One group, zeros and one group. -/
theorem spelledBy_compressed {address : V6} (front back : List Char) {upper lower : Nat}
    (words : V6.words address = [upper, 0, 0, 0, 0, 0, 0, lower]) (first : Group front upper) (last : Group back lower) :
    (Address.v6 address).SpelledBy (front ++ ':' :: ':' :: back) := by
  have spelled : Spells (V6.words address) ([':'].intercalate [front] ++ ':' :: ':' :: [':'].intercalate [back]) :=
    .compressed 6 (.cons first .nil) (.group last .nil) (by decide) rfl words
  rwa [List.intercalate_singleton, List.intercalate_singleton] at spelled

theorem unique_local_refused :
    (({} : ReputationPolicy).evaluate .ascii "http://[FD12::1]:8000/").action = .refuse := by
  let address : V6 := Fin.ofNat _ (0xfd12 * 2 ^ 112 + 1)
  have words : V6.words address = [0xfd12, 0, 0, 0, 0, 0, 0, 1] := by decide
  have spelled : (Address.v6 address).SpelledBy "FD12::1".toList :=
    spelledBy_compressed "FD12".toList "1".toList words ⟨by decide, by decide, by decide⟩
      ⟨by decide, by decide, by decide⟩
  have inside : (Address.v6 address).Private := by
    refine Or.inr (Or.inr (Or.inl ?_))
    rw [InNetwork]
    decide
  refine (refused_iff_caught rfl inside spelled (by decide)).mpr (Or.inl ?_)
  rw [InNetwork]
  decide

/-- A link-local address, and other spellings of loopback addresses, get past the defaults. -/
theorem private_addresses_let_through :
    (∃ address : V6, V6.Private address ∧ (Address.v6 address).SpelledBy "fe80::1".toList ∧
      hostOf .ascii "http://[fe80::1]/" = String.ofList ("fe80::1".toList.map Char.toLower)) ∧
    (({} : ReputationPolicy).evaluate .ascii "http://[fe80::1]/").action = .allow ∧
    (({} : ReputationPolicy).evaluate .ascii "http://[0:0:0:0:0:0:0:1]/").action = .allow ∧
    (({} : ReputationPolicy).evaluate .ascii "http://[::ffff:127.0.0.1]/").action = .allow ∧
    (({} : ReputationPolicy).evaluate .ascii "http://[fc00::1]/").action = .allow := by
  let address : V6 := Fin.ofNat _ (0xfe80 * 2 ^ 112 + 1)
  have words : V6.words address = [0xfe80, 0, 0, 0, 0, 0, 0, 1] := by decide
  have spelled : (Address.v6 address).SpelledBy "fe80::1".toList :=
    spelledBy_compressed "fe80".toList "1".toList words ⟨by decide, by decide, by decide⟩
      ⟨by decide, by decide, by decide⟩
  have inside : V6.Private address := by
    refine Or.inr (Or.inl ?_)
    rw [InNetwork]
    decide
  exact ⟨⟨address, inside, spelled, by decide⟩, by decide, by decide, by decide, by decide⟩

end UrlShortener
