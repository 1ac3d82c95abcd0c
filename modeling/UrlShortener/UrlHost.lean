import Mathlib

namespace UrlShortener

def IsAscii (text : List Char) : Prop :=
  ∀ c ∈ text, c.toNat < 128

instance (text : List Char) : Decidable (IsAscii text) :=
  List.decidableBAll _ text

/-- What the standard library looks up in tables: `str.lower`, the NFKC form,
the digits of `\d`, the letters that re.I takes for one another, and the hosts
that may stand in brackets. For ASCII nothing but letter case matters. -/
structure TextTables where
  lower : List Char → List Char
  normalize : List Char → List Char
  bracketed : List Char → Bool
  digit : Char → Bool
  folds : Char → Char → Bool
  lower_ascii : ∀ text, IsAscii text → lower text = text.map Char.toLower
  digit_ascii : ∀ c, c.toNat < 128 → digit c = c.isDigit
  folds_ascii : ∀ letter c, letter.toNat < 128 → c.toNat < 128 → folds letter c = decide (c.toLower = letter.toLower)

/-- The tables cut down to ASCII. -/
def TextTables.ascii : TextTables where
  lower text := text.map Char.toLower
  normalize text := text
  bracketed _ := true
  digit c := c.isDigit
  folds letter c := c.toLower = letter.toLower
  lower_ascii _ _ := rfl
  digit_ascii _ _ := rfl
  folds_ascii _ _ _ _ := rfl

/-- `str.partition`: what precedes the separator, the separator and the rest. -/
def partition (sep : Char) (text : List Char) : List Char × List Char × List Char :=
  let rest := text.dropWhile (· ≠ sep)
  (text.takeWhile (· ≠ sep), rest.take 1, rest.drop 1)

/-- The last part of `str.rpartition`. -/
def afterLast (sep : Char) (text : List Char) : List Char :=
  (text.reverse.takeWhile (· ≠ sep)).reverse

def schemeChar (c : Char) : Bool :=
  c.isAlphanum || c = '+' || c = '-' || c = '.'

/-- The url without its scheme. -/
def splitScheme (url : List Char) : List Char :=
  let (scheme, colon, rest) := partition ':' url
  if colon ≠ [] ∧ scheme.head?.any Char.isAlpha ∧ scheme.all schemeChar then rest else url

/-- `_checknetloc`: its normal form has no delimiter that the netloc lacks. -/
def checkNetloc (t : TextTables) (netloc : List Char) : Bool :=
  decide (IsAscii netloc) ||
    let n := netloc.filter fun c => c ∉ ['@', ':', '#', '?']
    n = t.normalize n || (t.normalize n).all fun c => c ∉ ['/', '?', '#', '@', ':']

/-- The host of `_hostinfo`. -/
def hostInfo (netloc : List Char) : List Char :=
  let hostInfo := afterLast '@' netloc
  let (_, opened, bracketed) := partition '[' hostInfo
  if opened ≠ [] then (partition ']' bracketed).1 else (partition ':' hostInfo).1

/-- `_check_bracketed_netloc`: nothing stands before the bracket, and nothing but
a port behind it. -/
def checkBracketedNetloc (t : TextTables) (netloc : List Char) : Bool :=
  let (before, opened, bracketed) := partition '[' (afterLast '@' netloc)
  let (_, _, port) := partition ']' bracketed
  (decide (opened = []) || decide (before = []) && port.head?.all (· = ':')) && t.bracketed (hostInfo netloc)

/-- The netloc of `urlsplit`; `none` for its ValueErrors. -/
def urlNetloc (t : TextTables) (url : List Char) : Option (List Char) :=
  let url := (url.dropWhile (· ≤ ' ')).filter fun c => c ∉ ['\t', '\r', '\n']
  let url := splitScheme url
  if url.take 2 = ['/', '/'] then
    let netloc := (url.drop 2).takeWhile fun c => c ∉ ['/', '?', '#']
    if netloc.contains '[' ≠ netloc.contains ']' then none
    else if netloc.contains '[' ∧ checkBracketedNetloc t netloc = false then none
    else if checkNetloc t netloc then some netloc else none
  else some []

/-- The property `hostname`, where a zone keeps its letter case. -/
def hostname (t : TextTables) (netloc : List Char) : Option (List Char) :=
  let hostname := hostInfo netloc
  if hostname = [] then none
  else
    let (hostname, percent, zone) := partition '%' hostname
    some (t.lower hostname ++ percent ++ zone)

def hostOf (t : TextTables) (url : String) : String :=
  match urlNetloc t url.toList with
  | some netloc => String.ofList (t.lower ((hostname t netloc).getD []))
  | none => ""

/-- What `must_be_http` lets through. -/
def httpUrl (v : String) : Bool :=
  "http://".toList.isPrefixOf v.toList || "https://".toList.isPrefixOf v.toList

/-- The host as the url spells it, without port and brackets. -/
def HostText (t : TextTables) (url : String) (host : List Char) : Prop :=
  ∃ netloc, urlNetloc t url.toList = some netloc ∧ hostInfo netloc = host

variable {t : TextTables} {url : String} {host text : List Char}

theorem partition_append (sep : Char) (text : List Char) :
    (partition sep text).1 ++ (partition sep text).2.1 ++ (partition sep text).2.2 = text := by
  rw [partition, List.append_assoc, List.take_append_drop, List.takeWhile_append_dropWhile]

theorem partition_of_notMem {sep : Char} (absent : sep ∉ text) : partition sep text = (text, [], []) := by
  have all : ∀ c ∈ text, decide (c ≠ sep) = true := by
    intro c member
    refine decide_eq_true ?_
    rintro rfl
    exact absent member
  rw [partition, List.takeWhile_eq_self_iff.mpr all, List.dropWhile_eq_nil_iff.mpr all]
  rfl

theorem afterLast_of_notMem {sep : Char} (absent : sep ∉ text) : afterLast sep text = text := by
  have all : ∀ c ∈ text.reverse, decide (c ≠ sep) = true := by
    intro c member
    refine decide_eq_true ?_
    rintro rfl
    exact absent (List.mem_reverse.mp member)
  rw [afterLast, List.takeWhile_eq_self_iff.mpr all, List.reverse_reverse]

theorem toNat_toLower_lt {c : Char} (ascii : c.toNat < 128) : c.toLower.toNat < 128 := by
  by_cases upper : c.isUpper = true
  · have bounds : 65 ≤ c.toNat ∧ c.toNat ≤ 90 := by
      simp only [Char.isUpper, decide_eq_true_eq] at upper
      exact ⟨UInt32.le_iff_toNat_le.mp upper.1, UInt32.le_iff_toNat_le.mp upper.2⟩
    have valid : (c.toNat + 32).isValidChar := Or.inl (by omega)
    rw [Char.toLower_eq_of_isUpper upper, Char.toNat_ofNat, if_pos valid]
    omega
  · rw [Char.toLower_eq_of_not_isUpper upper]
    exact ascii

theorem toNat_lt_of_toLower {c : Char} (ascii : c.toLower.toNat < 128) : c.toNat < 128 := by
  by_cases upper : c.isUpper = true
  · simp only [Char.isUpper, decide_eq_true_eq] at upper
    exact (UInt32.le_iff_toNat_le.mp upper.2).trans_lt (by decide)
  · rwa [Char.toLower_eq_of_not_isUpper upper] at ascii

theorem isAscii_toLower (ascii : IsAscii text) : IsAscii (text.map Char.toLower) := by
  intro c member
  obtain ⟨letter, here, rfl⟩ := List.mem_map.mp member
  exact toNat_toLower_lt (ascii letter here)

theorem map_toLower_toLower (text : List Char) : (text.map Char.toLower).map Char.toLower = text.map Char.toLower := by
  rw [List.map_map]
  exact List.map_congr_left fun c _ => Char.toLower_toLower_eq_toLower c

theorem isAscii_nil : IsAscii [] :=
  fun _ member => absurd member List.not_mem_nil

theorem isAscii_append {front back : List Char} :
    IsAscii (front ++ back) ↔ IsAscii front ∧ IsAscii back := by
  simp only [IsAscii, List.mem_append, or_imp, forall_and]

theorem hostname_getD (t : TextTables) {netloc name percent zone : List Char}
    (parts : partition '%' (hostInfo netloc) = (name, percent, zone)) :
    (hostname t netloc).getD [] = t.lower name ++ percent ++ zone := by
  by_cases none : hostInfo netloc = []
  · have nothing : ([], [], []) = (name, percent, zone) := by rw [← parts, none]; rfl
    cases nothing
    have lowered : t.lower [] = [] := t.lower_ascii [] isAscii_nil
    simp only [hostname, none, if_true, Option.getD_none, lowered, List.append_nil]
  · simp only [hostname, none, if_false, parts, Option.getD_some]

/-- Lower case comes out, although the zone is kept as it is at first. -/
theorem lower_hostname {netloc : List Char} (ascii : IsAscii (hostInfo netloc)) :
    t.lower ((hostname t netloc).getD []) = (hostInfo netloc).map Char.toLower := by
  rcases parts : partition '%' (hostInfo netloc) with ⟨name, percent, zone⟩
  have whole := partition_append '%' (hostInfo netloc)
  rw [parts] at whole
  rw [hostname_getD t parts, ← whole]
  rw [← whole, isAscii_append, isAscii_append] at ascii
  obtain ⟨⟨ascii_name, ascii_percent⟩, ascii_zone⟩ := ascii
  have ascii_lowered : IsAscii (name.map Char.toLower ++ percent ++ zone) :=
    isAscii_append.mpr ⟨isAscii_append.mpr ⟨isAscii_toLower ascii_name, ascii_percent⟩, ascii_zone⟩
  rw [t.lower_ascii name ascii_name, t.lower_ascii _ ascii_lowered, List.map_append, List.map_append,
    map_toLower_toLower, List.map_append, List.map_append]

theorem hostOf_eq (spelled : HostText t url host) (ascii : IsAscii host) :
    hostOf t url = String.ofList (host.map Char.toLower) := by
  obtain ⟨netloc, split, rfl⟩ := spelled
  simp only [hostOf, split]
  rw [lower_hostname ascii]

/-- Letters, digits and what else a name in a url is made of. -/
def plainChar (c : Char) : Bool :=
  c.isAlphanum || c = '-' || c = '_' || c = '.'

theorem toNat_lt_of_plain {c : Char} (plain : plainChar c = true) : c.toNat < 128 := by
  simp only [plainChar, Char.isAlphanum, Char.isAlpha, Char.isUpper, Char.isLower, Char.isDigit, Bool.or_eq_true,
    Bool.and_eq_true, decide_eq_true_eq, UInt32.le_iff_toNat_le] at plain
  rcases plain with ((((letter | letter) | digit) | rfl) | rfl) | rfl
  · exact letter.2.trans_lt (by decide)
  · exact letter.2.trans_lt (by decide)
  · exact digit.2.trans_lt (by decide)
  all_goals decide

/-- A host of plain characters is found in the url that has nothing else. -/
theorem hostText_of_plain (t : TextTables) (plain : ∀ c ∈ host, plainChar c = true) :
    HostText t (String.ofList ("http://".toList ++ host)) host := by
  have absent {c : Char} (other : plainChar c = false) : c ∉ host := by
    intro member
    rw [plain c member] at other
    cases other
  have outside {c : Char} {others : List Char} (others_false : others.all (fun o => !plainChar o) = true)
      (member : c ∈ host) : decide (c ∉ others) = true := by
    refine decide_eq_true fun other => ?_
    exact absent (Bool.not_eq_true' _ ▸ List.all_eq_true.mp others_false c other) member
  have ascii : IsAscii host := fun c member => toNat_lt_of_plain (plain c member)
  have kept : ("http://".toList ++ host).filter (fun c => c ∉ ['\t', '\r', '\n']) = "http://".toList ++ host := by
    rw [List.filter_append, List.filter_eq_self.mpr fun c member => outside rfl member]
    rfl
  have netloc : host.takeWhile (fun c => c ∉ ['/', '?', '#']) = host :=
    List.takeWhile_eq_self_iff.mpr fun c member => outside rfl member
  have split : urlNetloc t ("http://".toList ++ host) = some host := by
    have led : ("http://".toList ++ host).dropWhile (· ≤ ' ') = "http://".toList ++ host := rfl
    have scheme : splitScheme ("http://".toList ++ host) = "//".toList ++ host := rfl
    have checked : checkNetloc t host = true := by rw [checkNetloc, decide_eq_true ascii, Bool.true_or]
    have closed : host.contains ']' = false := by
      rw [List.contains_eq_mem, decide_eq_false (absent rfl)]
    have opened : host.contains '[' = false := by
      rw [List.contains_eq_mem, decide_eq_false (absent rfl)]
    have slashes : ("//".toList ++ host).take 2 = ['/', '/'] := rfl
    have rest : ("//".toList ++ host).drop 2 = host := rfl
    simp only [urlNetloc, led, kept, scheme, slashes, rest, netloc, opened, closed, checked]
    rfl
  refine ⟨host, ?_, ?_⟩
  · rw [String.toList_ofList, split]
  · rw [hostInfo, afterLast_of_notMem (absent rfl), partition_of_notMem (absent rfl), partition_of_notMem (absent rfl)]
    rfl

end UrlShortener
