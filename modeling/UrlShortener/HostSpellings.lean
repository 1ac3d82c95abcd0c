import UrlShortener.Reputation

namespace UrlShortener

/-- The same text with its ASCII letters in lower case. -/
def lowerCase (text : String) : String :=
  String.ofList (text.toList.map Char.toLower)

def upperCase (text : String) : String :=
  String.ofList (text.toList.map Char.toUpper)

def Letterless (text : String) : Prop :=
  ∀ c ∈ text.toList, c.isAlpha = false

instance (text : String) : Decidable (Letterless text) :=
  List.decidableBAll _ text.toList

/-- A name of the DNS in lower case, without the dot of the root. -/
structure DnsName where
  labels : List (List Char)
  labels_ne : labels ≠ []
  label_ne : ∀ label ∈ labels, label ≠ []
  plain : ∀ label ∈ labels, ∀ c ∈ label, c ≠ '.' ∧ plainChar c = true ∧ c.toLower = c

namespace DnsName

def text (n : DnsName) : List Char :=
  ['.'].intercalate n.labels

/-- The name with and without the dot of the root. -/
def forms (n : DnsName) : List String :=
  [String.ofList n.text, String.ofList (n.text ++ ['.'])]

/-- Letter case and the dot of the root make no difference to the name. -/
def SpelledBy (n : DnsName) (host : List Char) : Prop :=
  host.map Char.toLower = n.text ∨ host.map Char.toLower = n.text ++ ['.']

end DnsName

namespace ReputationPolicy

/-- The same policy with its domains in other letter case. -/
structure Respelled (p p' : ReputationPolicy) : Prop where
  blocklist : p.blocklist.image lowerCase = p'.blocklist.image lowerCase
  shorteners : p.shorteners.image lowerCase = p'.shorteners.image lowerCase
  lowTrust : p.lowTrust.map lowerCase = p'.lowTrust.map lowerCase
  allowPrivate : p.allowPrivate = p'.allowPrivate

/-- Every spelling of the name, in the url and in the policy, has the same action. -/
def SpellingBlind (t : TextTables) (p : ReputationPolicy) (n : DnsName) : Prop :=
  ∀ p', p.Respelled p' → ∀ url url' host host', httpUrl url = true → httpUrl url' = true →
    HostText t url host → n.SpelledBy host → HostText t url' host' → n.SpelledBy host' →
      (p.evaluate t url).action = (p'.evaluate t url').action

def lowered (p : ReputationPolicy) : ReputationPolicy :=
  ⟨p.blocklist.image lowerCase, p.shorteners.image lowerCase, p.lowTrust.map lowerCase, p.allowPrivate⟩

def capital (p : ReputationPolicy) : ReputationPolicy :=
  ⟨p.blocklist.image upperCase, p.shorteners.image upperCase, p.lowTrust.map upperCase, p.allowPrivate⟩

/-- The domains that letter case cannot change. -/
def letterless (p : ReputationPolicy) : ReputationPolicy :=
  ⟨p.blocklist.filter Letterless, p.shorteners.filter Letterless, p.lowTrust.filter fun d => Letterless d, p.allowPrivate⟩

/-- A refusal, or a warning, of both forms that rests on no letter of a domain;
what is let through is let through in both forms with all domains in lower case. -/
def Settled (t : TextTables) (p : ReputationPolicy) (n : DnsName) : Prop :=
  (∀ host ∈ n.forms, p.letterless.refuses t host = true) ∨
    (∀ host ∈ n.forms, p.lowered.refuses t host = false) ∧
      ((∀ host ∈ n.forms, p.letterless.lowTrustHost host = true) ∨
        ∀ host ∈ n.forms, p.lowered.lowTrustHost host = false)

end ReputationPolicy

section
variable {text d host : String} {c : Char}

theorem toList_lowerCase : (lowerCase text).toList = text.toList.map Char.toLower :=
  String.toList_ofList

theorem lowerCase_lowerCase : lowerCase (lowerCase text) = lowerCase text := by
  rw [← String.toList_inj, toList_lowerCase, toList_lowerCase, map_toLower_toLower]

theorem lowerCase_upperCase : lowerCase (upperCase text) = lowerCase text := by
  rw [← String.toList_inj, toList_lowerCase, toList_lowerCase, upperCase, String.toList_ofList, List.map_map]
  exact List.map_congr_left fun c _ => Char.toLower_toUpper_eq_toLower c

theorem lowerCase_eq_iff : lowerCase text = text ↔ ∀ c ∈ text.toList, c.toLower = c := by
  rw [← String.toList_inj, toList_lowerCase]
  nth_rewrite 2 [← List.map_id text.toList]
  exact List.map_inj_left

theorem toLower_of_letterless (letterless : c.isAlpha = false) : c.toLower = c := by
  refine Char.toLower_eq_of_not_isUpper fun upper => ?_
  rw [Char.isAlpha, upper, Bool.true_or] at letterless
  cases letterless

theorem toUpper_of_letterless (letterless : c.isAlpha = false) : c.toUpper = c := by
  refine Char.toUpper_eq_of_not_isLower fun lower => ?_
  rw [Char.isAlpha, lower, Bool.or_true] at letterless
  cases letterless

theorem Letterless.lowerCase (letterless : Letterless text) : lowerCase text = text :=
  lowerCase_eq_iff.mpr fun c member => toLower_of_letterless (letterless c member)

theorem Letterless.upperCase (letterless : Letterless text) : upperCase text = text := by
  rw [← String.toList_inj, UrlShortener.upperCase, String.toList_ofList]
  nth_rewrite 2 [← List.map_id text.toList]
  exact List.map_congr_left fun c member => toUpper_of_letterless (letterless c member)

/-- No other spelling of a text without letters. -/
theorem Letterless.eq_of_lowerCase (letterless : Letterless text) (same : UrlShortener.lowerCase d = text) : d = text := by
  have own : Letterless d := by
    intro c member
    rw [← Char.isAlpha_toLower_eq_isAlpha]
    refine letterless c.toLower ?_
    rw [← same, toList_lowerCase]
    exact List.mem_map_of_mem member
  rw [← own.lowerCase, same]

/-- A text with letters is not in lower case after `upperCase`. -/
theorem letterless_of_lower_upperCase (lower : lowerCase (upperCase text) = upperCase text) : Letterless text := by
  intro c member
  have image : c.toUpper ∈ (upperCase text).toList := by
    rw [upperCase, String.toList_ofList]
    exact List.mem_map_of_mem member
  have same := lowerCase_eq_iff.mp lower c.toUpper image
  rw [← Char.isUpper_toUpper_eq_isAlpha, ← same]
  exact Char.isUpper_toLower_eq_false _

end

/-! A rule that finds a domain in a host, letter by letter. -/
section
variable {D D' : Set String} {M : String → String → Prop} {host : String}

/-- Every letter of the domain is one of the host. -/
def Literal (M : String → String → Prop) : Prop :=
  ∀ d host, M d host → d.toList ⊆ host.toList

theorem Literal.lower (literal : Literal M) (lower : lowerCase host = host) {d : String} (matched : M d host) :
    lowerCase d = d :=
  lowerCase_eq_iff.mpr fun c member => lowerCase_eq_iff.mp lower c (literal d host matched member)

/-- In a host of lower case, no spelling of the domains finds more than the one in lower case. -/
theorem Literal.exists_lowered (literal : Literal M) (lower : lowerCase host = host)
    (respelled : lowerCase '' D = lowerCase '' D') (matched : ∃ d ∈ D', M d host) : ∃ d ∈ lowerCase '' D, M d host := by
  obtain ⟨d, listed, matched⟩ := matched
  refine ⟨d, ?_, matched⟩
  rw [respelled]
  exact ⟨d, listed, literal.lower lower matched⟩

/-- Nor less than the domains without letters do. -/
theorem exists_of_letterless (respelled : lowerCase '' D = lowerCase '' D')
    (matched : ∃ d ∈ {d ∈ D | Letterless d}, M d host) : ∃ d ∈ D', M d host := by
  obtain ⟨d, ⟨listed, letterless⟩, matched⟩ := matched
  have image : d ∈ lowerCase '' D' := by
    rw [← respelled]
    exact ⟨d, listed, letterless.lowerCase⟩
  obtain ⟨d', listed', same⟩ := image
  rw [letterless.eq_of_lowerCase same] at listed'
  exact ⟨d, listed', matched⟩

/-- With all letters in upper case, only the domains without letters are left. -/
theorem Literal.exists_capital (literal : Literal M) (lower : lowerCase host = host) :
    (∃ d ∈ upperCase '' D, M d host) ↔ ∃ d ∈ {d ∈ D | Letterless d}, M d host := by
  constructor
  · rintro ⟨_, ⟨d, listed, rfl⟩, matched⟩
    have letterless := letterless_of_lower_upperCase (literal.lower lower matched)
    refine ⟨d, ⟨listed, letterless⟩, ?_⟩
    rwa [letterless.upperCase] at matched
  · rintro ⟨d, ⟨listed, letterless⟩, matched⟩
    exact ⟨d, ⟨d, listed, letterless.upperCase⟩, matched⟩

end

section
variable {D D' : Finset String} {host : String}

/-- The test of `registrable_suffix_match` for one domain. -/
def UnderDomain (d host : String) : Prop :=
  host = d ∨ ("." ++ d).toList <:+ host.toList

def EndsWith (suffix host : String) : Prop :=
  suffix.toList <:+ host.toList

theorem literal_underDomain : Literal UnderDomain := by
  rintro d host (rfl | longer) c member
  · exact member
  · refine longer.subset ?_
    rw [String.toList_append]
    exact List.mem_append_right _ member

theorem literal_endsWith : Literal EndsWith :=
  fun _ _ suffix => suffix.subset

theorem registrableSuffixMatch_coe : registrableSuffixMatch host D = true ↔
    ∃ d ∈ (D : Set String), UnderDomain d host := by
  rw [registrableSuffixMatch, decide_eq_true_iff]
  rfl

theorem match_lowered (lower : lowerCase host = host) (respelled : D.image lowerCase = D'.image lowerCase)
    (matched : registrableSuffixMatch host D' = true) : registrableSuffixMatch host (D.image lowerCase) = true := by
  rw [registrableSuffixMatch_coe] at matched ⊢
  rw [Finset.coe_image]
  refine literal_underDomain.exists_lowered lower ?_ matched
  rw [← Finset.coe_image, respelled, Finset.coe_image]

theorem match_of_letterless (respelled : D.image lowerCase = D'.image lowerCase)
    (matched : registrableSuffixMatch host (D.filter Letterless) = true) : registrableSuffixMatch host D' = true := by
  rw [registrableSuffixMatch_coe] at matched ⊢
  rw [Finset.coe_filter] at matched
  refine exists_of_letterless ?_ matched
  rw [← Finset.coe_image, respelled, Finset.coe_image]

theorem match_capital (lower : lowerCase host = host) :
    registrableSuffixMatch host (D.image upperCase) = registrableSuffixMatch host (D.filter Letterless) := by
  rw [Bool.eq_iff_iff, registrableSuffixMatch_coe, registrableSuffixMatch_coe, Finset.coe_image, Finset.coe_filter]
  exact literal_underDomain.exists_capital lower

end

namespace ReputationPolicy
variable {t : TextTables} {p p' : ReputationPolicy} {n : DnsName} {host : String}

theorem lowTrustHost_iff : p.lowTrustHost host = true ↔ ∃ d ∈ {d | d ∈ p.lowTrust}, EndsWith d host := by
  simp only [lowTrustHost, List.any_eq_true, List.isSuffixOf_iff_suffix, Set.mem_ofPred_eq, EndsWith]

theorem image_lowTrust (f : String → String) : f '' {d | d ∈ p.lowTrust} = {d | d ∈ p.lowTrust.map f} := by
  ext d
  simp only [Set.mem_image, Set.mem_ofPred_eq, List.mem_map]

theorem Respelled.image_lowTrust (respelled : p.Respelled p') :
    lowerCase '' {d | d ∈ p.lowTrust} = lowerCase '' {d | d ∈ p'.lowTrust} := by
  rw [ReputationPolicy.image_lowTrust, ReputationPolicy.image_lowTrust, respelled.lowTrust]

theorem Respelled.lowTrustHost_lowered (respelled : p.Respelled p') (lower : lowerCase host = host)
    (warned : p'.lowTrustHost host = true) : p.lowered.lowTrustHost host = true := by
  rw [lowTrustHost_iff] at warned ⊢
  have found := literal_endsWith.exists_lowered lower respelled.image_lowTrust warned
  rwa [ReputationPolicy.image_lowTrust] at found

theorem Respelled.lowTrustHost_of_letterless (respelled : p.Respelled p')
    (warned : p.letterless.lowTrustHost host = true) : p'.lowTrustHost host = true := by
  rw [lowTrustHost_iff] at warned ⊢
  refine exists_of_letterless respelled.image_lowTrust ?_
  simpa only [letterless, List.mem_filter, decide_eq_true_eq, Set.mem_ofPred_eq] using warned

theorem lowTrustHost_capital (lower : lowerCase host = host) :
    p.capital.lowTrustHost host = p.letterless.lowTrustHost host := by
  have found := literal_endsWith.exists_capital (D := {d | d ∈ p.lowTrust}) lower
  rw [ReputationPolicy.image_lowTrust] at found
  rw [Bool.eq_iff_iff, lowTrustHost_iff, lowTrustHost_iff]
  refine found.trans ?_
  simp only [letterless, List.mem_filter, decide_eq_true_eq, Set.mem_ofPred_eq]

theorem Respelled.refuses_lowered (respelled : p.Respelled p') (lower : lowerCase host = host)
    (refused : p'.refuses t host = true) : p.lowered.refuses t host = true := by
  rw [refuses_iff] at refused ⊢
  rcases refused with hostless | ⟨guarded, inside⟩ | blocked | chained
  · exact Or.inl hostless
  · exact Or.inr (Or.inl ⟨respelled.allowPrivate.trans guarded, inside⟩)
  · exact Or.inr (Or.inr (Or.inl (match_lowered lower respelled.blocklist blocked)))
  · exact Or.inr (Or.inr (Or.inr (match_lowered lower respelled.shorteners chained)))

theorem Respelled.refuses_of_letterless (respelled : p.Respelled p')
    (refused : p.letterless.refuses t host = true) : p'.refuses t host = true := by
  rw [refuses_iff] at refused ⊢
  rcases refused with hostless | ⟨guarded, inside⟩ | blocked | chained
  · exact Or.inl hostless
  · exact Or.inr (Or.inl ⟨respelled.allowPrivate.symm.trans guarded, inside⟩)
  · exact Or.inr (Or.inr (Or.inl (match_of_letterless respelled.blocklist blocked)))
  · exact Or.inr (Or.inr (Or.inr (match_of_letterless respelled.shorteners chained)))

theorem refuses_capital (lower : lowerCase host = host) : p.capital.refuses t host = p.letterless.refuses t host := by
  simp only [refuses, capital, letterless, match_capital lower]

theorem respelled_refl (p : ReputationPolicy) : p.Respelled p :=
  ⟨rfl, rfl, rfl, rfl⟩

theorem respelled_lowered (p : ReputationPolicy) : p.Respelled p.lowered := by
  have idem : lowerCase ∘ lowerCase = lowerCase := funext fun _ => lowerCase_lowerCase
  refine ⟨?_, ?_, ?_, rfl⟩
  · rw [lowered, Finset.image_image, idem]
  · rw [lowered, Finset.image_image, idem]
  · rw [lowered, List.map_map, idem]

theorem respelled_capital (p : ReputationPolicy) : p.Respelled p.capital := by
  have idem : lowerCase ∘ upperCase = lowerCase := funext fun _ => lowerCase_upperCase
  refine ⟨?_, ?_, ?_, rfl⟩
  · rw [capital, Finset.image_image, idem]
  · rw [capital, Finset.image_image, idem]
  · rw [capital, List.map_map, idem]

end ReputationPolicy

namespace DnsName
variable {t : TextTables} {n : DnsName} {host : List Char} {form url : String}

theorem mem_text {c : Char} (member : c ∈ n.text) : plainChar c = true ∧ c.toLower = c := by
  rcases Labels.mem_intercalate member with rfl | ⟨label, listed, inside⟩
  · exact ⟨rfl, rfl⟩
  · exact (n.plain label listed c inside).2

theorem mem_form (given : form ∈ n.forms) {c : Char} (member : c ∈ form.toList) :
    plainChar c = true ∧ c.toLower = c := by
  simp only [forms, List.mem_cons, List.not_mem_nil, or_false] at given
  rcases given with rfl | rfl
  · rw [String.toList_ofList] at member
    exact mem_text member
  · rw [String.toList_ofList] at member
    rcases List.mem_append.mp member with inside | dot
    · exact mem_text inside
    · cases List.mem_singleton.mp dot
      exact ⟨rfl, rfl⟩

theorem lowerCase_form (given : form ∈ n.forms) : lowerCase form = form :=
  lowerCase_eq_iff.mpr fun _ member => (mem_form given member).2

/-- Every spelling of the name comes out as one of its two forms. -/
theorem hostOf_mem_forms (spelled : HostText t url host) (named : n.SpelledBy host) : hostOf t url ∈ n.forms := by
  have form : String.ofList (host.map Char.toLower) ∈ n.forms := by
    rcases named with same | same
    · rw [same]
      exact List.mem_cons_self
    · rw [same]
      exact List.mem_cons_of_mem _ List.mem_cons_self
  have ascii : IsAscii host := by
    intro c member
    refine toNat_lt_of_toLower (toNat_lt_of_plain (mem_form form ?_).1)
    rw [String.toList_ofList]
    exact List.mem_map_of_mem member
  rw [hostOf_eq spelled ascii]
  exact form

/-- Both forms are the host of some url. -/
theorem exists_url (t : TextTables) (given : form ∈ n.forms) :
    ∃ url host, httpUrl url = true ∧ HostText t url host ∧ n.SpelledBy host ∧ hostOf t url = form := by
  have found := hostText_of_plain t fun c member => (mem_form given member).1
  have lowered : form.toList.map Char.toLower = form.toList := by
    rw [← toList_lowerCase, lowerCase_form given]
  have ascii : IsAscii form.toList := fun c member => toNat_lt_of_plain (mem_form given member).1
  refine ⟨_, form.toList, ?_, found, ?_, ?_⟩
  · have letters : (String.ofList ("http://".toList ++ form.toList)).toList = "http://".toList ++ form.toList :=
      String.toList_ofList
    rw [httpUrl, letters]
    rfl
  · rw [SpelledBy, lowered]
    simp only [forms, List.mem_cons, List.not_mem_nil, or_false] at given
    rcases given with rfl | rfl
    · exact Or.inl String.toList_ofList
    · exact Or.inr String.toList_ofList
  · rw [hostOf_eq found ascii, lowered, String.ofList_toList]

end DnsName

namespace ReputationPolicy
variable {t : TextTables} {p : ReputationPolicy} {n : DnsName}

theorem spellingBlind_iff_forms : p.SpellingBlind t n ↔ ∀ p', p.Respelled p' → ∀ form ∈ n.forms, ∀ form' ∈ n.forms,
    (p.judge t form).action = (p'.judge t form').action := by
  constructor
  · intro blind p' respelled form given form' given'
    obtain ⟨url, host, http, spelled, named, rfl⟩ := DnsName.exists_url t given
    obtain ⟨url', host', http', spelled', named', rfl⟩ := DnsName.exists_url t given'
    exact blind p' respelled url url' host host' http http' spelled named spelled' named'
  · intro same p' respelled url url' host host' _ _ spelled named spelled' named'
    exact same p' respelled _ (DnsName.hostOf_mem_forms spelled named) _ (DnsName.hostOf_mem_forms spelled' named')

theorem Settled.action (settled : p.Settled t n) :
    ∃ action, ∀ p', p.Respelled p' → ∀ form ∈ n.forms, (p'.judge t form).action = action := by
  rcases settled with refused | ⟨passed, warned | clear⟩
  · refine ⟨.refuse, fun p' respelled form given => ?_⟩
    rw [judge_refuse]
    exact respelled.refuses_of_letterless (refused form given)
  · refine ⟨.interstitial, fun p' respelled form given => ?_⟩
    have lower := DnsName.lowerCase_form given
    have open' : ¬ p'.refuses t form = true := fun refused =>
      absurd (respelled.refuses_lowered lower refused) (Bool.eq_false_iff.mp (passed form given))
    rw [judge_action, if_neg open', if_pos (respelled.lowTrustHost_of_letterless (warned form given))]
  · refine ⟨.allow, fun p' respelled form given => ?_⟩
    have lower := DnsName.lowerCase_form given
    have open' : ¬ p'.refuses t form = true := fun refused =>
      absurd (respelled.refuses_lowered lower refused) (Bool.eq_false_iff.mp (passed form given))
    have trusted : ¬ p'.lowTrustHost form = true := fun warned =>
      absurd (respelled.lowTrustHost_lowered lower warned) (Bool.eq_false_iff.mp (clear form given))
    rw [judge_action, if_neg open', if_neg trusted]

theorem settled_of_action {action : Action}
    (same : ∀ p', p.Respelled p' → ∀ form ∈ n.forms, (p'.judge t form).action = action) : p.Settled t n := by
  have letterless {form : String} (given : form ∈ n.forms) :
      p.capital.refuses t form = p.letterless.refuses t form ∧
        p.capital.lowTrustHost form = p.letterless.lowTrustHost form :=
    ⟨refuses_capital (DnsName.lowerCase_form given), lowTrustHost_capital (DnsName.lowerCase_form given)⟩
  have passed {p' : ReputationPolicy} {form : String} (other : (p'.judge t form).action ≠ .refuse) :
      p'.refuses t form = false :=
    eq_false_of_ne_true fun refused => other (judge_refuse.mpr refused)
  have warned {p' : ReputationPolicy} {form : String} (open' : p'.refuses t form = false) :
      (p'.judge t form).action = if p'.lowTrustHost form then .interstitial else .allow := by
    rw [judge_action, if_neg (Bool.eq_false_iff.mp open')]
  cases action with
  | refuse =>
    refine Or.inl fun form given => ?_
    rw [← (letterless given).1, ← judge_refuse, same _ p.respelled_capital form given]
  | interstitial =>
    refine Or.inr ⟨fun form given => passed ?_, Or.inl fun form given => ?_⟩
    · rw [same _ p.respelled_lowered form given]
      decide
    · have action := same _ p.respelled_capital form given
      rw [warned (passed (by rw [action]; decide))] at action
      rw [← (letterless given).2]
      by_contra clear
      rw [if_neg clear] at action
      cases action
  | allow =>
    refine Or.inr ⟨fun form given => passed ?_, Or.inr fun form given => ?_⟩
    · rw [same _ p.respelled_lowered form given]
      decide
    · have action := same _ p.respelled_lowered form given
      rw [warned (passed (by rw [action]; decide))] at action
      refine eq_false_of_ne_true fun suspect => ?_
      rw [if_pos suspect] at action
      cases action

/-- The action is the same for all spellings of a name if the rules that decide
on it rest on no letter case and no dot of the root. -/
theorem spellingBlind_iff_settled (t : TextTables) (p : ReputationPolicy) (n : DnsName) :
    p.SpellingBlind t n ↔ p.Settled t n := by
  rw [spellingBlind_iff_forms]
  constructor
  · intro blind
    have first : String.ofList n.text ∈ n.forms := List.mem_cons_self
    have action (p' : ReputationPolicy) (respelled : p.Respelled p') (form : String) (given : form ∈ n.forms) :
        (p'.judge t form).action = (p.judge t (String.ofList n.text)).action :=
      (blind p' respelled _ first form given).symm
    exact settled_of_action action
  · intro settled p' respelled form given form' given'
    obtain ⟨action, same⟩ := settled.action
    rw [same p p.respelled_refl form given, same p' respelled form' given']

/-- The dot of the root gets a shortener past the defaults, and a listed domain
in capitals blocks nobody. -/
theorem spellings_tell_verdicts_apart :
    (({} : ReputationPolicy).evaluate .ascii "https://bit.ly/xyz").action = .refuse ∧
    (({} : ReputationPolicy).evaluate .ascii "https://bit.ly./xyz").action = .allow ∧
    (({ blocklist := {"evil.com"} } : ReputationPolicy).evaluate .ascii "http://evil.com/").action = .refuse ∧
    (({ blocklist := {"EVIL.com"} } : ReputationPolicy).evaluate .ascii "http://evil.com/").action = .allow ∧
    ¬ ∀ t p n, ReputationPolicy.SpellingBlind t p n := by
  have dotless : (({} : ReputationPolicy).evaluate .ascii "https://bit.ly/xyz").action = .refuse := by decide
  have dotted : (({} : ReputationPolicy).evaluate .ascii "https://bit.ly./xyz").action = .allow := by decide
  refine ⟨dotless, dotted, by decide, by decide, fun blind => ?_⟩
  have plain : (["bit".toList, "ly".toList].all fun label => label.all fun c =>
      c ≠ '.' ∧ plainChar c = true ∧ c.toLower = c) = true := by decide
  simp only [List.all_eq_true, decide_eq_true_eq] at plain
  let name : DnsName := ⟨["bit".toList, "ly".toList], by decide, by decide, plain⟩
  have same := blind .ascii {} name {} (respelled_refl {}) "https://bit.ly/xyz" "https://bit.ly./xyz"
    "bit.ly".toList "bit.ly.".toList (by decide) (by decide) ⟨"bit.ly".toList, by decide, by decide⟩ (Or.inl rfl)
    ⟨"bit.ly.".toList, by decide, by decide⟩ (Or.inr rfl)
  rw [dotless, dotted] at same
  cases same

end ReputationPolicy
end UrlShortener
