import UrlShortener.General.PathTemplates
import UrlShortener.Codes

namespace UrlShortener
open PathTemplates

inductive HttpMethod
  | get
  | post
  deriving DecidableEq

inductive Endpoint
  /-- What the framework serves by itself. -/
  | documentation
  | healthz
  | resetMetrics
  | flushCache
  | sandbox
  | metrics
  | createLink
  | resolve
  | takedown
  | abuseStats
  deriving DecidableEq

/-- The routes of `app` in the order of their definition, behind those that the
framework has for its documentation. -/
def routes (documentation : List String) : List (Route HttpMethod Endpoint) :=
  documentation.map (fun path => ⟨.get, [.literal path], .documentation⟩) ++
  [⟨.get, [.literal "/healthz"], .healthz⟩,
    ⟨.post, [.literal "/admin/reset-metrics"], .resetMetrics⟩,
    ⟨.post, [.literal "/admin/flush-cache"], .flushCache⟩,
    ⟨.get, [.literal "/"], .sandbox⟩,
    ⟨.get, [.literal "/metrics"], .metrics⟩,
    ⟨.post, [.literal "/links"], .createLink⟩,
    ⟨.get, [.literal "/", .parameter], .resolve⟩,
    ⟨.post, [.literal "/admin/takedown/", .parameter], .takedown⟩,
    ⟨.get, [.literal "/admin/abuse"], .abuseStats⟩]

/-- The paths of one segment that are taken before `resolve` comes. -/
def reserved (documentation : List String) : List String :=
  documentation ++ ["/healthz", "/metrics"]

section
variable {documentation : List String} {code path : String} {endpoint : Endpoint}

theorem takes_get : (⟨.get, [.literal path], endpoint⟩ : Route HttpMethod Endpoint).takes .get code = true ↔
    code = path := by
  rw [takes_iff, matches_literal, String.toList_inj]
  exact and_iff_right rfl

theorem passes_get (different : code ≠ path) :
    (⟨.get, [.literal path], endpoint⟩ : Route HttpMethod Endpoint).takes .get code = false :=
  Bool.eq_false_iff.mpr fun takes => different (takes_get.mp takes)

theorem passes_post {template : List Part} :
    (⟨.post, template, endpoint⟩ : Route HttpMethod Endpoint).takes .get path = false := rfl

theorem takes_resolve (segment : OneSegment code) :
    (⟨.get, [.literal "/", .parameter], .resolve⟩ : Route HttpMethod Endpoint).takes .get ("/" ++ code) = true := by
  exact takes_iff.mpr ⟨rfl, matches_last.mpr ⟨code.toList, String.toList_append, segment⟩⟩

/-- A code comes to `resolve` unless its path is reserved. -/
theorem dispatch_iff (segment : OneSegment code) :
    dispatch (routes documentation) .get ("/" ++ code) = some .resolve ↔ "/" ++ code ∉ reserved documentation := by
  induction documentation with
  | nil =>
    have notRoot : "/" ++ code ≠ "/" := by
      intro same
      have chars := congrArg String.toList same
      rw [String.toList_append] at chars
      exact segment.1 (List.append_cancel_left (chars.trans (List.append_nil _).symm))
    rw [routes, List.map_nil, List.nil_append]
    by_cases healthz : "/" ++ code = "/healthz"
    · rw [dispatch_taken (takes_get.mpr healthz)]
      simp [reserved, healthz]
    rw [dispatch_passed (passes_get healthz), dispatch_passed passes_post, dispatch_passed passes_post,
      dispatch_passed (passes_get notRoot)]
    by_cases metrics : "/" ++ code = "/metrics"
    · rw [dispatch_taken (takes_get.mpr metrics)]
      simp [reserved, metrics]
    · rw [dispatch_passed (passes_get metrics), dispatch_passed passes_post, dispatch_taken (takes_resolve segment)]
      simp [reserved, healthz, metrics]
  | cons path rest ih =>
    rw [routes, List.map_cons, List.cons_append]
    by_cases here : "/" ++ code = path
    · rw [dispatch_taken (takes_get.mpr here)]
      simp [reserved, here]
    · rw [dispatch_passed (passes_get here), ← routes, ih]
      simp [reserved, here]

end

inductive CreateResponse
  | created (code target : String) (expiresMs : Option Int) (interstitial : Bool) (reason : String)
  | refused (reason host : String)
  /-- A RuntimeError, with what it says. -/
  | failed (detail : String)
  /-- Any other error. -/
  | serverError
  deriving DecidableEq

/-- `allocate` on the code generator of `app`, with `tried` draws behind it. -/
def CodeGenerator.allocate (allocator : CodeAllocator) (links : LinkStore) (target : String)
    (ttlSeconds : Option Int) (clock : Nat → Int) (tried : Nat) :
    Nat → CodeGenerator → Chance → Option (Except CodeError (Link × LinkStore) × CodeGenerator × Chance)
  | 0, g, now => some (.error (.runtimeError allocator.exhausted), g, now)
  | left + 1, g, now => (g.nextCode now).bind fun
    | (.error error, g, now) => some (.error error, g, now)
    | (.ok code, g, now) => match links.create code target ttlSeconds none (clock tried) with
      | some stored => some (.ok stored, g, now)
      | none => allocate allocator links target ttlSeconds clock (tried + 1) left g now

/-- What `create_link` reads and writes. -/
structure LinkCreator where
  links : LinkStore
  generator : CodeGenerator
  interstitials : String → Option String := fun _ => none

/-- `create_link` past its limiter. -/
def LinkCreator.createLink (evaluate : String → Verdict) (allocator : CodeAllocator) (s : LinkCreator)
    (target : String) (ttlSeconds : Option Int) (clock : Nat → Int) (now : Chance) :
    Option (CreateResponse × LinkCreator × Chance) :=
  let verdict := evaluate target
  if verdict.action = .refuse then some (.refused verdict.reason verdict.host, s, now)
  else (s.generator.allocate allocator s.links target ttlSeconds clock 0 allocator.maxAttempts now).map
    fun (result, g, now) => match result with
      | .ok (link, links) =>
        let flagged := decide (verdict.action = .interstitial)
        (.created link.code link.target link.expiresMs flagged verdict.reason,
          { links := links
            generator := g
            interstitials := if flagged then Function.update s.interstitials link.code (some verdict.reason)
              else s.interstitials }, now)
      | .error (.runtimeError detail) => (.failed detail, { s with generator := g }, now)
      | .error _ => (.serverError, { s with generator := g }, now)

/-- From one place of a generator to another by draws that make codes. -/
inductive Drawn : CodeGenerator → Chance → CodeGenerator → Chance → Prop
  | here {g now} : Drawn g now g now
  | next {g now code h between i later} : g.nextCode now = some (.ok code, h, between) → Drawn h between i later →
      Drawn g now i later

section
variable {links links' : LinkStore} {allocator : CodeAllocator} {target : String} {ttlSeconds : Option Int}
  {clock : Nat → Int} {tried left : Nat} {g h : CodeGenerator} {now later : Chance} {link : Link}

/-- An allocated code is the last one drawn, and its row is in the store. -/
theorem CodeGenerator.allocate_ok
    (allocated : CodeGenerator.allocate allocator links target ttlSeconds clock tried left g now =
      some (.ok (link, links'), h, later)) :
    ∃ i between, Drawn g now i between ∧ i.nextCode between = some (.ok link.code, h, later) ∧
      links'.get link.code = some link ∧ link.target = target := by
  induction left generalizing tried g now with
  | zero => cases allocated
  | succ left ih =>
    obtain ⟨⟨answer, g', now'⟩, drawn, rest⟩ := Option.bind_eq_some_iff.mp allocated
    cases answer with
    | error error => cases rest
    | ok code =>
      dsimp only at rest
      split at rest
      · rename_i stored created
        cases rest
        obtain ⟨_, rfl, same, rfl⟩ := LinkStore.create_cases created
        exact ⟨g, now, .here, drawn, links.get_insert_self link, same⟩
      · obtain ⟨i, between, draws, last, row⟩ := ih rest
        exact ⟨i, between, .next drawn draws, last, row⟩

variable {evaluate : String → Verdict} {s s' : LinkCreator} {code sent reason : String}
  {expiresMs : Option Int} {flagged : Bool}

/-- A code that a create returns is dispatched to `resolve` exactly if the draw
it came from does not spell a reserved path. -/
theorem issued_code_resolves_iff (documentation : List String)
    (issued : s.createLink evaluate allocator target ttlSeconds clock now =
      some (.created code sent expiresMs flagged reason, s', later)) :
    (s'.links.get code).map Link.target = some target ∧
    ∃ g between, Drawn s.generator now g between ∧ g.nextCode between = some (.ok code, s'.generator, later) ∧
      (dispatch (routes documentation) .get ("/" ++ code) = some .resolve ↔
        ∀ word, "/" ++ word ∈ reserved documentation → ¬ g.Spells between word) := by
  rw [LinkCreator.createLink] at issued
  dsimp only at issued
  split at issued
  · cases issued
  · obtain ⟨⟨result, g', now'⟩, allocated, same⟩ := Option.map_eq_some_iff.mp issued
    rcases result with error | ⟨link, links'⟩
    · cases error with
      | runtimeError detail => cases same
      | valueError detail => cases same
      | invalidCharacter ch => cases same
    · cases same
      obtain ⟨g, between, draws, last, row, own⟩ := CodeGenerator.allocate_ok allocated
      refine ⟨by rw [row, Option.map_some, own], g, between, draws, last, ?_⟩
      rw [dispatch_iff (CodeGenerator.nextCode_oneSegment last)]
      constructor
      · intro free word taken spelled
        rw [← (CodeGenerator.spells_iff last).mp spelled] at taken
        exact free taken
      · intro free taken
        exact free link.code taken ((CodeGenerator.spells_iff last).mpr rfl)

end

def lenient (_ : String) : Verdict :=
  ⟨.allow, "ok", ""⟩

/-- Codes of two letters, of which one is given away. -/
def shortCodes : LinkCreator :=
  ⟨LinkStore.empty.insert ⟨"AB", "https://example.org", 1000, none⟩, .random { length := 2 }, fun _ => none⟩

/-- The first of two draws is taken. -/
theorem issued_code_second_draw :
    ∃ g between, Drawn (.random { length := 2 }) { choices := [10, 11, 10, 12] } g between ∧
      g.nextCode between = some (.ok "AC", .random { length := 2 }, {}) ∧
      (dispatch (routes ["/docs", "/redoc"]) .get ("/" ++ "AC") = some .resolve ↔
        ∀ word, "/" ++ word ∈ reserved ["/docs", "/redoc"] → ¬ g.Spells between word) := by
  have issued : ∃ s', shortCodes.createLink lenient {} "https://example.com" none (fun _ => 1000)
        { choices := [10, 11, 10, 12] } =
      some (.created "AC" "https://example.com" none false "ok", s', {}) ∧ s'.generator = .random { length := 2 } :=
    ⟨_, rfl, rfl⟩
  obtain ⟨s', issued, generator⟩ := issued
  have last := (issued_code_resolves_iff ["/docs", "/redoc"] issued).2
  rw [generator] at last
  exact last

/-- The letters of "healthz" as the rng chooses them. -/
def unlucky : Chance where
  choices := [43, 40, 36, 47, 55, 43, 61]

/-- The paths that the framework documents `app` under. -/
def documentationPaths : List String :=
  ["/openapi.json", "/docs", "/docs/oauth2-redirect", "/redoc"]

/-- The default generator issues a code that is answered by `healthz`. -/
theorem issued_code_is_healthz :
    (LinkCreator.createLink lenient {} ⟨.empty, .random {}, fun _ => none⟩ "https://example.com" none
        (fun _ => 1000) unlucky).map Prod.fst =
      some (.created "healthz" "https://example.com" none false "ok") ∧
    dispatch (routes documentationPaths) .get ("/" ++ "healthz") = some .healthz := by
  refine ⟨?_, ?_⟩
  · decide +kernel
  · decide +kernel

end UrlShortener
