import Mathlib.Logic.Function.Basic
import Mathlib.Data.List.Basic
import UrlShortener.Invalidation
import UrlShortener.General.Windows
import UrlShortener.General.Run

namespace UrlShortener
namespace InvalidationBus
open Transition Windows

/-- The cursor `register` sets. -/
def register (fromSeq : Option Nat) : Nat :=
  fromSeq.getD 0

theorem head_snoc (log : List Invalidation) (row : Invalidation) :
    head (log ++ [row]) = max (head log) row.seq :=
  List.foldl_append ..

theorem le_head {log : List Invalidation} {row : Invalidation} (member : row ∈ log) : row.seq ≤ head log := by
  induction log using List.reverseRecOn with
  | nil => cases member
  | append_singleton earlier last ih =>
    rw [head_snoc]
    rcases List.mem_append.mp member with before | here
    · have bound := ih before
      omega
    · rw [List.mem_singleton.mp here]
      omega

theorem ordered_snoc {log : List Invalidation} {row : Invalidation} (ordered : log.Pairwise (·.seq < ·.seq))
    (next : row.seq = head log + 1) : (log ++ [row]).Pairwise (·.seq < ·.seq) := by
  refine List.pairwise_append.mpr ⟨ordered, List.pairwise_singleton .., fun earlier member new isNew => ?_⟩
  have bound := le_head member
  rw [List.mem_singleton.mp isNew]
  omega

/-- The row whose code the next step of a poll applies. -/
def Poll.due : Poll → List Invalidation
  | .applying _ (row :: _) => [row]
  | _ => []

/-- The log after some publications, by whatever instances. -/
def published (events : List (String × String)) : List Invalidation :=
  events.foldl (fun log (code, reason) => (publish log code reason).2) []

/-- A registered instance and the log it subscribes to. `applied` lists the
rows whose codes it has applied, in that order. -/
structure Subscriber (σ : Type) where
  log : List Invalidation
  cursor : Nat
  state : σ
  poll : Nat → Option Poll
  applied : List Invalidation

inductive Event
  | publish (code reason : String)
  | poll (id : Nat)
  | step (id : Nat)
  /-- A statement of `poll`, or the function it applies, raises. -/
  | fail (id : Nat)
  deriving DecidableEq

namespace Subscriber
variable {σ : Type}

/-- An instance that has just registered, before its first poll. -/
def start (events : List (String × String)) (fromSeq : Option Nat) (state : σ) : Subscriber σ :=
  ⟨published events, register fromSeq, state, fun _ => none, []⟩

def perform (apply : String → σ → σ) (s : Subscriber σ) : Event → Option (Subscriber σ)
  | .publish code reason => some { s with log := (publish s.log code reason).2 }
  | .poll id =>
    match s.poll id with
    | none => some { s with poll := Function.update s.poll id (some .starting) }
    | some _ => none
  | .step id => (s.poll id).bind fun poll =>
    (poll.advance apply s.log s.state s.cursor).map fun (state, cursor, poll') =>
      { s with
        cursor := cursor
        state := state
        poll := Function.update s.poll id (some poll')
        applied := s.applied ++ poll.due }
  | .fail id => (s.poll id).bind fun poll =>
    if poll.done then none else some { s with poll := Function.update s.poll id (some .raised) }

def Step (apply : String → σ → σ) (s : Subscriber σ) (event : Event) (s' : Subscriber σ) : Prop :=
  s.perform apply event = some s'

/-- The polls of the instance do not overlap, and applying a code never raises. -/
def Orderly (s : Subscriber σ) : Event → Prop
  | .poll _ => ∀ id poll, s.poll id = some poll → poll.done = true
  | .fail id => ∀ rows rest, s.poll id ≠ some (.applying rows rest)
  | _ => True

def OrderlyStep (apply : String → σ → σ) (s : Subscriber σ) (event : Event) (s' : Subscriber σ) : Prop :=
  s.Step apply event s' ∧ s.Orderly event

/-- The steps one by one. -/
inductive Move (apply : String → σ → σ) (s : Subscriber σ) : Event → Subscriber σ → Prop
  | published (code reason : String) :
      Move apply s (.publish code reason) { s with log := s.log ++ [⟨head s.log + 1, code, reason⟩] }
  | begun {id} : s.poll id = none →
      Move apply s (.poll id) { s with poll := Function.update s.poll id (some .starting) }
  | started {id} : s.poll id = some .starting →
      Move apply s (.step id) { s with poll := Function.update s.poll id (some (.selecting s.cursor)) }
  | caughtUp {id known} : s.poll id = some (.selecting known) →
      Move apply s (.step id) { s with poll := Function.update s.poll id (some (.finished 0)) }
  | selected {id known rows} : s.poll id = some (.selecting known) →
      rows = s.log.filter (fun row => known < row.seq) → rows ≠ [] →
      Move apply s (.step id) { s with poll := Function.update s.poll id (some (.applying rows rows)) }
  | applied {id rows row rest} : s.poll id = some (.applying rows (row :: rest)) →
      Move apply s (.step id) { s with
        state := apply row.code s.state
        poll := Function.update s.poll id (some (.applying rows rest))
        applied := s.applied ++ [row] }
  | finished {id rows} : s.poll id = some (.applying rows []) →
      Move apply s (.step id) { s with
        cursor := (rows.getLast?.map Invalidation.seq).getD s.cursor
        poll := Function.update s.poll id (some (.finished rows.length)) }
  | raised {id poll} : s.poll id = some poll → poll.done = false →
      Move apply s (.fail id) { s with poll := Function.update s.poll id (some .raised) }

variable {apply : String → σ → σ} {s s' : Subscriber σ} {event : Event}

theorem Step.move (taken : s.Step apply event s') : s.Move apply event s' := by
  cases event with
  | publish code reason =>
    cases taken
    exact .published code reason
  | poll id =>
    simp only [Step, perform] at taken
    split at taken
    · rename_i free
      cases taken
      exact .begun free
    · cases taken
  | step id =>
    obtain ⟨progress, running, taken⟩ := Option.bind_eq_some_iff.mp taken
    cases progress with
    | starting =>
      cases taken
      simpa only [Poll.due, List.append_nil] using Move.started running
    | selecting known =>
      by_cases nothing : (s.log.filter fun row => known < row.seq) = []
      · simp only [Poll.advance, nothing, if_true, Option.map_some] at taken
        cases taken
        simpa only [Poll.due, List.append_nil] using Move.caughtUp running
      · simp only [Poll.advance, nothing, if_false, Option.map_some] at taken
        cases taken
        simpa only [Poll.due, List.append_nil] using Move.selected running rfl nothing
    | applying rows rest =>
      cases rest with
      | nil =>
        cases taken
        simpa only [Poll.due, List.append_nil] using Move.finished running
      | cons row rest =>
        cases taken
        exact .applied running
    | finished count => cases taken
    | raised => cases taken
  | fail id =>
    obtain ⟨progress, running, taken⟩ := Option.bind_eq_some_iff.mp taken
    obtain ⟨busy, same⟩ := Option.ite_none_left_eq_some.mp taken
    cases same
    exact .raised running (eq_false_of_ne_true busy)

/-- Every row after `start` and up to `seq` has been applied, also those still
to be published. -/
structure Reached (s : Subscriber σ) (start seq : Nat) : Prop where
  bounded : seq ≤ max start (head s.log)
  applied : ∀ row ∈ s.log, start < row.seq → row.seq ≤ seq → row ∈ s.applied

/-- What a poll knows to be applied. -/
def Knows (s : Subscriber σ) (start : Nat) : Poll → Prop
  | .selecting known => s.Reached start known
  | .applying rows rest => ∃ last, rows.getLast? = some last ∧ last.seq ≤ head s.log ∧
      ∀ row ∈ s.log, start < row.seq → row.seq ≤ last.seq → row ∈ s.applied ∨ row ∈ rest
  | _ => True

/-- Nothing between the registration at `start` and the cursor has been missed. -/
structure Delivered (s : Subscriber σ) (start : Nat) : Prop where
  cursor : s.Reached start s.cursor
  polls : ∀ {id poll}, s.poll id = some poll → s.Knows start poll

section
variable {start seq id : Nat} {poll : Poll}

theorem Reached.publish (reached : s.Reached start seq) (row : Invalidation) (next : row.seq = head s.log + 1) :
    ({ s with log := s.log ++ [row] } : Subscriber σ).Reached start seq := by
  have bounded := reached.bounded
  refine ⟨?_, fun other member after covered => ?_⟩
  · rw [head_snoc]
    omega
  · rcases List.mem_append.mp member with before | new
    · exact reached.applied other before after covered
    · rw [List.mem_singleton.mp new] at after covered
      omega

theorem Reached.grow (reached : s.Reached start seq) (log : s'.log = s.log)
    (applied : ∀ row ∈ s.applied, row ∈ s'.applied) : s'.Reached start seq where
  bounded := by rw [log]; exact reached.bounded
  applied row member after covered := applied row (reached.applied row (log ▸ member) after covered)

theorem Knows.publish (knows : s.Knows start poll) (row : Invalidation) (next : row.seq = head s.log + 1) :
    ({ s with log := s.log ++ [row] } : Subscriber σ).Knows start poll := by
  cases poll with
  | selecting known => exact Reached.publish knows row next
  | applying rows rest =>
    obtain ⟨last, isLast, bounded, covered⟩ := knows
    refine ⟨last, isLast, ?_, fun other member after below => ?_⟩
    · rw [head_snoc]
      omega
    · rcases List.mem_append.mp member with before | new
      · exact covered other before after below
      · rw [List.mem_singleton.mp new] at below
        omega
  | _ => trivial

theorem Knows.grow (knows : s.Knows start poll) (log : s'.log = s.log)
    (applied : ∀ row ∈ s.applied, row ∈ s'.applied) : s'.Knows start poll := by
  cases poll with
  | selecting known => exact Reached.grow knows log applied
  | applying rows rest =>
    obtain ⟨last, isLast, bounded, covered⟩ := knows
    refine ⟨last, isLast, log ▸ bounded, fun row member after below => ?_⟩
    exact (covered row (log ▸ member) after below).imp_left (applied row)
  | _ => trivial

/-- A poll moves on, perhaps with a new cursor. -/
theorem Delivered.move (delivered : s.Delivered start) (log : s'.log = s.log)
    (applied : ∀ row ∈ s.applied, row ∈ s'.applied) (polls : s'.poll = Function.update s.poll id (some poll))
    (knows : s'.Knows start poll) (cursor : s'.Reached start s'.cursor) : s'.Delivered start := by
  refine ⟨cursor, fun {other progress} running => ?_⟩
  rw [polls] at running
  by_cases own : other = id
  · rw [own, Function.update_self] at running
    cases running
    exact knows
  · rw [Function.update_of_ne own] at running
    exact (delivered.polls running).grow log applied

theorem Delivered.step (delivered : s.Delivered start) (taken : s.Step apply event s') : s'.Delivered start := by
  have reached := delivered.cursor
  have same : ∀ row ∈ s.applied, row ∈ s.applied := fun _ member => member
  cases taken.move with
  | published code reason =>
    exact ⟨reached.publish _ rfl, fun running => (delivered.polls running).publish _ rfl⟩
  | begun free => exact delivered.move rfl same rfl trivial (reached.grow rfl same)
  | started running => exact delivered.move rfl same rfl (reached.grow rfl same) (reached.grow rfl same)
  | caughtUp running => exact delivered.move rfl same rfl trivial (reached.grow rfl same)
  | @selected id known rows running chosen nonempty =>
    have knows : s.Reached start known := delivered.polls running
    obtain ⟨last, isLast⟩ : ∃ last, rows.getLast? = some last := ⟨_, List.getLast?_eq_some_getLast nonempty⟩
    have member : last ∈ s.log := by
      have inRows := List.mem_of_getLast? isLast
      rw [chosen] at inRows
      exact (List.mem_filter.mp inRows).1
    refine delivered.move rfl same rfl ?_ (reached.grow rfl same)
    refine ⟨last, isLast, le_head member, fun row inLog after below => ?_⟩
    by_cases old : row.seq ≤ known
    · exact Or.inl (knows.applied row inLog after old)
    · refine Or.inr ?_
      rw [chosen]
      exact List.mem_filter.mpr ⟨inLog, decide_eq_true (Nat.lt_of_not_le old)⟩
  | @applied id rows row rest running =>
    have kept : ∀ other ∈ s.applied, other ∈ s.applied ++ [row] := fun _ member => List.mem_append_left _ member
    obtain ⟨last, isLast, bounded, covered⟩ := delivered.polls running
    refine delivered.move rfl kept rfl ?_ (reached.grow rfl kept)
    refine ⟨last, isLast, bounded, fun other member after below => ?_⟩
    rcases covered other member after below with done | due
    · exact Or.inl (kept other done)
    · rcases List.mem_cons.mp due with rfl | later
      · exact Or.inl (List.mem_append_right _ (List.mem_singleton_self other))
      · exact Or.inr later
  | @finished id rows running =>
    obtain ⟨last, isLast, bounded, covered⟩ := delivered.polls running
    refine delivered.move rfl same rfl trivial ?_
    rw [isLast, Option.map_some, Option.getD_some]
    refine ⟨Nat.le_trans bounded (Nat.le_max_right ..), fun row member after below => ?_⟩
    exact (covered row member after below).resolve_right List.not_mem_nil
  | raised running busy => exact delivered.move rfl same rfl trivial (reached.grow rfl same)

theorem delivered_of_run {trace : List Event} {events : List (String × String)} {fromSeq : Option Nat} {state : σ}
    (run : Run (Step apply) (Subscriber.start events fromSeq state) trace s) : s.Delivered (register fromSeq) := by
  induction run with
  | start =>
    refine ⟨⟨Nat.le_max_left .., fun row _ after upTo => ?_⟩, fun running => ?_⟩
    · exact absurd (Nat.lt_of_lt_of_le after upTo) (Nat.lt_irrefl _)
    · cases running
  | next _ taken ih => exact ih.step taken

theorem published_ordered (events : List (String × String)) :
    (published events).Pairwise (·.seq < ·.seq) := by
  induction events using List.reverseRecOn with
  | nil => exact .nil
  | append_singleton earlier event ih =>
    rw [published, List.foldl_append]
    exact ordered_snoc ih rfl

/-- Where the poll that is under way stands, after it has applied `ahead`. -/
def Stands (s : Subscriber σ) (ahead : List Invalidation) : Poll → Prop
  | .starting => ahead = []
  | .selecting known => known = s.cursor ∧ ahead = []
  | .applying rows rest => rows = ahead ++ rest ∧ ∃ last, rows.getLast? = some last ∧ last.seq ≤ head s.log ∧
      s.cursor ≤ last.seq ∧ rows = window Invalidation.seq s.cursor last.seq s.log
  | _ => True

/-- What has been applied is the log from the registration to the cursor, and
`ahead` after it. -/
structure Exact (s : Subscriber σ) (start : Nat) (ahead : List Invalidation) : Prop where
  ordered : s.log.Pairwise (·.seq < ·.seq)
  after : start ≤ s.cursor
  bounded : s.cursor ≤ max start (head s.log)
  applied : s.applied = window Invalidation.seq start s.cursor s.log ++ ahead
  idle : (∀ id poll, s.poll id = some poll → poll.done = true) → ahead = []
  alone : ∀ {id id' poll poll'}, s.poll id = some poll → s.poll id' = some poll' →
    poll.done = false → poll'.done = false → id = id'
  stands : ∀ {id poll}, s.poll id = some poll → s.Stands ahead poll

theorem Stands.of_done {ahead : List Invalidation} (done : poll.done = true) : s.Stands ahead poll := by
  cases poll with
  | finished count => trivial
  | raised => trivial
  | _ => cases done

/-- The poll under way moves on. -/
theorem Exact.turn {ahead ahead' : List Invalidation} {poll' : Poll} (exact : s.Exact start ahead)
    (running : s.poll id = some poll) (busy : poll.done = false) (log : s'.log = s.log)
    (polls : s'.poll = Function.update s.poll id (some poll')) (after : start ≤ s'.cursor)
    (bounded : s'.cursor ≤ max start (head s.log))
    (applied : s'.applied = window Invalidation.seq start s'.cursor s.log ++ ahead')
    (idle : poll'.done = true → ahead' = []) (stands : s'.Stands ahead' poll') : s'.Exact start ahead' := by
  have own : s'.poll id = some poll' := by rw [polls, Function.update_self]
  have other {id' : Nat} {progress : Poll} (different : id' ≠ id) (known : s'.poll id' = some progress) :
      progress.done = true := by
    rw [polls, Function.update_of_ne different] at known
    by_contra still
    exact different (exact.alone known running (eq_false_of_ne_true still) busy)
  refine ⟨log ▸ exact.ordered, after, log ▸ bounded, log ▸ applied, fun quiet => idle (quiet id poll' own), ?_, ?_⟩
  · intro a b p q known known' still still'
    have first : a = id := by
      by_contra different
      rw [other different known] at still
      cases still
    have second : b = id := by
      by_contra different
      rw [other different known'] at still'
      cases still'
    rw [first, second]
  · intro a p known
    by_cases here : a = id
    · subst here
      cases own.symm.trans known
      exact stands
    · exact .of_done (other here known)

theorem Exact.publish {ahead : List Invalidation} (exact : s.Exact start ahead) (row : Invalidation)
    (next : row.seq = head s.log + 1) : ({ s with log := s.log ++ [row] } : Subscriber σ).Exact start ahead := by
  obtain ⟨ordered, after, bounded, applied, idle, alone, stands⟩ := exact
  refine ⟨ordered_snoc ordered next, after, ?_, ?_, idle, alone, fun {id poll} running => ?_⟩
  · show s.cursor ≤ max start (head (s.log ++ [row]))
    rw [head_snoc]
    omega
  · have outside : s.cursor < row.seq ∨ row.seq ≤ start := by omega
    rw [window_snoc outside, applied]
  · have before := stands running
    cases poll with
    | applying rows rest =>
      obtain ⟨whole, last, isLast, upTo, below, rest⟩ := before
      have outside : last.seq < row.seq ∨ row.seq ≤ s.cursor := by omega
      refine ⟨whole, last, isLast, ?_, below, ?_⟩
      · rw [head_snoc]
        omega
      · rw [window_snoc outside, rest]
    | _ => exact before

/-- A poll that begins while no other one is under way. -/
theorem Exact.begin {ahead : List Invalidation} (exact : s.Exact start ahead)
    (quiet : ∀ id poll, s.poll id = some poll → poll.done = true) (id : Nat) :
    ({ s with poll := Function.update s.poll id (some .starting) } : Subscriber σ).Exact start ahead := by
  have nothing := exact.idle quiet
  have own {a : Nat} {p : Poll} (known : Function.update s.poll id (some Poll.starting) a = some p)
      (busy : p.done = false) : a = id := by
    by_contra different
    rw [Function.update_of_ne different] at known
    rw [quiet a p known] at busy
    cases busy
  refine ⟨exact.ordered, exact.after, exact.bounded, exact.applied, fun _ => nothing, ?_, ?_⟩
  · intro a b p q known known' busy busy'
    rw [own known busy, own known' busy']
  · intro a p known
    by_cases here : a = id
    · subst here
      cases (Function.update_self ..).symm.trans known
      exact nothing
    · exact .of_done (quiet a p ((Function.update_of_ne here ..).symm.trans known))

theorem Exact.step {ahead : List Invalidation} (exact : s.Exact start ahead)
    (taken : s.OrderlyStep apply event s') : ∃ ahead', s'.Exact start ahead' := by
  obtain ⟨taken, orderly⟩ := taken
  cases taken.move with
  | published code reason => exact ⟨ahead, exact.publish _ rfl⟩
  | @begun id free => exact ⟨ahead, exact.begin orderly id⟩
  | started running =>
    have nothing : ahead = [] := exact.stands running
    exact ⟨ahead, exact.turn running rfl rfl rfl exact.after exact.bounded exact.applied (fun _ => nothing)
      ⟨rfl, nothing⟩⟩
  | caughtUp running =>
    have nothing : ahead = [] := (exact.stands running).2
    exact ⟨ahead, exact.turn running rfl rfl rfl exact.after exact.bounded exact.applied (fun _ => nothing) trivial⟩
  | @selected id known rows running chosen nonempty =>
    obtain ⟨rfl, rfl⟩ : known = s.cursor ∧ ahead = [] := exact.stands running
    obtain ⟨last, isLast⟩ : ∃ last, rows.getLast? = some last := ⟨_, List.getLast?_eq_some_getLast nonempty⟩
    have inRows := List.mem_of_getLast? isLast
    rw [chosen] at inRows isLast
    obtain ⟨member, later⟩ := List.mem_filter.mp inRows
    have beyond : s.cursor < last.seq := of_decide_eq_true later
    refine ⟨[], exact.turn running rfl rfl rfl exact.after exact.bounded exact.applied (fun _ => rfl) ?_⟩
    refine ⟨rfl, last, ?_, le_head member, Nat.le_of_lt beyond, ?_⟩
    · rw [chosen, isLast]
    · rw [chosen, filter_eq_window exact.ordered isLast]
  | @applied id rows row rest running =>
    obtain ⟨whole, last, isLast, upTo, below, rows_eq⟩ := exact.stands running
    refine ⟨ahead ++ [row], exact.turn running rfl rfl rfl exact.after exact.bounded ?_ (fun done => by cases done)
      ⟨?_, last, isLast, upTo, below, rows_eq⟩⟩
    · rw [exact.applied, List.append_assoc]
    · rw [whole, List.append_assoc, List.singleton_append]
  | @finished id rows running =>
    obtain ⟨whole, last, isLast, upTo, below, rows_eq⟩ := exact.stands running
    have after := exact.after
    have moved : (rows.getLast?.map Invalidation.seq).getD s.cursor = last.seq := by
      rw [isLast, Option.map_some, Option.getD_some]
    refine ⟨[], exact.turn running rfl rfl rfl ?_ ?_ ?_ (fun _ => rfl) trivial⟩
    · exact moved.symm ▸ Nat.le_trans after below
    · exact moved.symm ▸ Nat.le_trans upTo (Nat.le_max_right ..)
    · have done : ahead = window Invalidation.seq s.cursor last.seq s.log := by
        rw [← rows_eq, whole, List.append_nil]
      rw [moved, exact.applied, done, List.append_nil, ← window_append exact.ordered after below]
  | @raised id poll running busy =>
    have nothing : ahead = [] := by
      have stands := exact.stands running
      cases poll with
      | starting => exact stands
      | selecting known => exact stands.2
      | applying rows rest => exact absurd running (orderly rows rest)
      | finished count => cases busy
      | raised => cases busy
    exact ⟨ahead, exact.turn running busy rfl rfl exact.after exact.bounded exact.applied (fun _ => nothing) trivial⟩

end

section
variable {trace : List Event} {events : List (String × String)} {fromSeq : Option Nat} {state : σ}

theorem exact_of_run (run : Run (OrderlyStep apply) (start events fromSeq state) trace s) :
    ∃ ahead, s.Exact (register fromSeq) ahead := by
  induction run with
  | start =>
    refine ⟨[], published_ordered events, Nat.le_refl _, Nat.le_max_left .., ?_, fun _ => rfl, ?_, ?_⟩
    · rw [List.append_nil]
      exact (window_self ..).symm
    · intro a b p q known
      cases known
    · intro a p known
      cases known
  | next _ taken ih =>
    obtain ⟨ahead, exact⟩ := ih
    exact exact.step taken

/-- The state of the subscriber comes from the codes it has applied. -/
theorem state_of_run (run : Run (Step apply) (start events fromSeq state) trace s) :
    s.state = (s.applied.map Invalidation.code).foldl (fun state code => apply code state) state := by
  induction run with
  | start => rfl
  | next _ taken ih =>
    cases taken.move with
    | applied running =>
      rw [List.map_append, List.foldl_append, ← ih]
      rfl
    | _ => exact ih

theorem Exact.ahead_prefix {first : Nat} {ahead : List Invalidation} (exact : s.Exact first ahead) :
    ahead <+: s.log.filter fun row => s.cursor < row.seq := by
  by_cases quiet : ∀ id poll, s.poll id = some poll → poll.done = true
  · rw [exact.idle quiet]
    exact List.nil_prefix
  · push Not at quiet
    obtain ⟨id, poll, running, busy⟩ := quiet
    have stands := exact.stands running
    cases poll with
    | starting =>
      rw [show ahead = [] from stands]
      exact List.nil_prefix
    | selecting known =>
      rw [stands.2]
      exact List.nil_prefix
    | applying rows rest =>
      obtain ⟨whole, last, _, _, _, rows_eq⟩ := stands
      have start : ahead <+: rows := ⟨rest, whole.symm⟩
      exact start.trans (rows_eq ▸ window_prefix exact.ordered s.cursor last.seq)
    | finished count => exact absurd rfl busy
    | raised => exact absurd rfl busy

/-- Every event between the registration and the cursor has been applied,
however polls overlap and fail. Where they do neither, exactly these have been,
in order and once each; a poll under way has applied a beginning of the rest. -/
theorem delivered_at_least_once :
    (∀ trace s, Run (Step apply) (start events fromSeq state) trace s →
      ∀ row ∈ s.log, register fromSeq < row.seq → row.seq ≤ s.cursor → row ∈ s.applied) ∧
    ∀ trace s, Run (OrderlyStep apply) (start events fromSeq state) trace s →
      (s.state = (s.applied.map Invalidation.code).foldl (fun state code => apply code state) state) ∧
      ((∀ id poll, s.poll id = some poll → poll.done = true) →
        s.applied = s.log.filter fun row => register fromSeq < row.seq && row.seq ≤ s.cursor) ∧
      ∃ ahead, s.applied = (s.log.filter fun row => register fromSeq < row.seq && row.seq ≤ s.cursor) ++ ahead ∧
        ahead <+: s.log.filter fun row => s.cursor < row.seq := by
  refine ⟨fun trace s run row member after upTo => (delivered_of_run run).cursor.applied row member after upTo, ?_⟩
  intro trace s run
  obtain ⟨ahead, exact⟩ := exact_of_run run
  refine ⟨state_of_run (run.weaken fun _ _ _ taken => taken.1), fun quiet => ?_, ahead, exact.applied,
    exact.ahead_prefix⟩
  have applied := exact.applied
  rw [exact.idle quiet, List.append_nil] at applied
  exact applied

end

/-- The second of two overlapping polls fails half way. The log of an orderly
run is applied once, in order. -/
theorem delivered_at_least_once_overlapping :
    (∃ s : Subscriber (List String), Run (Step List.cons) (start [("a", "")] none [])
        [.poll 0, .step 0, .step 0, .publish "b" "", .poll 1, .step 1, .step 1, .step 1, .fail 1, .step 0,
          .step 0] s ∧ s.cursor = 1 ∧ (⟨1, "a", ""⟩ : Invalidation) ∈ s.applied) ∧
    ∃ s : Subscriber (List String), Run (OrderlyStep List.cons) (start [("a", ""), ("b", "")] none [])
        [.poll 0, .step 0, .step 0, .step 0, .step 0, .step 0] s ∧ s.state = ["b", "a"] ∧
      s.state = (s.applied.map Invalidation.code).foldl (fun state code => code :: state) [] := by
  constructor
  · have executed : ∃ s : Subscriber (List String), Run (Step List.cons) (start [("a", "")] none [])
        [.poll 0, .step 0, .step 0, .publish "b" "", .poll 1, .step 1, .step 1, .step 1, .fail 1, .step 0,
          .step 0] s ∧ s.cursor = 1 ∧ (⟨1, "a", ""⟩ : Invalidation) ∈ s.log :=
      Run.exists_of_execute (fun _ _ _ done => done) (by decide +kernel)
    obtain ⟨s, run, covered, member⟩ := executed
    exact ⟨s, run, covered, delivered_at_least_once.1 _ s run _ member Nat.one_pos (Nat.le_of_eq covered.symm)⟩
  · have idle : ∀ id poll, (start [("a", ""), ("b", "")] none ([] : List String)).poll id = some poll →
        poll.done = true := by
      intro id poll running
      cases running
    have run : ∃ s : Subscriber (List String), Run (OrderlyStep List.cons) (start [("a", ""), ("b", "")] none [])
        [.poll 0, .step 0, .step 0, .step 0, .step 0, .step 0] s ∧ s.state = ["b", "a"] :=
      ⟨_, .cons ⟨rfl, idle⟩ (.cons ⟨rfl, trivial⟩ (.cons ⟨rfl, trivial⟩ (.cons ⟨rfl, trivial⟩
        (.cons ⟨rfl, trivial⟩ (.cons ⟨rfl, trivial⟩ .start))))), rfl⟩
    obtain ⟨s, run, state⟩ := run
    exact ⟨s, run, state, (delivered_at_least_once.2 _ s run).1⟩

end Subscriber
end InvalidationBus
end UrlShortener
