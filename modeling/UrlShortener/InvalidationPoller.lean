import Mathlib.Data.Rat.Lemmas
import Mathlib.Tactic.Linarith
import Mathlib.Tactic.Ring
import UrlShortener.InvalidationCursor

namespace UrlShortener
namespace InvalidationPoller
open Transition InvalidationBus

/-- Where the thread of a poller is: in `_stop.wait` or in a poll, each with the
time at which it is over at the latest, or gone. -/
inductive Thread
  | waiting (wakeBy : ℚ)
  | polling (id : Nat) (endBy : ℚ)
  | exited

def Thread.limit : Thread → Option ℚ
  | waiting limit | polling _ limit => some limit
  | exited => none

def Thread.polls (id : Nat) : Thread → Bool
  | polling own _ => own = id
  | _ => false

/-- An instance with its poller. What follows `stopped` is history: when each
row was published, and how many polls of the thread had failed by then. -/
structure Poller (σ : Type) where
  subscriber : Subscriber σ
  thread : Thread
  now : ℚ
  stopped : Bool
  failures : Nat
  publishedAt : Nat → ℚ
  failuresAt : Nat → Nat

inductive Event
  /-- Time passes. -/
  | tick (seconds : ℚ)
  /-- A publication, or a step of any poll; a poll begun here is one of `drain_now`. -/
  | bus (event : InvalidationBus.Event)
  /-- The thread's next turn of the loop. -/
  | wake (id : Nat)
  /-- The thread's poll is over, and `_stop.wait` begins. -/
  | settle
  | stop
  | exit
  deriving DecidableEq

variable {σ : Type}

/-- The rows that are in the log count as published now. -/
def Poller.start (events : List (String × String)) (state : σ) (now : ℚ) : Poller σ :=
  ⟨.start events none state, .waiting now, now, false, 0, fun _ => now, fun _ => 0⟩

def Poller.published (s : Poller σ) (subscriber : Subscriber σ) : Poller σ :=
  { s with
    subscriber := subscriber
    publishedAt := Function.update s.publishedAt (head s.subscriber.log + 1) s.now
    failuresAt := Function.update s.failuresAt (head s.subscriber.log + 1) s.failures }

section
variable (apply : String → σ → σ) (interval pollS : ℚ)

/-- `_run` in time: a poll takes `pollS` at most, and `_stop.wait` no longer
than `interval`. -/
inductive Step : Poller σ → Event → Poller σ → Prop
  | tick {s seconds} : 0 ≤ seconds → (∀ limit, s.thread.limit = some limit → s.now + seconds ≤ limit) →
      Step s (.tick seconds) { s with now := s.now + seconds }
  | publish {s code reason subscriber} : s.subscriber.Step apply (.publish code reason) subscriber →
      Step s (.bus (.publish code reason)) (s.published subscriber)
  | drain {s id subscriber} : s.subscriber.Step apply (.poll id) subscriber →
      Step s (.bus (.poll id)) { s with subscriber := subscriber }
  | step {s id subscriber} : s.subscriber.Step apply (.step id) subscriber →
      Step s (.bus (.step id)) { s with subscriber := subscriber }
  | fail {s id subscriber} : s.subscriber.Step apply (.fail id) subscriber →
      Step s (.bus (.fail id))
        { s with subscriber := subscriber, failures := s.failures + if s.thread.polls id then 1 else 0 }
  | wake {s id wakeBy subscriber} : s.thread = .waiting wakeBy → s.stopped = false →
      s.subscriber.Step apply (.poll id) subscriber →
      Step s (.wake id) { s with subscriber := subscriber, thread := .polling id (s.now + pollS) }
  | settle {s id endBy poll} : s.thread = .polling id endBy → s.subscriber.poll id = some poll → poll.done = true →
      Step s .settle { s with thread := .waiting (s.now + interval) }
  | stop {s} : Step s .stop { s with stopped := true }
  | exit {s wakeBy} : s.thread = .waiting wakeBy → s.stopped = true → Step s .exit { s with thread := .exited }

/-- The step an event names, if it is possible. -/
def Poller.perform (s : Poller σ) : Event → Option (Poller σ)
  | .tick seconds =>
    if 0 ≤ seconds ∧ s.thread.limit.all (fun limit => s.now + seconds ≤ limit) = true then
      some { s with now := s.now + seconds }
    else none
  | .bus event => (s.subscriber.perform apply event).map fun subscriber =>
    match event with
    | .publish _ _ => s.published subscriber
    | .fail id => { s with subscriber := subscriber, failures := s.failures + if s.thread.polls id then 1 else 0 }
    | _ => { s with subscriber := subscriber }
  | .wake id =>
    match s.thread, s.stopped with
    | .waiting _, false => (s.subscriber.perform apply (.poll id)).map fun subscriber =>
        { s with subscriber := subscriber, thread := .polling id (s.now + pollS) }
    | _, _ => none
  | .settle =>
    match s.thread with
    | .polling id _ =>
      if (s.subscriber.poll id).any Poll.done = true then some { s with thread := .waiting (s.now + interval) } else none
    | _ => none
  | .stop => some { s with stopped := true }
  | .exit =>
    match s.thread, s.stopped with
    | .waiting _, true => some { s with thread := .exited }
    | _, _ => none

end

variable {apply : String → σ → σ} {interval pollS : ℚ} {s t : Poller σ} {event : Event}

theorem Step.of_perform (s : Poller σ) (event : Event) (t : Poller σ)
    (done : s.perform apply interval pollS event = some t) : Step apply interval pollS s event t := by
  unfold Poller.perform at done
  cases event with
  | tick seconds =>
    obtain ⟨⟨forward, within⟩, same⟩ := Option.ite_none_right_eq_some.mp done
    cases same
    refine .tick forward fun limit known => ?_
    rw [known] at within
    exact of_decide_eq_true within
  | bus event =>
    obtain ⟨subscriber, taken, rfl⟩ := Option.map_eq_some_iff.mp done
    cases event with
    | publish code reason => exact .publish taken
    | poll id => exact .drain taken
    | step id => exact .step taken
    | fail id => exact .fail taken
  | wake id =>
    dsimp only at done
    split at done
    · rename_i waiting running
      obtain ⟨subscriber, taken, rfl⟩ := Option.map_eq_some_iff.mp done
      exact .wake waiting running taken
    · cases done
  | settle =>
    dsimp only at done
    split at done
    · rename_i polling
      obtain ⟨finished, same⟩ := Option.ite_none_right_eq_some.mp done
      obtain ⟨poll, known, ended⟩ := (Option.any_eq_true _ _).mp finished
      cases same
      exact .settle polling known ended
    · cases done
  | stop =>
    cases done
    exact .stop
  | exit =>
    dsimp only at done
    split at done
    · rename_i waiting stopped
      cases done
      exact .exit waiting stopped
    · cases done

/-- What an event is to the instance's subscription. -/
def Event.onBus : Event → Option InvalidationBus.Event
  | .bus event => some event
  | .wake id => some (.poll id)
  | _ => none

theorem subscriber_run {events : List (String × String)} {state : σ} {now : ℚ} {trace : List Event}
    (run : Run (Step apply interval pollS) (.start events state now) trace s) :
    Run (Subscriber.Step apply) (.start events none state) (trace.filterMap Event.onBus) s.subscriber := by
  refine run.project Poller.subscriber Event.onBus fun a label b taken => ?_
  cases taken with
  | publish taken => exact Or.inl ⟨_, rfl, taken⟩
  | drain taken => exact Or.inl ⟨_, rfl, taken⟩
  | step taken => exact Or.inl ⟨_, rfl, taken⟩
  | fail taken => exact Or.inl ⟨_, rfl, taken⟩
  | wake _ _ taken => exact Or.inl ⟨_, rfl, taken⟩
  | _ => exact Or.inr ⟨rfl, rfl⟩

/-- Sequence numbers begin at one. -/
theorem positive_of_run {events : List (String × String)} {state : σ} {trace : List InvalidationBus.Event}
    {sub : Subscriber σ} (run : Run (Subscriber.Step apply) (.start events none state) trace sub) :
    ∀ row ∈ sub.log, 0 < row.seq := by
  induction run with
  | start =>
    change ∀ row ∈ published events, 0 < row.seq
    induction events using List.reverseRecOn with
    | nil => intro row member; cases member
    | append_singleton earlier event ih =>
      intro row member
      rw [published, List.foldl_append] at member
      rcases List.mem_append.mp member with before | last
      · exact ih row before
      · rw [List.mem_singleton.mp last]
        exact Nat.succ_pos _
  | next _ taken ih =>
    cases taken.move with
    | published code reason =>
      intro row member
      rcases List.mem_append.mp member with before | last
      · exact ih row before
      · rw [List.mem_singleton.mp last]
        exact Nat.succ_pos _
    | _ => exact ih

/-- By when a row is to be applied: an interval and two polls after it was
published, and an interval and a poll for each poll that failed since. -/
def Poller.due (interval pollS : ℚ) (s : Poller σ) (row : Invalidation) : ℚ :=
  s.publishedAt row.seq + interval + 2 * pollS + (s.failures - s.failuresAt row.seq) * (interval + pollS)

/-- The poll is going to apply the row. -/
def Catches (row : Invalidation) : Option Poll → Prop
  | some .starting | some (.selecting _) => True
  | some (.applying _ rest) => row ∈ rest
  | _ => False

/-- How long a row can still wait for the thread. -/
def InTime (interval pollS : ℚ) (s : Poller σ) (row : Invalidation) : Prop :=
  match s.thread with
  | .waiting wakeBy => wakeBy + pollS ≤ s.due interval pollS row
  | .polling id endBy => Catches row (s.subscriber.poll id) ∧ endBy ≤ s.due interval pollS row ∨
      endBy + interval + pollS ≤ s.due interval pollS row
  | .exited => True

/-- No limit is passed, and none is further away than it was set. -/
def Punctual (interval pollS : ℚ) (s : Poller σ) : Prop :=
  match s.thread with
  | .waiting wakeBy => s.now ≤ wakeBy ∧ wakeBy ≤ s.now + interval
  | .polling _ endBy => s.now ≤ endBy ∧ endBy ≤ s.now + pollS
  | .exited => True

/-- A poll that finds nothing has read the whole log. -/
theorem nothing_selected {sub sub' : Subscriber σ} {id known : Nat} (running : sub.poll id = some (.selecting known))
    (taken : sub.Step apply (.step id) sub') (finished : sub'.poll id = some (.finished 0)) :
    (sub.log.filter fun row => known < row.seq) = [] := by
  by_contra found
  simp only [Subscriber.Step, Subscriber.perform, running, Option.bind_some, Poll.advance, if_neg found,
    Option.map_some] at taken
  rw [← Option.some.inj taken] at finished
  cases (Function.update_self ..).symm.trans finished

/-- A poll that is going to apply a row goes on to, as long as it does not raise. -/
theorem catches_step {sub sub' : Subscriber σ} {id : Nat} {row : Invalidation} (delivered : sub.Delivered 0)
    (member : row ∈ sub.log) (positive : 0 < row.seq) (waiting : row ∉ sub'.applied)
    (taken : sub.Step apply (.step id) sub') (own : Nat) (catches : Catches row (sub.poll own)) :
    Catches row (sub'.poll own) := by
  have unknown {known : Nat} (running : sub.poll id = some (.selecting known)) (applied : sub'.applied = sub.applied) :
      known < row.seq := by
    have reached : sub.Reached 0 known := delivered.polls running
    by_contra old
    rw [applied] at waiting
    exact waiting (reached.applied row member positive (Nat.le_of_not_lt old))
  by_cases mine : own = id
  · subst mine
    have turned {poll : Poll} (after : Catches row (some poll)) :
        Catches row (Function.update sub.poll own (some poll) own) := by
      rwa [Function.update_self]
    cases taken.move with
    | started running => exact turned trivial
    | @caughtUp _ known running =>
      have nothing := nothing_selected running taken (Function.update_self ..)
      have selected : row ∈ sub.log.filter fun row => known < row.seq :=
        List.mem_filter.mpr ⟨member, decide_eq_true (unknown running rfl)⟩
      rw [nothing] at selected
      cases selected
    | @selected _ known rows running chosen nonempty =>
      refine turned (show row ∈ rows from ?_)
      rw [chosen]
      exact List.mem_filter.mpr ⟨member, decide_eq_true (unknown running rfl)⟩
    | @applied _ rows first rest running =>
      rw [running] at catches
      refine turned ((List.mem_cons.mp catches).resolve_left fun same => waiting ?_)
      rw [same]
      exact List.mem_append_right _ (List.mem_singleton_self first)
    | finished running =>
      rw [running] at catches
      cases catches
  · have elsewhere {poll : Poll} : Catches row (Function.update sub.poll id (some poll) own) := by
      rwa [Function.update_of_ne mine]
    cases taken.move <;> exact elsewhere

/-- Everything that is still to be applied can be in time. -/
structure OnTime (interval pollS : ℚ) (s : Poller σ) : Prop where
  punctual : Punctual interval pollS s
  rows : ∀ row ∈ s.subscriber.log, row ∉ s.subscriber.applied → InTime interval pollS s row

theorem OnTime.publish (onTime : OnTime interval pollS s) (pollNonneg : 0 ≤ pollS) (code reason : String) :
    OnTime interval pollS (s.published { s.subscriber with
      log := s.subscriber.log ++ [⟨head s.subscriber.log + 1, code, reason⟩] }) := by
  refine ⟨onTime.punctual, fun row member waiting => ?_⟩
  rcases List.mem_append.mp member with before | new
  · -- The history of the rows before stays as it is.
    have other : row.seq ≠ head s.subscriber.log + 1 := Nat.ne_of_lt (Nat.lt_succ_of_le (le_head before))
    have same : (s.published { s.subscriber with
        log := s.subscriber.log ++ [⟨head s.subscriber.log + 1, code, reason⟩] }).due interval pollS row =
        s.due interval pollS row := by
      simp only [Poller.due, Poller.published, Function.update_of_ne other]
    have inTime := onTime.rows row before waiting
    rw [InTime] at inTime ⊢
    rw [same]
    exact inTime
  · have due : (s.published { s.subscriber with
        log := s.subscriber.log ++ [⟨head s.subscriber.log + 1, code, reason⟩] }).due interval pollS row =
        s.now + interval + 2 * pollS := by
      rw [List.mem_singleton.mp new]
      simp only [Poller.due, Poller.published, Function.update_self, sub_self, zero_mul, add_zero]
    have punctual := onTime.punctual
    rw [InTime, due]
    rw [Punctual] at punctual
    cases thread : s.thread with
    | waiting wakeBy =>
      rw [thread] at punctual
      simp only [Poller.published, thread]
      linarith [punctual.2]
    | polling id endBy =>
      rw [thread] at punctual
      simp only [Poller.published, thread]
      exact Or.inr (by linarith [punctual.2])
    | exited => simp only [Poller.published, thread]

/-- Only the subscription moves on. -/
theorem OnTime.subscribed {sub : Subscriber σ} (onTime : OnTime interval pollS s) (log : sub.log = s.subscriber.log)
    (applied : ∀ row ∈ s.subscriber.applied, row ∈ sub.applied)
    (catches : ∀ row ∈ s.subscriber.log, row ∉ sub.applied → ∀ own, Catches row (s.subscriber.poll own) →
      Catches row (sub.poll own)) : OnTime interval pollS { s with subscriber := sub } := by
  refine ⟨onTime.punctual, fun row member waiting => ?_⟩
  rw [show Poller.subscriber _ = sub from rfl, log] at member
  have inTime := onTime.rows row member fun done => waiting (applied row done)
  rw [InTime] at inTime ⊢
  cases thread : s.thread with
  | waiting wakeBy =>
    rw [thread] at inTime
    exact inTime
  | polling own endBy =>
    rw [thread] at inTime
    exact inTime.imp_left fun early => ⟨catches row member waiting own early.1, early.2⟩
  | exited => trivial

theorem due_failed (s : Poller σ) (sub : Subscriber σ) (more : Nat) (row : Invalidation) :
    ({ s with subscriber := sub, failures := s.failures + more } : Poller σ).due interval pollS row =
      s.due interval pollS row + more * (interval + pollS) := by
  simp only [Poller.due]
  push_cast
  ring

/-- A poll that raises leaves its rows to the next one of the thread. -/
theorem OnTime.failed {sub : Subscriber σ} {id : Nat} (onTime : OnTime interval pollS s)
    (intervalNonneg : 0 ≤ interval) (pollNonneg : 0 ≤ pollS) (taken : s.subscriber.Step apply (.fail id) sub) :
    OnTime interval pollS
      { s with subscriber := sub, failures := s.failures + if s.thread.polls id then 1 else 0 } := by
  cases taken.move with
  | @raised _ poll running busy =>
    refine ⟨onTime.punctual, fun row member waiting => ?_⟩
    have inTime := onTime.rows row member waiting
    rw [InTime] at inTime ⊢
    rw [due_failed]
    cases thread : s.thread with
    | waiting wakeBy =>
      rw [thread] at inTime
      simp only [Thread.polls, Bool.false_eq_true, if_false, Nat.cast_zero, zero_mul, add_zero]
      exact inTime
    | polling own endBy =>
      rw [thread] at inTime
      by_cases mine : own = id
      · simp only [Thread.polls, mine, decide_true, if_true, Nat.cast_one, one_mul]
        refine Or.inr ?_
        rcases inTime with ⟨_, early⟩ | late <;> linarith
      · simp only [Thread.polls, mine, decide_false, Bool.false_eq_true, if_false, Nat.cast_zero, zero_mul, add_zero]
        refine inTime.imp_left fun early => ⟨?_, early.2⟩
        show Catches row (Function.update s.subscriber.poll id (some .raised) own)
        rw [Function.update_of_ne mine]
        exact early.1
    | exited => trivial

theorem OnTime.step (onTime : OnTime interval pollS s) (intervalNonneg : 0 ≤ interval) (pollNonneg : 0 ≤ pollS)
    (delivered : s.subscriber.Delivered 0) (positive : ∀ row ∈ s.subscriber.log, 0 < row.seq)
    (taken : Step apply interval pollS s event t) : OnTime interval pollS t := by
  have punctual := onTime.punctual
  cases taken with
  | @tick seconds forward within =>
    refine ⟨?_, onTime.rows⟩
    rw [Punctual] at punctual ⊢
    cases thread : s.thread with
    | waiting wakeBy =>
      rw [thread] at punctual
      have limit := within wakeBy (by rw [thread]; rfl)
      exact ⟨limit, by dsimp only; linarith [punctual.2]⟩
    | polling id endBy =>
      rw [thread] at punctual
      have limit := within endBy (by rw [thread]; rfl)
      exact ⟨limit, by dsimp only; linarith [punctual.2]⟩
    | exited => trivial
  | publish taken =>
    cases taken.move with
    | published => exact onTime.publish pollNonneg _ _
  | @drain id sub taken =>
    cases taken.move with
    | begun free =>
      refine onTime.subscribed rfl (fun row done => done) fun row member waiting own catches => ?_
      by_cases mine : own = id
      · rw [mine, free] at catches
        cases catches
      · show Catches row (Function.update s.subscriber.poll id (some .starting) own)
        rwa [Function.update_of_ne mine]
  | @step id sub taken =>
    have kept : sub.log = s.subscriber.log ∧ ∀ row ∈ s.subscriber.applied, row ∈ sub.applied := by
      cases taken.move with
      | applied running => exact ⟨rfl, fun row done => List.mem_append_left _ done⟩
      | _ => exact ⟨rfl, fun row done => done⟩
    exact onTime.subscribed kept.1 kept.2 fun row member waiting own catches =>
      catches_step delivered member (positive row member) waiting taken own catches
  | fail taken => exact onTime.failed intervalNonneg pollNonneg taken
  | @wake id wakeBy sub thread running taken =>
    rw [Punctual, thread] at punctual
    cases taken.move with
    | begun free =>
      refine ⟨⟨le_add_of_nonneg_right pollNonneg, le_rfl⟩, fun row member waiting => Or.inl ⟨?_, ?_⟩⟩
      · show Catches row (Function.update s.subscriber.poll id (some .starting) id)
        rw [Function.update_self]
        trivial
      · have inTime := onTime.rows row member waiting
        rw [InTime, thread] at inTime
        exact le_trans (add_le_add_left punctual.1 pollS) inTime
  | @settle id endBy poll thread known ended' =>
    rw [Punctual, thread] at punctual
    refine ⟨⟨le_add_of_nonneg_right intervalNonneg, le_rfl⟩, fun row member waiting => ?_⟩
    have inTime := onTime.rows row member waiting
    rw [InTime, thread] at inTime
    have late : endBy + interval + pollS ≤ s.due interval pollS row := by
      refine inTime.resolve_left fun early => ?_
      rw [known] at early
      cases poll with
      | finished count => exact early.1
      | raised => exact early.1
      | _ => cases ended'
    show s.now + interval + pollS ≤ s.due interval pollS row
    linarith [punctual.1]
  | stop => exact ⟨punctual, onTime.rows⟩
  | exit thread stopped => exact ⟨trivial, fun _ _ _ => trivial⟩

section
variable {events : List (String × String)} {state : σ} {now : ℚ} {trace : List Event}

theorem onTime_of_run (intervalNonneg : 0 ≤ interval) (pollNonneg : 0 ≤ pollS)
    (run : Run (Step apply interval pollS) (.start events state now) trace s) : OnTime interval pollS s := by
  induction run with
  | start =>
    refine ⟨⟨le_rfl, le_add_of_nonneg_right intervalNonneg⟩, fun row _ _ => ?_⟩
    have due : (Poller.start events state now).due interval pollS row = now + interval + 2 * pollS := by
      simp only [Poller.due, Poller.start, Nat.cast_zero, sub_zero, zero_mul, add_zero]
    show now + pollS ≤ (Poller.start events state now).due interval pollS row
    rw [due]
    linarith
  | next before taken ih =>
    have subscribed := subscriber_run before
    exact ih.step intervalNonneg pollNonneg (Subscriber.delivered_of_run subscribed) (positive_of_run subscribed) taken

/-- While the poller runs, a row that it has not applied was published less than
an interval and two polls ago, if none of its polls failed since; each one that
did adds an interval and a poll. Polls of `drain_now` do not disturb this. -/
theorem propagation_bounded (intervalNonneg : 0 ≤ interval) (pollNonneg : 0 ≤ pollS)
    (run : Run (Step apply interval pollS) (.start events state now) trace s) (alive : s.thread ≠ .exited) :
    ∀ row ∈ s.subscriber.log, row ∉ s.subscriber.applied →
      s.now ≤ s.publishedAt row.seq + interval + 2 * pollS +
        (s.failures - s.failuresAt row.seq) * (interval + pollS) := by
  intro row member waiting
  have onTime := onTime_of_run intervalNonneg pollNonneg run
  have punctual := onTime.punctual
  have inTime := onTime.rows row member waiting
  change s.now ≤ s.due interval pollS row
  rw [Punctual] at punctual
  rw [InTime] at inTime
  cases thread : s.thread with
  | waiting wakeBy =>
    rw [thread] at punctual inTime
    linarith [punctual.1]
  | polling id endBy =>
    rw [thread] at punctual inTime
    rcases inTime with ⟨_, early⟩ | late
    · exact punctual.1.trans early
    · linarith [punctual.1]
  | exited => exact absurd thread alive

end

/-- A row published just after the log was read waits for as long as it may. -/
theorem propagation_bounded_late :
    ∃ s : Poller (List String), Run (Step List.cons 1 (1 / 4)) (.start [] [] 0)
        [.wake 0, .bus (.step 0), .bus (.step 0), .bus (.publish "a" ""), .tick (1 / 4), .settle, .tick 1, .wake 1,
          .bus (.step 1), .bus (.step 1), .tick (1 / 4)] s ∧
      s.now = 3 / 2 ∧ (⟨1, "a", ""⟩ : Invalidation) ∉ s.subscriber.applied ∧
      s.now ≤ s.publishedAt 1 + 1 + 2 * (1 / 4) + (s.failures - s.failuresAt 1) * (1 + 1 / 4) := by
  have executed : ∃ s : Poller (List String), Run (Step List.cons 1 (1 / 4)) (.start [] [] 0)
      [.wake 0, .bus (.step 0), .bus (.step 0), .bus (.publish "a" ""), .tick (1 / 4), .settle, .tick 1, .wake 1,
        .bus (.step 1), .bus (.step 1), .tick (1 / 4)] s ∧
      (s.now = 3 / 2 ∧ s.thread.limit = some (3 / 2) ∧ (⟨1, "a", ""⟩ : Invalidation) ∈ s.subscriber.log ∧
        (⟨1, "a", ""⟩ : Invalidation) ∉ s.subscriber.applied) :=
    Run.exists_of_execute Step.of_perform (by decide +kernel)
  obtain ⟨s, run, late, limit, member, waiting⟩ := executed
  have alive : s.thread ≠ .exited := fun gone => by
    rw [gone] at limit
    cases limit
  have intervalNonneg : (0 : ℚ) ≤ 1 := by norm_num
  have pollNonneg : (0 : ℚ) ≤ 1 / 4 := by norm_num
  have bounded := propagation_bounded intervalNonneg pollNonneg run alive _ member waiting
  exact ⟨s, run, late, waiting, bounded⟩

end InvalidationPoller
end UrlShortener
