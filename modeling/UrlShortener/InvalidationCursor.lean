import UrlShortener.InvalidationDelivery

namespace UrlShortener
namespace InvalidationBus
open Transition

/-- Whatever the poll still applies comes after `seq`, and so does the cursor
that it writes in the end, or it is `seq` itself. -/
def Poll.Ahead (seq : Nat) : Poll → Prop
  | .selecting known => seq ≤ known
  | .applying rows rest => (∀ row ∈ rest, seq < row.seq) ∧ ∀ last, rows.getLast? = some last → seq ≤ last.seq
  | _ => True

namespace Subscriber
variable {σ : Type}

/-- `lag`. -/
def lag (s : Subscriber σ) : Nat :=
  head s.log - s.cursor

/-- A poll only writes the cursor when every other poll under way is ahead of
what it writes. -/
def Heedful (s : Subscriber σ) : Event → Prop
  | .step id => ∀ rows last, s.poll id = some (.applying rows []) → rows.getLast? = some last →
      ∀ other ≠ id, ∀ poll, s.poll other = some poll → poll.Ahead last.seq
  | _ => True

def HeedfulStep (apply : String → σ → σ) (s : Subscriber σ) (event : Event) (s' : Subscriber σ) : Prop :=
  s.Step apply event s' ∧ s.Heedful event

/-- On the way from `s` to `s'` the cursor has not gone back, and nothing has
been applied that it covered in `s`. -/
structure Advances (s s' : Subscriber σ) : Prop where
  cursor : s.cursor ≤ s'.cursor
  fresh : ∃ rows, s'.applied = s.applied ++ rows ∧ ∀ row ∈ rows, s.cursor < row.seq

/-- Every poll under way is ahead of the cursor. -/
def Leading (s : Subscriber σ) : Prop :=
  ∀ id poll, s.poll id = some poll → poll.Ahead s.cursor

variable {apply : String → σ → σ} {s s' t : Subscriber σ} {event : Event}

theorem Advances.still (cursor : s'.cursor = s.cursor) (applied : s'.applied = s.applied) : s.Advances s' :=
  ⟨Nat.le_of_eq cursor.symm, [], applied.trans (List.append_nil _).symm, by simp⟩

theorem Advances.trans (first : s.Advances s') (second : s'.Advances t) : s.Advances t := by
  obtain ⟨rows, applied, fresh⟩ := first.fresh
  obtain ⟨later, appliedLater, freshLater⟩ := second.fresh
  refine ⟨Nat.le_trans first.cursor second.cursor, rows ++ later, ?_, fun row member => ?_⟩
  · rw [appliedLater, applied, List.append_assoc]
  · rcases List.mem_append.mp member with before | after
    · exact fresh row before
    · exact Nat.lt_of_le_of_lt first.cursor (freshLater row after)

/-- A poll turns to something else, and the cursor stays. -/
theorem Leading.turn {id : Nat} {poll : Poll} (leading : s.Leading)
    (polls : s'.poll = Function.update s.poll id (some poll)) (cursor : s'.cursor = s.cursor)
    (ahead : poll.Ahead s.cursor) : s'.Leading := by
  intro other progress running
  rw [polls] at running
  rw [cursor]
  by_cases own : other = id
  · rw [own, Function.update_self] at running
    cases running
    exact ahead
  · rw [Function.update_of_ne own] at running
    exact leading other progress running

theorem Leading.step (leading : s.Leading) (taken : s.HeedfulStep apply event s') :
    s'.Leading ∧ s.Advances s' := by
  obtain ⟨taken, heedful⟩ := taken
  cases taken.move with
  | published code reason => exact ⟨leading, .still rfl rfl⟩
  | begun free => exact ⟨leading.turn rfl rfl trivial, .still rfl rfl⟩
  | started running => exact ⟨leading.turn rfl rfl (Nat.le_refl _), .still rfl rfl⟩
  | caughtUp running => exact ⟨leading.turn rfl rfl trivial, .still rfl rfl⟩
  | @selected id known rows running chosen nonempty =>
    have upTo : s.cursor ≤ known := leading id _ running
    have beyond {row : Invalidation} (member : row ∈ rows) : s.cursor < row.seq := by
      rw [chosen] at member
      have later := of_decide_eq_true (List.mem_filter.mp member).2
      omega
    refine ⟨leading.turn rfl rfl ⟨fun row => beyond, fun last isLast => ?_⟩, .still rfl rfl⟩
    exact Nat.le_of_lt (beyond (List.mem_of_getLast? isLast))
  | @applied id rows row rest running =>
    obtain ⟨ahead, last⟩ := leading id _ running
    refine ⟨leading.turn rfl rfl ⟨fun other member => ahead other (List.mem_cons_of_mem _ member), last⟩, ?_⟩
    refine ⟨Nat.le_refl _, [row], rfl, fun other member => ?_⟩
    rw [List.mem_singleton.mp member]
    exact ahead row (List.mem_cons_self ..)
  | @finished id rows running =>
    obtain ⟨_, upTo⟩ := leading id _ running
    rcases Option.eq_none_or_eq_some rows.getLast? with ends | ⟨last, ends⟩
    · have same : (rows.getLast?.map Invalidation.seq).getD s.cursor = s.cursor := by rw [ends]; rfl
      exact ⟨leading.turn rfl same trivial, .still same rfl⟩
    · have moved : (rows.getLast?.map Invalidation.seq).getD s.cursor = last.seq := by rw [ends]; rfl
      refine ⟨fun other poll known => ?_, ⟨moved ▸ upTo last ends, [],
        (List.append_nil _).symm, by simp⟩⟩
      rw [show Subscriber.cursor _ = last.seq from moved]
      by_cases own : other = id
      · subst own
        cases (Function.update_self ..).symm.trans known
        exact trivial
      · exact heedful rows last running ends other own poll ((Function.update_of_ne own ..).symm.trans known)
  | raised running busy => exact ⟨leading.turn rfl rfl trivial, .still rfl rfl⟩

theorem advances_of_run {trace : List Event} (leading : s.Leading) (run : Run (HeedfulStep apply) s trace t) :
    t.Leading ∧ s.Advances t := by
  induction run with
  | start => exact ⟨leading, .still rfl rfl⟩
  | next before taken ih =>
    obtain ⟨next, advances⟩ := ih.1.step taken
    exact ⟨next, ih.2.trans advances⟩

theorem log_of_run {trace : List Event} (quiet : ∀ code reason, .publish code reason ∉ trace)
    (run : Run (Step apply) s trace t) : t.log = s.log := by
  induction run with
  | start => rfl
  | @next trace _ label _ before taken ih =>
    rw [← ih fun code reason member => quiet code reason (List.mem_append_left _ member)]
    cases taken.move with
    | published code reason => exact absurd (List.mem_append_right trace (List.mem_singleton_self _)) (quiet code reason)
    | _ => rfl

theorem leading_start (events : List (String × String)) (fromSeq : Option Nat) (state : σ) :
    (start events fromSeq state).Leading := by
  intro id poll running
  cases running

/-- The rows that a poll holds are rows of the log in their order. -/
structure Filed (s : Subscriber σ) : Prop where
  ordered : s.log.Pairwise (·.seq < ·.seq)
  rows : ∀ {id rows rest}, s.poll id = some (.applying rows rest) → rows ≠ [] ∧ rows.Sublist s.log ∧ rest <:+ rows

theorem Filed.turn {id : Nat} {poll : Poll} (filed : s.Filed) (log : s'.log = s.log)
    (polls : s'.poll = Function.update s.poll id (some poll))
    (own : ∀ rows rest, poll = .applying rows rest → rows ≠ [] ∧ rows.Sublist s.log ∧ rest <:+ rows) :
    s'.Filed := by
  refine ⟨log ▸ filed.ordered, fun {other rows rest} running => ?_⟩
  rw [polls] at running
  rw [log]
  by_cases here : other = id
  · rw [here, Function.update_self] at running
    exact own rows rest (Option.some.inj running)
  · rw [Function.update_of_ne here] at running
    exact filed.rows running

theorem Filed.step (filed : s.Filed) (taken : s.Step apply event s') : s'.Filed := by
  cases taken.move with
  | published code reason =>
    refine ⟨ordered_snoc filed.ordered rfl, fun running => ?_⟩
    obtain ⟨some_, among, suffix⟩ := filed.rows running
    exact ⟨some_, among.trans (List.sublist_append_left ..), suffix⟩
  | begun free => exact filed.turn rfl rfl (by simp)
  | started running => exact filed.turn rfl rfl (by simp)
  | caughtUp running => exact filed.turn rfl rfl (by simp)
  | selected running chosen nonempty =>
    refine filed.turn rfl rfl fun rows rest same => ?_
    cases same
    exact ⟨nonempty, chosen ▸ List.filter_sublist, List.suffix_refl _⟩
  | applied running =>
    obtain ⟨some_, among, suffix⟩ := filed.rows running
    refine filed.turn rfl rfl fun rows rest same => ?_
    cases same
    exact ⟨some_, among, (List.suffix_cons ..).trans suffix⟩
  | finished running => exact filed.turn rfl rfl (by simp)
  | raised running busy => exact filed.turn rfl rfl (by simp)

theorem filed_of_run {trace : List Event} {events : List (String × String)} {fromSeq : Option Nat} {state : σ}
    (run : Run (Step apply) (start events fromSeq state) trace s) : s.Filed := by
  induction run with
  | start => exact ⟨published_ordered events, fun running => by cases running⟩
  | next _ taken ih => exact ih.step taken

/-- The cursor goes back, or a row that it covers is applied. -/
def Breaks (s s' : Subscriber σ) : Prop :=
  s'.cursor < s.cursor ∨ ∃ row, s'.applied = s.applied ++ [row] ∧ row.seq ≤ s.cursor

theorem breaks_of_covered (apply : String → σ → σ) {id : Nat} {rows rest : List Invalidation} {row : Invalidation}
    (running : s.poll id = some (.applying rows (row :: rest))) (covered : row.seq ≤ s.cursor) :
    ∃ u, s.Step apply (.step id) u ∧ s.Breaks u := by
  refine ⟨{ s with
    state := apply row.code s.state
    poll := Function.update s.poll id (some (.applying rows rest))
    applied := s.applied ++ [row] }, ?_, Or.inr ⟨row, rfl, covered⟩⟩
  simp [Step, perform, running, Poll.advance, Poll.due]

theorem breaks_of_behind (apply : String → σ → σ) {id : Nat} {rows : List Invalidation} {last : Invalidation}
    (running : s.poll id = some (.applying rows [])) (ends : rows.getLast? = some last)
    (behind : last.seq < s.cursor) : ∃ u, s.Step apply (.step id) u ∧ s.Breaks u := by
  refine ⟨{ s with
    cursor := last.seq
    poll := Function.update s.poll id (some (.finished rows.length)) }, ?_, Or.inl behind⟩
  simp [Step, perform, running, Poll.advance, Poll.due, ends]

/-- In a list of rows in their order the first one is the least. -/
theorem head_seq_le {row other : Invalidation} {rest : List Invalidation}
    (ordered : (row :: rest).Pairwise (·.seq < ·.seq)) (member : other ∈ row :: rest) : row.seq ≤ other.seq := by
  rcases List.mem_cons.mp member with rfl | later
  · exact Nat.le_refl _
  · exact Nat.le_of_lt ((List.pairwise_cons.mp ordered).1 other later)

/-- A poll that is not ahead of the cursor breaks it within two steps of its own. -/
theorem Filed.breaks (filed : s.Filed) (apply : String → σ → σ) {id : Nat} {poll : Poll} {row : Invalidation}
    (covering : row ∈ s.log) (cursor : s.cursor = row.seq) (running : s.poll id = some poll)
    (behind : ¬ poll.Ahead s.cursor) :
    ∃ later t u, Run (Step apply) s later t ∧ (∀ taken ∈ later, taken = .step id) ∧
      t.Step apply (.step id) u ∧ t.Breaks u := by
  cases poll with
  | selecting known =>
    have stale : known < row.seq := by
      rw [← cursor]
      exact Nat.lt_of_not_le behind
    have again : row ∈ s.log.filter fun row => known < row.seq :=
      List.mem_filter.mpr ⟨covering, decide_eq_true stale⟩
    obtain ⟨first, rest, rows⟩ := List.exists_cons_of_ne_nil (List.ne_nil_of_mem again)
    have select : s.Step apply (.step id)
        { s with poll := Function.update s.poll id (some (.applying (first :: rest) (first :: rest))) } := by
      simp only [Step, perform, running, Option.bind_some, Poll.advance, Poll.due, rows, reduceCtorEq, if_false,
        Option.map_some, List.append_nil]
    have ordered := filed.ordered.sublist (List.filter_sublist (p := fun row => known < row.seq))
    rw [rows] at again ordered
    obtain ⟨u, taken, breaks⟩ := breaks_of_covered apply
      (s := { s with poll := Function.update s.poll id (some (.applying (first :: rest) (first :: rest))) })
      (Function.update_self ..) (cursor ▸ head_seq_le ordered again)
    exact ⟨_, _, u, .single select, by simp, taken, breaks⟩
  | applying rows rest =>
    obtain ⟨_, among, suffix⟩ := filed.rows running
    have ordered := filed.ordered.sublist among
    cases rest with
    | nil =>
      obtain ⟨last, ends, below⟩ : ∃ last, rows.getLast? = some last ∧ last.seq < s.cursor := by
        by_contra none
        exact behind ⟨by simp, fun last ends => Nat.le_of_not_lt fun below => none ⟨last, ends, below⟩⟩
      obtain ⟨u, taken, breaks⟩ := breaks_of_behind apply running ends below
      exact ⟨[], s, u, .start, by simp, taken, breaks⟩
    | cons first rest =>
      have covered : first.seq ≤ s.cursor := by
        by_contra beyond
        refine behind ⟨fun other member => ?_, fun last ends => ?_⟩
        · have least := head_seq_le (ordered.sublist suffix.sublist) member
          omega
        · have isLast : (first :: rest).getLast? = some last := by
            obtain ⟨done, rfl⟩ := suffix
            rwa [List.getLast?_append_of_ne_nil _ (List.cons_ne_nil _ _)] at ends
          have least := head_seq_le (ordered.sublist suffix.sublist) (List.mem_of_getLast? isLast)
          omega
      obtain ⟨u, taken, breaks⟩ := breaks_of_covered apply running covered
      exact ⟨[], s, u, .start, by simp, taken, breaks⟩
  | _ => exact absurd trivial behind

/-- The cursor of a registered instance never goes back, its lag only rises with
a publication and nothing it covers is applied again, in every run in which each
poll that writes the cursor leaves every other one ahead of it. Where a poll
writes it past another one, that one alone can go on to break this. -/
theorem cursor_advances {events : List (String × String)} {fromSeq : Option Nat} {state : σ} :
    (∀ trace s later t, Run (HeedfulStep apply) (start events fromSeq state) trace s →
      Run (HeedfulStep apply) s later t →
      s.cursor ≤ t.cursor ∧ ((∀ code reason, .publish code reason ∉ later) → t.lag ≤ s.lag) ∧
      ∃ rows, t.applied = s.applied ++ rows ∧ ∀ row ∈ rows, s.cursor < row.seq) ∧
    ∀ trace s event s', Run (Step apply) (start events fromSeq state) trace s → s.Step apply event s' →
      ¬ s.Heedful event →
      ∃ other later t u, Run (Step apply) s' later t ∧ (∀ taken ∈ later, taken = .step other) ∧
        t.Step apply (.step other) u ∧ t.Breaks u := by
  constructor
  · intro trace s later t run rest
    have leading := (advances_of_run (leading_start events fromSeq state) run).1
    have advances := (advances_of_run leading rest).2
    refine ⟨advances.cursor, fun quiet => ?_, advances.fresh⟩
    have log := log_of_run quiet (rest.weaken fun _ _ _ taken => taken.1)
    rw [lag, lag, log]
    exact Nat.sub_le_sub_left advances.cursor _
  · intro trace s event s' run taken heedless
    have filed := filed_of_run run
    cases event with
    | step id =>
      simp only [Heedful] at heedless
      push Not at heedless
      obtain ⟨rows, last, running, ends, other, different, poll, known, behind⟩ := heedless
      have moved : s' = { s with
          cursor := last.seq
          poll := Function.update s.poll id (some (.finished rows.length)) } := by
        simpa [Step, perform, running, Poll.advance, Poll.due, ends] using taken.symm
      have covering : last ∈ s.log := (filed.rows running).2.1.subset (List.mem_of_getLast? ends)
      have filed' := filed.step taken
      subst moved
      obtain ⟨later, t, u, breaking⟩ := filed'.breaks apply covering rfl
        ((Function.update_of_ne different ..).trans known) behind
      exact ⟨other, later, t, u, breaking⟩
    | _ => exact absurd trivial heedless

/-- The poll that began first has selected one row when another poll, begun
after a publication, reaches the end of the log. The first one then takes the
cursor back, and the second row is applied again. -/
theorem cursor_goes_back :
    ∃ s t u : Subscriber (List String), Run (Step List.cons) (start [("a", "")] none [])
        [.poll 0, .step 0, .step 0, .publish "b" "", .poll 1, .step 1, .step 1, .step 1, .step 1, .step 1] s ∧
      s.poll 1 = some (.finished 2) ∧ s.cursor = 2 ∧ s.lag = 0 ∧
      Run (Step List.cons) s [.step 0, .step 0] t ∧ t.cursor = 1 ∧ t.lag = 1 ∧
      Run (Step List.cons) t [.poll 2, .step 2, .step 2, .step 2] u ∧
      u.applied = t.applied ++ [⟨2, "b", ""⟩] := by
  have drained : ∃ s : Subscriber (List String), Run (Step List.cons) (start [("a", "")] none [])
      [.poll 0, .step 0, .step 0, .publish "b" "", .poll 1, .step 1, .step 1, .step 1, .step 1, .step 1] s ∧
      (s.poll 1 = some (.finished 2) ∧ s.cursor = 2 ∧ s.lag = 0 ∧
        (execute (perform List.cons) s [.step 0, .step 0]).any (fun t => t.cursor = 1 ∧ t.lag = 1 ∧
          (execute (perform List.cons) t [.poll 2, .step 2, .step 2, .step 2]).any
            (fun u => u.applied = t.applied ++ [⟨2, "b", ""⟩]) = true) = true) :=
    Run.exists_of_execute (fun _ _ _ done => done) (by decide +kernel)
  obtain ⟨s, run, finished, cursor, lag, more⟩ := drained
  obtain ⟨t, executed, continues⟩ := (Option.any_eq_true _ _).mp more
  obtain ⟨back, behind, again⟩ := of_decide_eq_true continues
  obtain ⟨u, last, applied⟩ := (Option.any_eq_true _ _).mp again
  exact ⟨s, t, u, run, finished, cursor, lag, .of_execute (fun _ _ _ done => done) executed, back, behind,
    .of_execute (fun _ _ _ done => done) last, of_decide_eq_true applied⟩

/-- A poll that begins while another one is about to write the cursor, and one
that has read the cursor by then. -/
theorem cursor_advances_overlapping :
    (∃ s t : Subscriber (List String), Run (HeedfulStep List.cons) (start [("a", "")] none [])
        [.poll 0, .step 0, .step 0, .step 0, .poll 1] s ∧
      Run (HeedfulStep List.cons) s [.step 0] t ∧ s.cursor ≤ t.cursor ∧ t.lag ≤ s.lag) ∧
    ∃ s s' : Subscriber (List String), Run (Step List.cons) (start [("a", "")] none [])
        [.poll 0, .step 0, .step 0, .step 0, .poll 1, .step 1] s ∧ s.Step List.cons (.step 0) s' ∧
      ∃ other later t u, Run (Step List.cons) s' later t ∧ (∀ taken ∈ later, taken = .step other) ∧
        t.Step List.cons (.step other) u ∧ t.Breaks u := by
  have whole := @cursor_advances _ List.cons [("a", "")] none ([] : List String)
  constructor
  · have beginning : ∃ s, Run (HeedfulStep List.cons) (start [("a", "")] none ([] : List String))
        [.poll 0, .step 0, .step 0, .step 0, .poll 1] s ∧ (∃ t, s.Step List.cons (.step 0) t) ∧
          ∀ other ≠ 0, ∀ poll, s.poll other = some poll → poll = .starting := by
      refine ⟨_, .cons ⟨rfl, trivial⟩ (.cons ⟨rfl, fun _ _ running => by cases running⟩
        (.cons ⟨rfl, fun _ _ running => by cases running⟩ (.cons ⟨rfl, fun _ _ running => by cases running⟩
          (.cons ⟨rfl, trivial⟩ .start)))), ⟨_, rfl⟩, fun other different poll running => ?_⟩
      by_cases second : other = 1
      · subst second
        exact (Option.some.inj running).symm
      · simp [Function.update, second, different, start] at running
    obtain ⟨s, run, ⟨t, taken⟩, starting⟩ := beginning
    have heedful : s.Heedful (.step 0) := fun _ _ _ _ other different poll running => by
      rw [starting other different poll running]
      trivial
    obtain ⟨cursor, lag, _⟩ := whole.1 _ s _ t run (.single ⟨taken, heedful⟩)
    exact ⟨s, t, run, .single ⟨taken, heedful⟩, cursor, lag (by simp)⟩
  · have reading : ∃ s, Run (Step List.cons) (start [("a", "")] none ([] : List String))
        [.poll 0, .step 0, .step 0, .step 0, .poll 1, .step 1] s ∧
          (s.poll 0 = some (.applying [⟨1, "a", ""⟩] []) ∧ s.poll 1 = some (.selecting 0)) :=
      Run.exists_of_execute (fun _ _ _ done => done) (by decide +kernel)
    obtain ⟨s, run, writing, stale⟩ := reading
    have heedless : ¬ s.Heedful (.step 0) := fun heedful =>
      Nat.not_succ_le_zero 0 (heedful _ _ writing rfl 1 Nat.one_ne_zero _ stale)
    have taken : ∃ s', s.Step List.cons (.step 0) s' :=
      ⟨_, by simp only [Step, perform, writing, Option.bind_some, Poll.advance, Option.map_some]; rfl⟩
    obtain ⟨s', taken⟩ := taken
    exact ⟨s, s', run, taken, whole.2 _ s _ s' run taken heedless⟩

end Subscriber
end InvalidationBus
end UrlShortener
