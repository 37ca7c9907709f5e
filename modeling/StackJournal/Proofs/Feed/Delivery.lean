import StackJournal.Feed
import StackJournal.Proofs.Log.Opened
import StackJournal.Proofs.Plan
import StackJournal.Store

/-! # What a feed delivers

A feed owes the events from its next position to its end. A pull hands out the first of them,
whatever the store returned for a section at a time, and the log may grow between two pulls. So the
events of a slice of the log are delivered once each and in order, with one read for each at most.
-/
namespace StackJournal

/-- A store that hands out the events of its log in order. It may return fewer events than it was
asked for, but one at least if there is one. -/
structure Pages {σ : Type} (answers : Answers σ) (log : σ → Log) : Prop where
  last : ∀ state, (answers .last state).1 = .ok (log state).lastPosition
  last_log : ∀ state, log (answers .last state).2 = log state
  read : ∀ state position limit, ∃ events, (answers (.read position limit) state).1 = .ok events ∧
    events <+: (log state).readFrom position limit ∧
    ((log state).readFrom position limit ≠ [] → events ≠ [])
  read_log : ∀ state position limit, log (answers (.read position limit) state).2 = log state

structure Complete {σ : Type} (answers : Answers σ) (log : σ → Log) : Prop where
  last : ∀ state, (answers .last state).1 = .ok (log state).lastPosition
  last_log : ∀ state, log (answers .last state).2 = log state
  read : ∀ state position limit,
    (answers (.read position limit) state).1 = .ok ((log state).readFrom position limit)
  read_log : ∀ state position limit, log (answers (.read position limit) state).2 = log state

theorem Complete.pages {σ : Type} {answers : Answers σ} {log : σ → Log}
    (complete : Complete answers log) : Pages answers log where
  last := complete.last
  last_log := complete.last_log
  read state position limit :=
    ⟨_, complete.read state position limit, List.prefix_refl _, fun some => some⟩
  read_log := complete.read_log

namespace Feed

variable {feed : Feed} {log longer : Log}

def due (feed : Feed) (log : Log) : List Event :=
  (log.events.toList.take feed.last).drop (feed.next - 1)

/-- A feed that can go on: it holds the first of the events that it owes. -/
structure Running (feed : Feed) (log : Log) : Prop where
  sound : feed.failed = false
  some : 1 ≤ feed.size
  started : 1 ≤ feed.next
  within : feed.last ≤ log.lastPosition
  held : feed.held <+: feed.due log
  positions : (feed.due log).map (·.position) = List.range' feed.next (feed.last + 1 - feed.next)

theorem due_eq_of_extends (h : longer.Extends log) (hlast : feed.last ≤ log.lastPosition) :
    feed.due longer = feed.due log := by
  obtain ⟨more, hmore⟩ := h
  have hlength : feed.last ≤ log.events.toList.length := hlast
  rw [due, due, ← hmore, List.take_append_of_le_length hlength]

theorem Running.extend (h : feed.Running log) (hlonger : longer.Extends log) :
    feed.Running longer := by
  have hdue := due_eq_of_extends hlonger h.within
  exact ⟨h.sound, h.some, h.started, h.within.trans hlonger.length_le, hdue ▸ h.held,
    hdue ▸ h.positions⟩

theorem Running.length_due (h : feed.Running log) :
    (feed.due log).length = feed.last + 1 - feed.next := by
  have hlength := congrArg List.length h.positions
  rwa [List.length_map, List.length_range'] at hlength

theorem Running.due_eq_nil (h : feed.Running log) (hover : feed.last < feed.next) :
    feed.due log = [] := by
  rw [← List.length_eq_zero_iff, h.length_due]
  omega

theorem Running.due_ne_nil (h : feed.Running log) (hnext : feed.next ≤ feed.last) :
    feed.due log ≠ [] := by
  rw [← List.length_pos_iff, h.length_due]
  omega

/-- The first event owed is the next one, and the others follow it. -/
theorem Running.positions_cons (h : feed.Running log) {event : Event} {rest : List Event}
    (hdue : feed.due log = event :: rest) : event.position = feed.next ∧
      rest.map (·.position) = List.range' (feed.next + 1) (feed.last + 1 - (feed.next + 1)) := by
  have hpositions := h.positions
  have hlength := h.length_due
  rw [hdue, List.length_cons] at hlength
  have hspan : feed.last + 1 - feed.next = (feed.last + 1 - (feed.next + 1)) + 1 := by omega
  rw [hdue, hspan, List.range'_succ, List.map_cons] at hpositions
  exact List.cons.inj hpositions

/-- What is read is the first of what is owed. -/
theorem readFrom_prefix_due (hstarted : 1 ≤ feed.next) {limit : Nat}
    (hlimit : limit ≤ feed.last + 1 - feed.next) :
    log.readFrom feed.next limit <+: feed.due log := by
  have hlast : limit ≤ feed.last - (feed.next - 1) := by omega
  rw [log.readFrom_eq, due, List.drop_take, ← Nat.min_eq_left hlast, ← List.take_take]
  exact List.take_prefix _ _

theorem readFrom_ne_nil (hdue : 0 < (feed.due log).length) {limit : Nat} (hlimit : 0 < limit) :
    log.readFrom feed.next limit ≠ [] := by
  rw [← List.length_pos_iff, log.readFrom_eq, List.length_take]
  rw [due, List.drop_take, List.length_take] at hdue
  omega

/-- A feed that handed out an event owes the events after it. -/
theorem Running.handOut (h : feed.Running log) {event : Event} {rest : List Event}
    (hfirst : event :: rest <+: feed.due log) :
    (feed.handOut (event :: rest)).1 = (feed.due log).head? ∧
      (feed.handOut (event :: rest)).2.due log = (feed.due log).tail ∧
      (feed.handOut (event :: rest)).2.Running log := by
  obtain ⟨later, hdue⟩ := hfirst
  rw [List.cons_append] at hdue
  obtain ⟨hposition, hothers⟩ := h.positions_cons hdue.symm
  have hstarted := h.started
  have hnext : event.position + 1 - 1 = (feed.next - 1) + 1 := by omega
  have htail : (feed.handOut (event :: rest)).2.due log = rest ++ later := by
    have hdrop : (log.events.toList.take feed.last).drop (feed.next - 1) =
        event :: (rest ++ later) := hdue.symm
    rw [Feed.handOut, due, hnext, ← List.drop_drop, hdrop]
    rfl
  refine ⟨?_, ?_, h.sound, h.some, ?_, h.within, ?_, ?_⟩
  · rw [← hdue]
    rfl
  · rw [htail, ← hdue]
    rfl
  · show 1 ≤ event.position + 1
    omega
  · rw [htail]
    exact List.prefix_append rest later
  · rw [htail, hothers, ← hposition]
    rfl

theorem pull_held (hsound : feed.failed = false) (hheld : feed.held ≠ []) :
    feed.pull =
      .done ((feed.handOut feed.held).1.map .ok, (feed.handOut feed.held).2) := by
  rw [pull, hsound, if_neg Bool.false_ne_true, if_pos (Or.inl hheld)]
  rfl

theorem pull_over (hsound : feed.failed = false) (hheld : feed.held = [])
    (hover : feed.last < feed.next) : feed.pull = .done (none, feed) := by
  have hsame : (feed.handOut []).2 = feed := by rw [Feed.handOut, ← hheld]
  rw [pull, hsound, if_neg Bool.false_ne_true, if_pos (Or.inr hover), hheld, ← hsame]
  rfl

theorem pull_fetch (hsound : feed.failed = false) (hheld : feed.held = [])
    (hnext : feed.next ≤ feed.last) : feed.pull =
      .ask (.read feed.next (min (feed.last + 1 - feed.next) feed.size)) fun reply =>
        match reply with
        | .ok fetched => .done ((feed.handOut fetched).1.map .ok, (feed.handOut fetched).2)
        | .error error => .done (some (.error error), { feed with failed := true }) := by
  have hmore : ¬(feed.held ≠ [] ∨ feed.last < feed.next) := by
    rintro (h | h)
    · exact h hheld
    · omega
  rw [pull, hsound, if_neg Bool.false_ne_true, if_neg hmore]
  refine congrArg (Plan.ask _) (funext fun reply => ?_)
  cases reply <;> rfl

section Store

variable {σ : Type} {answers : Answers σ} {log : σ → Log} {state : σ}

structure Pulled (answers : Answers σ) (log : σ → Log) (feed : Feed) (state : σ) : Prop where
  /-- The first event owed is handed out, or nothing if none is owed. -/
  outcome : (feed.pull.run answers state).1.1 = (feed.due (log state)).head?.map .ok
  due : (feed.pull.run answers state).1.2.due (log state) = (feed.due (log state)).tail
  running : (feed.pull.run answers state).1.2.Running (log state)
  log_eq : log (feed.pull.run answers state).2 = log state
  reads : ∀ request ∈ feed.pull.asked answers state, ∃ position limit, request = .read position limit
  few : (feed.pull.asked answers state).length ≤ ((feed.due (log state)).take 1).length

theorem Running.fetch (pages : Pages answers log) {state : σ} (h : feed.Running (log state))
    (hheld : feed.held = []) (hnext : feed.next ≤ feed.last) : Pulled answers log feed state := by
  have hpull := pull_fetch h.sound hheld hnext
  have hlength := h.length_due
  obtain ⟨fetched, hreply, hpart, hsome⟩ :=
    pages.read state feed.next (min (feed.last + 1 - feed.next) feed.size)
  have hsame := pages.read_log state feed.next (min (feed.last + 1 - feed.next) feed.size)
  have hfetched : fetched ≠ [] := by
    have hsize := h.some
    exact hsome (readFrom_ne_nil (by omega) (by omega))
  obtain ⟨event, rest, rfl⟩ := List.exists_cons_of_ne_nil hfetched
  obtain ⟨houtcome, hdue, hrunning⟩ := h.handOut
    (hpart.trans (readFrom_prefix_due h.started (Nat.min_le_left _ _)))
  have hrun : feed.pull.run answers state =
      (((feed.handOut (event :: rest)).1.map .ok, (feed.handOut (event :: rest)).2),
        (answers (.read feed.next (min (feed.last + 1 - feed.next) feed.size)) state).2) := by
    rw [hpull, Plan.run_ask, hreply]
    rfl
  have hasked : feed.pull.asked answers state =
      [.read feed.next (min (feed.last + 1 - feed.next) feed.size)] := by
    rw [hpull, Plan.asked, hreply]
    rfl
  constructor
  · rw [hrun, houtcome]
  · rw [hrun]
    exact hdue
  · rw [hrun]
    exact hrunning
  · rw [hrun, hsame]
  · rw [hasked]
    intro request hrequest
    exact ⟨_, _, List.mem_singleton.mp hrequest⟩
  · rw [hasked, List.length_take]
    simp only [List.length_singleton]
    omega

theorem Running.pull (pages : Pages answers log) {state : σ} (h : feed.Running (log state)) :
    Pulled answers log feed state := by
  by_cases hheld : feed.held = []
  · by_cases hover : feed.last < feed.next
    · have hnone := h.due_eq_nil hover
      have hpull := pull_over h.sound hheld hover
      constructor <;> rw [hpull]
      · rw [hnone]
        rfl
      · exact hnone ▸ hnone
      · exact h
      · rfl
      · exact fun _ hr => nomatch hr
      · exact Nat.zero_le _
    · exact h.fetch pages hheld (Nat.le_of_not_lt hover)
  · obtain ⟨event, rest, hcons⟩ := List.exists_cons_of_ne_nil hheld
    have hfirst := h.held
    rw [hcons] at hfirst
    obtain ⟨houtcome, hdue, hrunning⟩ := h.handOut hfirst
    have hpull := pull_held h.sound hheld
    rw [hcons] at hpull
    constructor <;> rw [hpull]
    · show ((feed.handOut (event :: rest)).1).map Except.ok = _
      rw [houtcome]
    · exact hdue
    · exact hrunning
    · rfl
    · exact fun _ hr => nomatch hr
    · exact Nat.zero_le _

def begun (size position last : Nat) : Feed := ⟨max size 1, max position 1, last, [], false⟩

theorem run_start {last : Nat} (hlast : (answers .last state).1 = .ok last) (size position : Nat) :
    (Feed.start size position).run answers state =
      (.ok (begun size position last), (answers .last state).2) := by
  show (Plan.ask .last _).run answers state = _
  rw [Plan.run_ask, hlast]
  rfl

theorem due_begun {log : Log} (ordered : log.Ordered) (size position : Nat) :
    (begun size position log.lastPosition).due log =
      log.events.toList.filter (max position 1 ≤ ·.position) := by
  have hnext : max position 1 - 1 = position - 1 := by omega
  have hall : log.events.toList.take log.lastPosition = log.events.toList :=
    List.take_of_length_le (Nat.le_refl _)
  show (log.events.toList.take log.lastPosition).drop (max position 1 - 1) = _
  rw [hnext, hall, ordered.filter_position]

theorem running_begun {log : Log} (ordered : log.Ordered) (size position : Nat) :
    (begun size position log.lastPosition).Running log := by
  refine ⟨rfl, Nat.le_max_right _ _, Nat.le_max_right _ _, Nat.le_refl _, List.nil_prefix, ?_⟩
  rw [due_begun ordered]
  exact ordered.positions_from position

/-- The start leaves the log as it is. -/
theorem begun_start (pages : Pages answers log) (ordered : (log state).Ordered)
    (size position : Nat) :
    (begun size position (log state).lastPosition).Running (log (answers .last state).2) ∧
      (begun size position (log state).lastPosition).due (log (answers .last state).2) =
        (log state).events.toList.filter (max position 1 ≤ ·.position) := by
  rw [pages.last_log]
  exact ⟨running_begun ordered size position, due_begun ordered size position⟩

/-- A feed that has just started owes the slice of the log from its start on. -/
theorem exists_start (pages : Pages answers log) {state : σ} (ordered : (log state).Ordered)
    (size position : Nat) :
    ∃ feed, (Feed.start size position).run answers state = (.ok feed, (answers .last state).2) ∧
      feed.due (log state) = (log state).events.toList.filter (max position 1 ≤ ·.position) ∧
      feed.next = max position 1 ∧ feed.last = (log state).lastPosition ∧
      feed.Running (log state) :=
  ⟨_, run_start (pages.last state) size position, due_begun ordered size position, rfl, rfl,
    running_begun ordered size position⟩

/-- Pulls one after another, with what others do to the store before each. For each pull its outcome
and the requests that it asked. -/
def pulls (answers : Answers σ) : (others : List (σ → σ)) → Feed → σ →
    List (Option (Except StoreError Event) × List Request)
  | [], _, _ => []
  | other :: others, feed, state =>
    let pulled := feed.pull.run answers (other state)
    (pulled.1.1, feed.pull.asked answers (other state)) :: pulls answers others pulled.1.2 pulled.2

section Pulls

variable {others : List (σ → σ)}
variable (grows : ∀ other ∈ others, ∀ state, (log (other state)).Extends (log state))

include grows

/-- Pulls hand out what is owed, and after that nothing, whatever is appended between them. -/
theorem Running.pulls (pages : Pages answers log) {state : σ} (h : feed.Running (log state)) :
    (feed.pulls answers others state).map Prod.fst =
      (List.range others.length).map ((feed.due (log state))[·]?.map .ok) ∧
    (∀ request ∈ (feed.pulls answers others state).flatMap Prod.snd,
      ∃ position limit, request = .read position limit) ∧
    ((feed.pulls answers others state).flatMap Prod.snd).length ≤ (feed.due (log state)).length := by
  induction others generalizing feed state with
  | nil => exact ⟨rfl, fun _ hr => absurd hr List.not_mem_nil, Nat.zero_le _⟩
  | cons other others ih =>
    have hgrown := grows other List.mem_cons_self state
    have hdue := due_eq_of_extends hgrown h.within
    have hpulled := (h.extend hgrown).pull pages
    have hrunning := hpulled.running
    have hlater := hpulled.due
    have hfew := hpulled.few
    rw [hdue] at hlater hfew
    rw [← hpulled.log_eq] at hrunning hlater
    obtain ⟨houtcomes, hreads, hcount⟩ :=
      ih (fun f hf => grows f (List.mem_cons_of_mem other hf)) hrunning
    rw [hlater] at houtcomes hcount
    refine ⟨?_, ?_, ?_⟩
    · rw [Feed.pulls, List.map_cons, houtcomes, hpulled.outcome, hdue, List.length_cons,
        List.range_succ_eq_map, List.map_cons, List.map_map, List.head?_eq_getElem?]
      refine congrArg (_ :: ·) (List.map_congr_left fun i _ => ?_)
      rw [Function.comp_apply, List.getElem?_tail]
    · rw [Feed.pulls, List.flatMap_cons]
      intro request hrequest
      rcases List.mem_append.mp hrequest with hrequest | hrequest
      · exact hpulled.reads request hrequest
      · exact hreads request hrequest
    · rw [List.length_take] at hfew
      rw [List.length_tail] at hcount
      rw [Feed.pulls, List.flatMap_cons, List.length_append]
      simp only
      omega

/-- A feed delivers the events from its start to the end that the log had then, once each and in
order, and after that nothing. It does so with any size of section, however little a read returns,
and whatever is appended between its pulls, and it reads no oftener than it delivers. -/
theorem delivers_slice (pages : Pages answers log) {state : σ} (ordered : (log state).Ordered)
    (size position : Nat) :
    ∃ feed after, (Feed.start size position).run answers state = (.ok feed, after) ∧
      let slice := (log state).events.toList.filter (max position 1 ≤ ·.position)
      slice.map (·.position) = List.range' (max position 1)
        ((log state).lastPosition + 1 - max position 1) ∧
      (feed.pulls answers others after).map Prod.fst =
        (List.range others.length).map (slice[·]?.map .ok) ∧
      (∀ request ∈ (feed.pulls answers others after).flatMap Prod.snd,
        ∃ position limit, request = .read position limit) ∧
      ((feed.pulls answers others after).flatMap Prod.snd).length ≤ slice.length := by
  obtain ⟨feed, hstart, hdue, hnext, hlast, hrunning⟩ :=
    exists_start pages ordered size position
  have hpositions := hrunning.positions
  rw [hdue, hnext, hlast] at hpositions
  rw [← pages.last_log state] at hdue hrunning
  obtain ⟨houtcomes, hreads, hcount⟩ := hrunning.pulls grows pages
  rw [hdue, pages.last_log state] at houtcomes hcount
  exact ⟨feed, _, hstart, hpositions, houtcomes, hreads, hcount⟩

end Pulls

end Store

end Feed

namespace Log

def sparing (most : Nat) : Answers Log := fun request log =>
  let answered := Troubled.answers (fun request log => log.answers .epoch request) request
    ⟨log, { Trouble.calm with readLimit := some most }, #[]⟩
  (answered.1, answered.2.store)

theorem pages_sparing {most : Nat} (hmost : 0 < most) : Pages (sparing most) id where
  last _ := rfl
  last_log _ := rfl
  read log position limit := by
    refine ⟨log.readFrom position (min limit most), rfl, ?_, ?_⟩
    · rw [id_eq, readFrom_eq, readFrom_eq, Nat.min_comm, ← List.take_take]
      exact List.take_prefix _ _
    · rw [id_eq, readFrom_eq, readFrom_eq]
      intro hsome
      rw [← List.length_pos_iff, List.length_take] at hsome ⊢
      omega
  read_log _ _ _ := rfl

end Log

namespace Feed

def shortLog : Log := (Log.empty.run [(.epoch, ⟨⟨0⟩, 0, .create, none⟩),
  (.epoch, ⟨⟨1⟩, 0, .create, none⟩), (.epoch, ⟨⟨0⟩, 1, .kapp .zero, none⟩)]).2

def oneMore (log : Log) : Log := (log.append .epoch ⟨0⟩ 2 (.kapp .dup) none).2

theorem extends_oneMore (log : Log) : (oneMore log).Extends log :=
  log.extends_append .epoch ⟨⟨0⟩, 2, .kapp .dup, none⟩

/-- Of three events the last two are delivered, one a read, and the fourth is left to others. -/
theorem slice_delivered : Pages (Log.sparing 1) id ∧ shortLog.Ordered ∧
    (∀ other ∈ [id, oneMore, id], ∀ log, (other log).Extends log) ∧
    ∃ feed after, (Feed.start 5 2).run (Log.sparing 1) shortLog = (.ok feed, after) ∧
      (feed.pulls (Log.sparing 1) [id, oneMore, id] after).map Prod.fst =
        [some (.ok ⟨⟨1⟩, 1, .create, none, 2, .epoch⟩),
          some (.ok ⟨⟨0⟩, 2, .kapp .zero, none, 3, .epoch⟩), none] := by
  have pages := Log.pages_sparing Nat.one_pos
  have ordered : shortLog.Ordered := Log.ordered_empty.run _
  have grows : ∀ other ∈ [id, oneMore, id], ∀ log : Log, (other log).Extends log := by
    simp only [List.forall_mem_cons]
    exact ⟨fun _ => List.prefix_refl _, extends_oneMore, fun _ => List.prefix_refl _,
      fun _ ho => nomatch ho⟩
  obtain ⟨feed, after, hstart, _, houtcomes, _⟩ := delivers_slice grows pages ordered 5 2
  exact ⟨pages, ordered, grows, feed, after, hstart, houtcomes⟩

end Feed

end StackJournal
