import Mathlib.Algebra.Order.Floor.Div
import StackJournal.Proofs.Feed.Delivery

/-! # Sections

A feed asks for a section when it holds nothing, and hands out the whole of it before it asks again.
So the pulls that read are told by their number alone, and a read that fails is met after a whole
number of sections.
-/
namespace StackJournal

structure Faulty (σ : Type) where
  store : σ
  reads : Nat

namespace Faulty

variable {σ : Type}

def answers (inner : Answers σ) (failure : Nat → Option StoreError) : Answers (Faulty σ)
  | .read position limit, state =>
    match failure state.reads with
    | some error => (.error error, { state with reads := state.reads + 1 })
    | none =>
      let (reply, store) := inner (.read position limit) state.store
      (reply, ⟨store, state.reads + 1⟩)
  | request, state =>
    let (reply, store) := inner request state.store
    (reply, { state with store })

def meanwhile (other : σ → σ) (state : Faulty σ) : Faulty σ :=
  { state with store := other state.store }

section Read

variable (inner : Answers σ) {failure : Nat → Option StoreError} {state : Faulty σ}

theorem answers_read_failed {error : StoreError} (h : failure state.reads = some error)
    (position limit : Nat) : answers inner failure (.read position limit) state =
      (.error error, ⟨state.store, state.reads + 1⟩) := by
  rw [answers, h]

theorem answers_read (h : failure state.reads = none) (position limit : Nat) :
    answers inner failure (.read position limit) state =
      ((inner (.read position limit) state.store).1,
        ⟨(inner (.read position limit) state.store).2, state.reads + 1⟩) := by
  rw [answers, h]

end Read

end Faulty

namespace Feed

/-- The outcome of the pull with a number, if `stop` events are handed out before a read fails. -/
def outcomeAt (due : List Event) (stop : Nat) (error : StoreError) (number : Nat) :
    Option (Except StoreError Event) :=
  if number < stop then due[number]?.map .ok
  else if number = stop ∧ stop < due.length then some (.error error)
  else none

def readAt (feed : Feed) (number : Nat) : List Request :=
  if feed.held.length ≤ number ∧ feed.next + number ≤ feed.last ∧
      feed.size ∣ number - feed.held.length then
    [.read (feed.next + number) (min (feed.last + 1 - (feed.next + number)) feed.size)]
  else []

def trace (feed : Feed) (due : List Event) (stop : Nat) (error : StoreError) (pulls : Nat) :
    List (Option (Except StoreError Event) × List Request) :=
  (List.range pulls).map fun number =>
    (outcomeAt due stop error number, if number ≤ stop then feed.readAt number else [])

def received (pulled : List (Option (Except StoreError Event) × List Request)) : List Event :=
  pulled.filterMap fun entry => entry.1.bind Except.toOption

variable {feed : Feed} {log : Log} {event : Event} {rest : List Event}

theorem outcomeAt_succ (event : Event) (due : List Event) (stop : Nat) (error : StoreError)
    (number : Nat) :
    outcomeAt (event :: due) (stop + 1) error (number + 1) = outcomeAt due stop error number := by
  simp [outcomeAt]

theorem toOption_outcomeAt (due : List Event) (stop : Nat) (error : StoreError) (number : Nat) :
    (outcomeAt due stop error number).bind Except.toOption = (due.take stop)[number]? := by
  rw [outcomeAt, List.getElem?_take]
  split
  · cases due[number]? <;> rfl
  · split <;> rfl

theorem filterMap_range_getElem? {α : Type} (xs : List α) (count : Nat) :
    (List.range count).filterMap (xs[·]?) = xs.take count := by
  induction count with
  | zero => rfl
  | succ count ih =>
    rw [List.range_succ, List.filterMap_append, ih, List.take_add_one]
    rfl

theorem received_trace (feed : Feed) (due : List Event) (stop : Nat) (error : StoreError)
    (pulls : Nat) : received (feed.trace due stop error pulls) = due.take (min pulls stop) := by
  rw [received, trace, List.filterMap_map]
  simp only [Function.comp_def, toOption_outcomeAt]
  rw [filterMap_range_getElem?, List.take_take]

/-- A section holds the first of the events that are owed. -/
theorem readFrom_section (hstarted : 1 ≤ feed.next) :
    log.readFrom feed.next (min (feed.last + 1 - feed.next) feed.size) =
      (feed.due log).take feed.size := by
  have hspan : feed.last + 1 - feed.next = feed.last - (feed.next - 1) := by omega
  rw [log.readFrom_eq, due, List.drop_take, List.take_take, hspan, Nat.min_comm]

/-- After a pull that reads nothing the others read as they would have. -/
theorem readAt_handOut_held (hheld : feed.held = event :: rest)
    (hposition : event.position = feed.next) (number : Nat) :
    (feed.handOut (event :: rest)).2.readAt number = feed.readAt (number + 1) := by
  have hnext : event.position + 1 + number = feed.next + (number + 1) := by omega
  have hlength : feed.held.length = rest.length + 1 := by rw [hheld, List.length_cons]
  simp only [handOut, readAt, hnext, hlength, Nat.add_le_add_iff_right, Nat.add_sub_add_right]

/-- After a section was fetched the next is fetched when all of it is handed out. -/
theorem readAt_handOut_fetched (h : feed.Running log) (hheld : feed.held = [])
    (hdue : feed.due log = event :: rest) (number : Nat) :
    (feed.handOut (event :: rest.take (feed.size - 1))).2.readAt number =
      feed.readAt (number + 1) := by
  have hposition := (h.positions_cons hdue).1
  have hlength := h.length_due
  rw [hdue, List.length_cons] at hlength
  have hsize := h.some
  have hnext : event.position + 1 + number = feed.next + (number + 1) := by omega
  have hcases : (min (feed.size - 1) rest.length ≤ number ∧ feed.next + (number + 1) ≤ feed.last ∧
        feed.size ∣ number - min (feed.size - 1) rest.length) ↔
      0 ≤ number + 1 ∧ feed.next + (number + 1) ≤ feed.last ∧ feed.size ∣ number + 1 - 0 := by
    constructor
    · rintro ⟨hle, hlast, hdvd⟩
      have hfull : min (feed.size - 1) rest.length = feed.size - 1 := by omega
      rw [hfull] at hle hdvd
      have hsum : number + 1 - 0 = number - (feed.size - 1) + feed.size := by omega
      exact ⟨Nat.zero_le _, hlast, hsum ▸ Nat.dvd_add_self_right.mpr hdvd⟩
    · rintro ⟨_, hlast, hdvd⟩
      have hle : feed.size ≤ number + 1 := Nat.le_of_dvd (Nat.succ_pos number) hdvd
      have hfull : min (feed.size - 1) rest.length = feed.size - 1 := by omega
      have hrest : number - (feed.size - 1) = number + 1 - feed.size := by omega
      rw [hfull, hrest]
      exact ⟨by omega, hlast, Nat.dvd_sub hdvd (Nat.dvd_refl _)⟩
  simp only [handOut, readAt, hheld, hnext, List.length_take, List.length_nil, hcases]

section Faulty

variable {σ : Type} {answers : Answers σ} {log : σ → Log} {failure : Nat → Option StoreError}
variable {state : Faulty σ} {error : StoreError}

/-- After a failed read nothing is handed out and nothing is read. -/
theorem pulls_failed {others : List (σ → σ)} {answers : Answers σ} {state : σ}
    (failed : feed.failed = true) :
    feed.pulls answers others state = List.replicate others.length (none, []) := by
  induction others generalizing state with
  | nil => rfl
  | cons other others ih =>
    have hpull : feed.pull = .done (none, feed) := by
      rw [pull, if_pos failed]
      rfl
    rw [pulls, hpull, List.length_cons, List.replicate_succ]
    exact congrArg ((none, []) :: ·) ih

theorem pulls_cons (answers : Answers σ) (other : σ → σ) (others : List (σ → σ)) (feed : Feed)
    (state : σ) : feed.pulls answers (other :: others) state =
      ((feed.pull.run answers (other state)).1.1, feed.pull.asked answers (other state)) ::
        (feed.pull.run answers (other state)).1.2.pulls answers others
          (feed.pull.run answers (other state)).2 := rfl

theorem trace_succ (feed : Feed) (due : List Event) (stop : Nat) (error : StoreError)
    (pulls : Nat) : feed.trace due stop error (pulls + 1) =
      (outcomeAt due stop error 0, feed.readAt 0) :: (List.range pulls).map fun number =>
        (outcomeAt due stop error (number + 1),
          if number + 1 ≤ stop then feed.readAt (number + 1) else []) := by
  rw [trace, List.range_succ_eq_map, List.map_cons, List.map_map, if_pos (Nat.zero_le stop)]
  rfl

/-- The trace goes on behind a pull that hands out an event. -/
theorem trace_cons {next : Feed} (hread : ∀ number, next.readAt number = feed.readAt (number + 1))
    (event : Event) (due : List Event) (stop : Nat) (error : StoreError) (pulls : Nat) :
    feed.trace (event :: due) (stop + 1) error (pulls + 1) =
      (some (.ok event), feed.readAt 0) :: next.trace due stop error pulls := by
  rw [trace_succ, trace]
  refine congrArg₂ List.cons (by simp [outcomeAt]) (List.map_congr_left fun number _ => ?_)
  rw [outcomeAt_succ, hread]
  simp only [Nat.add_le_add_iff_right]

/-- Where nothing is owed nothing comes of any pull. -/
theorem trace_over (hover : feed.last < feed.next) (stop : Nat) (error : StoreError)
    (pulls : Nat) : feed.trace [] stop error pulls = List.replicate pulls (none, []) := by
  rw [trace, List.eq_replicate_iff, List.length_map, List.length_range]
  refine ⟨rfl, fun entry hentry => ?_⟩
  obtain ⟨number, _, rfl⟩ := List.mem_map.mp hentry
  have hnone : ¬feed.next + number ≤ feed.last := by omega
  simp [outcomeAt, readAt, hnone]

/-- A read that fails at once ends all. -/
theorem trace_zero {due : List Event} (hdue : due ≠ []) (error : StoreError) (pulls : Nat) :
    feed.trace due 0 error (pulls + 1) =
      (some (.error error), feed.readAt 0) :: List.replicate pulls (none, []) := by
  have hlength : 0 < due.length := List.length_pos_iff.mpr hdue
  rw [trace_succ, List.cons.injEq, List.eq_replicate_iff, List.length_map, List.length_range]
  refine ⟨by simp [outcomeAt, hlength], rfl, fun entry hentry => ?_⟩
  obtain ⟨number, _, rfl⟩ := List.mem_map.mp hentry
  simp [outcomeAt]

theorem readAt_zero (hheld : feed.held = []) (hnext : feed.next ≤ feed.last) : feed.readAt 0 =
    [.read feed.next (min (feed.last + 1 - feed.next) feed.size)] := by
  simp [readAt, hheld, hnext]

theorem readAt_zero_held (hheld : feed.held ≠ []) : feed.readAt 0 = [] := by
  simp [readAt, hheld]

/-- A pull that fetches a section and gets it. -/
theorem pull_section (complete : Complete answers log)
    (h : feed.Running (log state.store)) (hheld : feed.held = [])
    (hdue : feed.due (log state.store) = event :: rest) (sound : failure state.reads = none) :
    let next := (feed.handOut (event :: rest.take (feed.size - 1))).2
    ∃ after, log after = log state.store ∧
      feed.pull.run (Faulty.answers answers failure) state =
        ((some (.ok event), next), ⟨after, state.reads + 1⟩) ∧
      feed.pull.asked (Faulty.answers answers failure) state = feed.readAt 0 ∧
      next.Running (log state.store) ∧ next.due (log state.store) = rest := by
  intro next
  have hlength := h.length_due
  rw [hdue, List.length_cons] at hlength
  have hnext : feed.next ≤ feed.last := by omega
  have hpull := pull_fetch h.sound hheld hnext
  have htake : event :: rest.take (feed.size - 1) = (feed.due (log state.store)).take feed.size := by
    obtain ⟨size, hsize⟩ := Nat.exists_eq_add_of_le' h.some
    rw [hdue, hsize, List.take_succ_cons, Nat.add_sub_cancel]
  have hanswer := Faulty.answers_read answers sound feed.next
    (min (feed.last + 1 - feed.next) feed.size)
  rw [complete.read, readFrom_section h.started, ← htake] at hanswer
  obtain ⟨_, hlater, hrunning⟩ := h.handOut (htake ▸ List.take_prefix _ _)
  refine ⟨_, complete.read_log state.store feed.next (min (feed.last + 1 - feed.next) feed.size),
    ?_, ?_, hrunning, ?_⟩
  · rw [hpull, Plan.run_ask, hanswer]
    rfl
  · rw [hpull, Plan.asked, hanswer, readAt_zero hheld hnext]
    rfl
  · rw [hlater, hdue, List.tail_cons]

/-- A pull that fetches a section and gets an error. -/
theorem pull_failed (answers : Answers σ) (h : feed.Running (log state.store)) (hheld : feed.held = [])
    (hnext : feed.next ≤ feed.last) (fails : failure state.reads = some error) :
    feed.pull.run (Faulty.answers answers failure) state =
        ((some (.error error), { feed with failed := true }), ⟨state.store, state.reads + 1⟩) ∧
      feed.pull.asked (Faulty.answers answers failure) state = feed.readAt 0 := by
  have hpull := pull_fetch h.sound hheld hnext
  have hanswer := Faulty.answers_read_failed answers fails feed.next
    (min (feed.last + 1 - feed.next) feed.size)
  constructor
  · rw [hpull, Plan.run_ask, hanswer]
    rfl
  · rw [hpull, Plan.asked, hanswer, readAt_zero hheld hnext]
    rfl

/-- How many pulls hand out an event, if `answered` reads are answered before one fails. -/
def reach (feed : Feed) (answered owed : Nat) : Nat :=
  min owed (feed.held.length + answered * feed.size)

theorem reach_held {held : List Event} (hheld : feed.held = event :: held) (answered owed : Nat) :
    feed.reach answered (owed + 1) = (feed.handOut (event :: held)).2.reach answered owed + 1 := by
  simp only [reach, handOut, hheld, List.length_cons]
  omega

theorem reach_fetched (hsize : 1 ≤ feed.size) (hheld : feed.held = []) (event : Event)
    (rest : List Event) (answered : Nat) : feed.reach (answered + 1) (rest.length + 1) =
      (feed.handOut (event :: rest.take (feed.size - 1))).2.reach answered rest.length + 1 := by
  simp only [reach, handOut, hheld, List.length_nil, List.length_take, Nat.succ_mul]
  omega

/-- What a pull can come to, if `answered` more reads are answered before one fails. -/
inductive FaultyPull (log : σ → Log) (failure : Nat → Option StoreError) (error : StoreError)
    (feed : Feed) (state : Faulty σ) (answered : Nat) :
    (Option (Except StoreError Event) × Feed) × Faulty σ → Prop where
  | spent (owed : feed.due (log state.store) = []) (past : feed.last < feed.next) :
      FaultyPull log failure error feed state answered ((none, feed), state)
  | handed {event : Event} {rest : List Event} {next : Feed} {after : Faulty σ} {left : Nat}
      (owed : feed.due (log state.store) = event :: rest)
      (later : next.due (log after.store) = rest) (running : next.Running (log after.store))
      (reads : ∀ number, next.readAt number = feed.readAt (number + 1))
      (reach : feed.reach answered (rest.length + 1) = next.reach left rest.length + 1)
      (sound : ∀ read < left, failure (after.reads + read) = none)
      (same : after.reads + left = state.reads + answered) :
      FaultyPull log failure error feed state answered ((some (.ok event), next), after)
  | failed {after : Faulty σ} (owed : feed.due (log state.store) ≠ [])
      (reach : feed.reach answered (feed.due (log state.store)).length = 0) :
      FaultyPull log failure error feed state answered
        ((some (.error error), { feed with failed := true }), after)

theorem faultyPull_held (h : feed.Running (log state.store)) (hheld : feed.held ≠ [])
    {answered : Nat} (sound : ∀ read < answered, failure (state.reads + read) = none) :
    FaultyPull log failure error feed state answered
        (feed.pull.run (Faulty.answers answers failure) state) ∧
      feed.pull.asked (Faulty.answers answers failure) state = feed.readAt 0 := by
  obtain ⟨event, held, hcons⟩ := List.exists_cons_of_ne_nil hheld
  have hpull := pull_held h.sound hheld
  have hfirst := h.held
  rw [hcons] at hpull hfirst
  obtain ⟨_, hlater, hrunning⟩ := h.handOut hfirst
  obtain ⟨more, hdue⟩ := hfirst
  rw [← hdue, List.cons_append, List.tail_cons] at hlater
  rw [hpull]
  refine ⟨.handed hdue.symm hlater hrunning ?_ (reach_held hcons answered _) sound rfl, ?_⟩
  · exact readAt_handOut_held hcons (h.positions_cons hdue.symm).1
  · exact (readAt_zero_held hheld).symm

theorem faultyPull_section (complete : Complete answers log) (h : feed.Running (log state.store))
    (hheld : feed.held = []) (hnext : feed.next ≤ feed.last) {answered : Nat}
    (sound : ∀ read < answered, failure (state.reads + read) = none)
    (fails : feed.reach answered (feed.due (log state.store)).length <
      (feed.due (log state.store)).length → failure (state.reads + answered) = some error) :
    FaultyPull log failure error feed state answered
        (feed.pull.run (Faulty.answers answers failure) state) ∧
      feed.pull.asked (Faulty.answers answers failure) state = feed.readAt 0 := by
  have howed := h.due_ne_nil hnext
  cases answered with
  | zero =>
    have hnone : feed.reach 0 (feed.due (log state.store)).length = 0 := by
      rw [reach, hheld, List.length_nil, Nat.zero_mul, Nat.min_zero]
    have hfails : failure state.reads = some error := by
      refine fails ?_
      rw [hnone]
      exact List.length_pos_iff.mpr howed
    obtain ⟨hrun, hasked⟩ := pull_failed answers h hheld hnext hfails
    rw [hrun]
    exact ⟨.failed howed hnone, hasked⟩
  | succ answered =>
    obtain ⟨event, rest, hdue⟩ := List.exists_cons_of_ne_nil howed
    obtain ⟨after, hlog, hrun, hasked, hrunning, hlater⟩ :=
      pull_section complete h hheld hdue (sound 0 (Nat.succ_pos _))
    rw [← hlog] at hrunning hlater
    have hshift : ∀ read, state.reads + 1 + read = state.reads + (read + 1) := by omega
    rw [hrun]
    refine ⟨.handed hdue hlater hrunning (readAt_handOut_fetched h hheld hdue)
      (reach_fetched h.some hheld event rest answered) ?_ (hshift answered), hasked⟩
    intro read hread
    exact hshift read ▸ sound (read + 1) (Nat.succ_lt_succ hread)

theorem faultyPull (complete : Complete answers log) (h : feed.Running (log state.store))
    {answered : Nat} (sound : ∀ read < answered, failure (state.reads + read) = none)
    (fails : feed.reach answered (feed.due (log state.store)).length <
      (feed.due (log state.store)).length → failure (state.reads + answered) = some error) :
    FaultyPull log failure error feed state answered
        (feed.pull.run (Faulty.answers answers failure) state) ∧
      feed.pull.asked (Faulty.answers answers failure) state = feed.readAt 0 := by
  by_cases hheld : feed.held = []
  · by_cases hover : feed.last < feed.next
    · have hnone := h.due_eq_nil hover
      have hread : feed.readAt 0 = [] := by simp [readAt, hover]
      rw [pull_over h.sound hheld hover, hread]
      exact ⟨.spent hnone hover, rfl⟩
    · exact faultyPull_section complete h hheld (Nat.le_of_not_lt hover) sound fails
  · exact faultyPull_held h hheld sound

/-- Of a store whose next reads are answered before one fails, a feed hands out the events it holds
and those of the sections answered, and then the error. -/
theorem pulls_eq_trace (complete : Complete answers log) {others : List (σ → σ)}
    (grows : ∀ other ∈ others, ∀ store, (log (other store)).Extends (log store))
    (h : feed.Running (log state.store)) {answered : Nat}
    (sound : ∀ read < answered, failure (state.reads + read) = none)
    (fails : feed.reach answered (feed.due (log state.store)).length <
      (feed.due (log state.store)).length → failure (state.reads + answered) = some error) :
    feed.pulls (Faulty.answers answers failure) (others.map Faulty.meanwhile) state =
      feed.trace (feed.due (log state.store))
        (feed.reach answered (feed.due (log state.store)).length) error others.length := by
  -- the reads still to be answered go down with each section, so they are generalised too
  induction others generalizing feed state answered with
  | nil => rfl
  | cons other others ih =>
    have hgrown := grows other List.mem_cons_self state.store
    have hsame : feed.due (log (Faulty.meanwhile other state).store) = feed.due (log state.store) :=
      due_eq_of_extends hgrown h.within
    have hlater : feed.Running (log (Faulty.meanwhile other state).store) := h.extend hgrown
    have hgrows : ∀ f ∈ others, ∀ store, (log (f store)).Extends (log store) :=
      fun f hf => grows f (List.mem_cons_of_mem other hf)
    rw [List.map_cons, List.length_cons, pulls_cons, ← hsame]
    rw [← hsame] at fails
    obtain ⟨hpull, hasked⟩ := faultyPull complete hlater sound fails
    rw [hasked]
    generalize feed.pull.run (Faulty.answers answers failure) (Faulty.meanwhile other state) = pulled
      at hpull ⊢
    cases hpull with
    | spent owed past =>
      have hrest := ih hgrows hlater sound fails
      rw [owed, trace_over past] at hrest ⊢
      rw [List.replicate_succ, hrest]
      simp [readAt, past]
    | handed owed later running reads reach soundLater same =>
      rw [owed, List.length_cons, reach] at fails ⊢
      rw [trace_cons reads, ih hgrows running soundLater ?_, later]
      rw [later, same]
      exact fun hless => fails (Nat.succ_lt_succ hless)
    | failed owed reach =>
      rw [reach, trace_zero owed, pulls_failed rfl, List.length_map]

end Faulty

end Feed
end StackJournal
