import StackJournal.Proofs.Feed.Drained
import StackJournal.Proofs.Feed.Sections

/-! # When a feed reads

A feed reads as late as it can: whoever was handed some events has caused as many reads as these
events fill sections, and a feed that is drained reads no more than that. The sums and differences
that a feed takes are small enough for 64 bits, as long as the number of events is.
-/
namespace StackJournal

section Rounded

variable {size : Nat}

theorem ceilDiv_succ (hsize : 0 < size) (number : Nat) :
    (number + 1) ⌈/⌉ size = number ⌈/⌉ size + if size ∣ number then 1 else 0 := by
  have hsum : number + 1 + size - 1 = number + size - 1 + 1 := by omega
  have hlast : number + size - 1 + 1 = number + size := by omega
  rw [Nat.ceilDiv_eq_add_pred_div, Nat.ceilDiv_eq_add_pred_div, hsum, Nat.succ_div]
  simp only [hlast, Nat.dvd_add_self_right]

theorem ceilDiv_mul_of_dvd (hsize : 0 < size) {number : Nat} (h : size ∣ number) :
    number ⌈/⌉ size * size = number := by
  obtain ⟨count, rfl⟩ := h
  have hcount : size * count ⌈/⌉ size = count := smul_ceilDiv hsize count
  rw [hcount, Nat.mul_comm]

theorem mul_lt_of_lt_ceilDiv (hsize : 0 < size) {number total : Nat}
    (h : number < total ⌈/⌉ size) : number * size < total := by
  rw [← Nat.not_le, ceilDiv_le_iff_le_mul hsize, Nat.not_le] at h
  rwa [Nat.mul_comm]

end Rounded

namespace Feed

/-- The read for the section with a number, of the events from a first position to a last. -/
def sectionRead (size first last number : Nat) : Request :=
  .read (first + number * size) (min size (last + 1 - (first + number * size)))

variable {feed : Feed}

theorem trace_requests_succ (feed : Feed) (due : List Event) (stop : Nat) (error : StoreError)
    (pulls : Nat) : (feed.trace due stop error (pulls + 1)).flatMap Prod.snd =
      (feed.trace due stop error pulls).flatMap Prod.snd ++
        if pulls ≤ stop then feed.readAt pulls else [] := by
  rw [trace, trace, List.range_succ, List.map_append, List.flatMap_append]
  exact congrArg (_ ++ ·) (List.append_nil _)

/-- Pulls that nothing keeps from being answered read a section when all before is handed out. -/
theorem sections_read (hsize : 1 ≤ feed.size) (hheld : feed.held = []) (due : List Event)
    (error : StoreError) (pulls : Nat) :
    (feed.trace due (feed.last + 1 - feed.next) error pulls).flatMap Prod.snd =
      (List.range (min pulls (feed.last + 1 - feed.next) ⌈/⌉ feed.size)).map
        (sectionRead feed.size feed.next feed.last) := by
  induction pulls with
  | zero => rw [Nat.zero_min, zero_ceilDiv]; rfl
  | succ pulls ih =>
    rw [trace_requests_succ, ih]
    by_cases hmore : pulls < feed.last + 1 - feed.next
    · have hwithin : feed.next + pulls ≤ feed.last := by omega
      rw [if_pos hmore.le, Nat.min_eq_left hmore.le, Nat.min_eq_left hmore, ceilDiv_succ hsize]
      -- the rounded quotient goes up just at the multiples of the size, and there a read is due
      by_cases hdvd : feed.size ∣ pulls
      · have hread : feed.readAt pulls =
            [sectionRead feed.size feed.next feed.last (pulls ⌈/⌉ feed.size)] := by
          rw [sectionRead, ceilDiv_mul_of_dvd hsize hdvd, Nat.min_comm]
          simp [readAt, hheld, hwithin, hdvd]
        rw [hread, if_pos hdvd, List.range_succ, List.map_append]
        rfl
      · have hread : feed.readAt pulls = [] := by simp [readAt, hheld, hdvd]
        rw [hread, if_neg hdvd, List.append_nil, Nat.add_zero]
    · have hread : feed.readAt pulls = [] := by
        have hover : ¬feed.next + pulls ≤ feed.last := by omega
        simp [readAt, hover]
      have hmin : min (pulls + 1) (feed.last + 1 - feed.next) =
          min pulls (feed.last + 1 - feed.next) := by omega
      rw [hread, ite_self, List.append_nil, hmin]

end Feed

namespace Faulty

variable {σ : Type} {answers : Answers σ}

/-- A store of which no read fails is the store itself. -/
theorem run_sound {α : Type} (answers : Answers σ) (plan : Plan α) (state : Faulty σ) :
    (plan.run (Faulty.answers answers fun _ => none) state).1 = (plan.run answers state.store).1 ∧
      (plan.run (Faulty.answers answers fun _ => none) state).2.store =
        (plan.run answers state.store).2 ∧
      plan.asked (Faulty.answers answers fun _ => none) state = plan.asked answers state.store := by
  induction plan generalizing state with
  | done value => exact ⟨rfl, rfl, rfl⟩
  | ask request next ih =>
    rw [Plan.run_ask, Plan.run_ask, Plan.asked, Plan.asked]
    cases request <;> exact
      ⟨(ih _ _).1, (ih _ _).2.1, congrArg (_ :: ·) (ih _ _).2.2⟩

theorem pulls_sound (feed : Feed) (others : List (σ → σ)) (state : Faulty σ) :
    feed.pulls (Faulty.answers answers fun _ => none) (others.map meanwhile) state =
      feed.pulls answers others state.store := by
  induction others generalizing feed state with
  | nil => rfl
  | cons other others ih =>
    obtain ⟨houtcome, hstore, hasked⟩ :=
      run_sound answers feed.pull (meanwhile other state)
    rw [List.map_cons, Feed.pulls_cons, Feed.pulls_cons, ih, houtcome, hstore, hasked]
    rfl

end Faulty

namespace Feed

variable {feed : Feed} {σ : Type} {answers : Answers σ} {log : σ → Log} {state : σ}
  {others : List (σ → σ)}

/-- Of a complete store pulls read sections until all that is owed is handed out. -/
theorem pulls_eq_sections (complete : Complete answers log)
    (grows : ∀ other ∈ others, ∀ state, (log (other state)).Extends (log state))
    (h : feed.Running (log state)) (error : StoreError) : feed.pulls answers others state =
      feed.trace (feed.due (log state)) (feed.last + 1 - feed.next) error others.length := by
  have hreach : feed.reach (feed.due (log state)).length (feed.due (log state)).length =
      feed.last + 1 - feed.next := by
    have hmany := Nat.le_mul_of_pos_right (feed.due (log state)).length h.some
    rw [reach, Nat.min_eq_left (by omega), h.length_due]
  rw [← Faulty.pulls_sound feed others ⟨state, 0⟩, ← hreach]
  refine pulls_eq_trace complete grows h (fun _ _ => rfl) fun hless => ?_
  rw [hreach, h.length_due] at hless
  exact absurd hless (Nat.lt_irrefl _)

/-- A feed that is drained reads what as many pulls as it owes events read. -/
theorem Running.asked_collect (pages : Pages answers log) (h : feed.Running (log state)) {fuel : Nat}
    (enough : fuel ≤ (feed.due (log state)).length) (events : List Event) :
    (feed.collect fuel events).asked answers state =
      (feed.pulls answers (List.replicate fuel id) state).flatMap Prod.snd := by
  induction fuel generalizing feed state events with
  | zero => rfl
  | succ fuel ih =>
    obtain ⟨houtcome, hlater, hrunning, hlog, _, _⟩ := h.pull pages
    rw [collect_succ, Plan.asked_bind, List.replicate_succ, pulls_cons, List.flatMap_cons, id_eq]
    refine congrArg (_ ++ ·) ?_
    generalize feed.pull.run answers state = pulled at houtcome hlater hrunning hlog ⊢
    obtain ⟨⟨outcome, next⟩, after⟩ := pulled
    simp only at houtcome hlater hrunning hlog ⊢
    subst houtcome
    cases hdue : feed.due (log state) with
    | nil =>
      rw [hdue] at enough
      exact absurd enough (Nat.not_succ_le_zero fuel)
    | cons event rest =>
      rw [hdue] at hlater enough
      rw [← hlog] at hrunning hlater
      have hlength : fuel ≤ (next.due (log after)).length := by
        rw [hlater]
        exact Nat.le_of_succ_le_succ enough
      exact ih hrunning hlength (event :: events)

theorem Running.asked_drain (pages : Pages answers log) (h : feed.Running (log state)) :
    feed.drain.asked answers state =
      (feed.pulls answers (List.replicate (feed.last + 1 - feed.next) id) state).flatMap
        Prod.snd := by
  rw [drain_eq, Plan.asked_bind, h.asked_collect pages h.length_due.ge, Plan.asked,
    List.append_nil]

end Feed

def sum? (a b : Nat) : Option Nat := if a + b < UInt64.size then some (a + b) else none

def difference? (a b : Nat) : Option Nat := if b ≤ a then some (a - b) else none

namespace Feed

def span? (feed : Feed) : Option Nat := do difference? (← sum? feed.last 1) feed.next

def handOut? (feed : Feed) : List Event → Option (Option Event × Feed)
  | [] => some (none, { feed with held := [] })
  | event :: rest => do
    return (some event, { feed with next := ← sum? event.position 1, held := rest })

def pull? (feed : Feed) : Plan (Option (Option (Except StoreError Event) × Feed)) :=
  if feed.failed then return some (none, feed)
  else if feed.held ≠ [] ∨ feed.last < feed.next then
    return (feed.handOut? feed.held).map fun (event, feed) => (event.map .ok, feed)
  else
    match feed.span? with
    | none => return none
    | some span => do
      match ← Plan.request (.read feed.next (min span feed.size)) with
      | .ok fetched =>
        return (feed.handOut? fetched).map fun (event, feed) => (event.map .ok, feed)
      | .error error => return some (some (.error error), { feed with failed := true })

def pulls? {σ : Type} (answers : Answers σ) : (others : List (σ → σ)) → Feed → σ →
    Option (List (Option (Except StoreError Event) × List Request))
  | [], _, _ => some []
  | other :: others, feed, state => do
    let (pulled, after) := feed.pull?.run answers (other state)
    let (outcome, next) ← pulled
    return (outcome, feed.pull?.asked answers (other state)) :: (← pulls? answers others next after)

section Exact

variable {feed : Feed} {log : Log}

theorem handOut?_eq (h : feed.Running log) (fits : feed.last + 1 < UInt64.size)
    {events : List Event} (hfirst : events <+: feed.due log) :
    feed.handOut? events = some (feed.handOut events) := by
  cases events with
  | nil => rfl
  | cons event rest =>
    obtain ⟨later, hdue⟩ := hfirst
    have hposition := (h.positions_cons hdue.symm).1
    have hlength := h.length_due
    rw [← hdue, List.cons_append, List.length_cons] at hlength
    have hsum : sum? event.position 1 = some (event.position + 1) := if_pos (by omega)
    rw [handOut?, hsum]
    rfl

theorem span?_eq (fits : feed.last + 1 < UInt64.size) (hnext : feed.next ≤ feed.last) :
    feed.span? = some (feed.last + 1 - feed.next) := by
  have hsum : sum? feed.last 1 = some (feed.last + 1) := if_pos fits
  rw [span?, hsum]
  exact if_pos (Nat.le_succ_of_le hnext)

/-- What a pull goes on with after a section. -/
theorem pull?_fetch (hsound : ¬feed.failed = true) (hmore : ¬(feed.held ≠ [] ∨ feed.last < feed.next))
    {span : Nat} (hspan : feed.span? = some span) :
    ∃ goOn, feed.pull? = .ask (.read feed.next (min span feed.size)) goOn ∧ ∀ fetched,
      goOn (.ok fetched) =
        .done ((feed.handOut? fetched).map fun handed => (handed.1.map .ok, handed.2)) := by
  rw [pull?, if_neg hsound, if_neg hmore, hspan]
  exact ⟨_, rfl, fun _ => rfl⟩

variable {σ : Type} {answers : Answers σ} {log : σ → Log} {state : σ} {others : List (σ → σ)}

/-- A pull overflows nowhere. -/
theorem pull?_eq (pages : Pages answers log) (h : feed.Running (log state))
    (fits : feed.last + 1 < UInt64.size) :
    feed.pull?.run answers state =
        (some (feed.pull.run answers state).1, (feed.pull.run answers state).2) ∧
      feed.pull?.asked answers state = feed.pull.asked answers state := by
  have hsound : ¬feed.failed = true := by rw [h.sound]; exact Bool.false_ne_true
  by_cases hmore : feed.held ≠ [] ∨ feed.last < feed.next
  · rw [pull?, pull, if_neg hsound, if_neg hsound, if_pos hmore, if_pos hmore,
      handOut?_eq h fits h.held]
    exact ⟨rfl, rfl⟩
  · obtain ⟨hheld, hnext⟩ := not_or.mp hmore
    have hspan := span?_eq fits (Nat.le_of_not_lt hnext)
    obtain ⟨fetched, hreply, hpart, _⟩ :=
      pages.read state feed.next (min (feed.last + 1 - feed.next) feed.size)
    have hout := handOut?_eq h fits
      (hpart.trans (readFrom_prefix_due h.started (Nat.min_le_left _ _)))
    obtain ⟨goOn, hpull, hgoOn⟩ := pull?_fetch hsound hmore hspan
    rw [hpull, pull_fetch h.sound (not_not.mp hheld) (Nat.le_of_not_lt hnext), Plan.run_ask,
      Plan.run_ask, Plan.asked, Plan.asked, hreply, hgoOn, hout]
    exact ⟨rfl, rfl⟩

theorem last_pull (h : feed.Running (log state)) :
    (feed.pull.run answers state).1.2.last = feed.last := by
  by_cases hheld : feed.held = []
  · by_cases hover : feed.last < feed.next
    · rw [pull_over h.sound hheld hover]
      rfl
    · rw [pull_fetch h.sound hheld (Nat.le_of_not_lt hover), Plan.run_ask]
      rcases (answers (.read feed.next _) state).1 with error | fetched
      · rfl
      · cases fetched <;> rfl
  · rw [pull_held h.sound hheld]
    cases feed.held <;> rfl

/-- Pulls overflow nowhere. -/
theorem pulls?_eq (pages : Pages answers log)
    (grows : ∀ other ∈ others, ∀ state, (log (other state)).Extends (log state))
    (h : feed.Running (log state)) (fits : feed.last + 1 < UInt64.size) :
    feed.pulls? answers others state = some (feed.pulls answers others state) := by
  induction others generalizing feed state with
  | nil => rfl
  | cons other others ih =>
    have hlater := h.extend (grows other List.mem_cons_self state)
    obtain ⟨hrun, hasked⟩ := pull?_eq pages hlater fits
    have hpulled := hlater.pull pages
    have hrunning := hpulled.running
    rw [← hpulled.log_eq] at hrunning
    have hrest := ih (fun f hf => grows f (List.mem_cons_of_mem other hf)) hrunning (by
      rw [last_pull hlater]; exact fits)
    rw [pulls?, hrun, hasked, pulls_cons]
    simp only [Option.bind_eq_bind, Option.bind_some, hrest]
    rfl

end Exact

section Scheduled

variable {σ : Type} {answers : Answers σ} {log : σ → Log} {state : σ} {others : List (σ → σ)}

theorem grows_replicate (log : σ → Log) (count : Nat) : ∀ other ∈ List.replicate count (id : σ → σ),
    ∀ state, (log (other state)).Extends (log state) := by
  intro other hother state
  rw [List.eq_of_mem_replicate hother]
  exact List.prefix_refl _

theorem Running.requests_eq (complete : Complete answers log) {feed : Feed}
    (grows : ∀ other ∈ others, ∀ state, (log (other state)).Extends (log state))
    (h : feed.Running (log state)) (hheld : feed.held = []) :
    (feed.pulls answers others state).flatMap Prod.snd =
      (List.range (min others.length (feed.last + 1 - feed.next) ⌈/⌉ feed.size)).map
        (sectionRead feed.size feed.next feed.last) := by
  rw [pulls_eq_sections complete grows h .poisoned, sections_read h.some hheld]

theorem Running.length_received (complete : Complete answers log) {feed : Feed}
    (grows : ∀ other ∈ others, ∀ state, (log (other state)).Extends (log state))
    (h : feed.Running (log state)) : (received (feed.pulls answers others state)).length =
      min others.length (feed.last + 1 - feed.next) := by
  rw [pulls_eq_sections complete grows h .poisoned, received_trace, List.length_take, h.length_due]
  omega

/-- From a complete store a feed reads one section after another, each when all before it are handed
out: as many reads for some events as these fill sections, no read that is empty or goes beyond the
end, and no sum or difference that 64 bits cannot hold. -/
theorem reads_scheduled (complete : Complete answers log)
    (grows : ∀ other ∈ others, ∀ state, (log (other state)).Extends (log state))
    (ordered : (log state).Ordered) (fits : (log state).lastPosition + 1 < UInt64.size)
    (size position : Nat) :
    ∃ feed after, (Feed.start size position).run answers state = (.ok feed, after) ∧
      let step := max size 1
      let first := max position 1
      let last := (log state).lastPosition
      let pulled := feed.pulls answers others after
      (received pulled).length = min others.length (last + 1 - first) ∧
      pulled.flatMap Prod.snd =
        (List.range ((received pulled).length ⌈/⌉ step)).map (sectionRead step first last) ∧
      feed.drain.asked answers after =
        (List.range ((last + 1 - first) ⌈/⌉ step)).map (sectionRead step first last) ∧
      (∀ request ∈ feed.drain.asked answers after, ∃ position limit,
        request = .read position limit ∧ 1 ≤ limit ∧ position + limit ≤ last + 1) ∧
      feed.pulls? answers others after = some pulled := by
  obtain ⟨hrunning, _⟩ := begun_start complete.pages ordered size position
  have hcount := hrunning.length_received complete grows
  have hdrained : (begun size position (log state).lastPosition).drain.asked answers
      (answers .last state).2 = (List.range (((log state).lastPosition + 1 - max position 1) ⌈/⌉
        max size 1)).map (sectionRead (max size 1) (max position 1) (log state).lastPosition) := by
    rw [hrunning.asked_drain complete.pages,
      hrunning.requests_eq complete (grows_replicate log _) rfl,
      List.length_replicate, Nat.min_self]
    rfl
  refine ⟨_, _, run_start (complete.last state) size position, hcount, ?_, hdrained, ?_,
    pulls?_eq complete.pages grows hrunning fits⟩
  · rw [hcount]
    exact hrunning.requests_eq complete grows rfl
  · rw [hdrained]
    intro request hrequest
    obtain ⟨number, hnumber, rfl⟩ := List.mem_map.mp hrequest
    have hless := mul_lt_of_lt_ceilDiv (Nat.le_max_right size 1) (List.mem_range.mp hnumber)
    exact ⟨_, _, rfl, by omega, by omega⟩

/-- Three events are read two at a time: the first two in one section, which suffices for as many
pulls, and the third in another. -/
theorem three_read_by_two : Complete (Store.answers .epoch .sound) Store.log ∧
    (∀ other ∈ [oneMoreStored, id], ∀ store, (Store.log (other store)).Extends store.log) ∧
    shortStore.log.Ordered ∧ shortStore.log.lastPosition + 1 < UInt64.size ∧
    ∃ feed after,
      (Feed.start 2 0).run (Store.answers .epoch .sound) shortStore = (.ok feed, after) ∧
      (feed.pulls (Store.answers .epoch .sound) [oneMoreStored, id] after).flatMap Prod.snd =
        [.read 1 2] ∧
      feed.drain.asked (Store.answers .epoch .sound) after = [.read 1 2, .read 3 1] := by
  have complete := Store.complete .epoch .sound
  have grows : ∀ other ∈ [oneMoreStored, id], ∀ store,
      (Store.log (other store)).Extends store.log := grows_oneMoreStored (by simp)
  have ordered : shortStore.log.Ordered := Log.ordered_empty.run _
  have fits : shortStore.log.lastPosition + 1 < UInt64.size := by decide
  obtain ⟨feed, after, hstart, hcount, hreads, hdrained, _⟩ :=
    reads_scheduled complete grows ordered fits 2 0
  rw [hcount] at hreads
  exact ⟨complete, grows, ordered, fits, feed, after, hstart, hreads, hdrained⟩

end Scheduled

end Feed

end StackJournal
