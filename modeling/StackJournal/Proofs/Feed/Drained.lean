import StackJournal.App
import StackJournal.Proofs.Feed.Delivery

/-! # What the application reads from a feed

A feed that is drained hands out all that it owes. So the events from a position on are those of the
log, and what the application counts among them can be told from the log.
-/
namespace StackJournal

/-- A store hands out all that it is asked for. -/
theorem Store.complete (now : Timestamp) (disk : Disk) : Complete (answers now disk) log where
  last store := by cases store <;> rfl
  last_log store := by cases store <;> rfl
  read store position limit := by cases store <;> rfl
  read_log store position limit := by cases store <;> rfl

theorem Store.pages (now : Timestamp) (disk : Disk) : Pages (answers now disk) log :=
  (complete now disk).pages

def Feed.shortStore : Store := .memory shortLog

def Feed.oneMoreStored (store : Store) : Store := .memory (oneMore store.log)

theorem Feed.grows_oneMoreStored {others : List (Store → Store)}
    (h : ∀ other ∈ others, other = id ∨ other = oneMoreStored) :
    ∀ other ∈ others, ∀ store, (Store.log (other store)).Extends store.log := by
  intro other hother store
  rcases h other hother with rfl | rfl
  · exact List.prefix_refl _
  · exact extends_oneMore store.log

theorem nodup_eraseDups {α : Type} [BEq α] [LawfulBEq α] (xs : List α) : xs.eraseDups.Nodup := by
  generalize hn : xs.length = n
  induction n using Nat.strongRecOn generalizing xs with
  | ind n ih =>
    cases xs with
    | nil => exact List.nodup_nil
    | cons x xs =>
      rw [List.eraseDups_cons, List.nodup_cons, List.mem_eraseDups]
      constructor
      · simp
      · have hle := List.length_filter_le (fun y => !y == x) xs
        rw [List.length_cons] at hn
        exact ih _ (by omega) _ rfl

section Store

variable {σ : Type} {answers : Answers σ} {log : σ → Log} {state : σ}

namespace Feed

variable {feed : Feed}

def collectAfter (fuel : Nat) (events : List Event) :
    Option (Except StoreError Event) × Feed → Plan (Except StoreError (List Event))
  | (some (.ok event), feed) => feed.collect fuel (event :: events)
  | (some (.error error), _) => .done (.error error)
  | (none, _) => .done (.ok events)

theorem collect_succ (fuel : Nat) (feed : Feed) (events : List Event) :
    feed.collect (fuel + 1) events = feed.pull.bind (collectAfter fuel events) := by
  refine congrArg (Plan.bind _) (funext fun pulled => ?_)
  obtain ⟨_ | _ | _, _⟩ := pulled <;> rfl

theorem Running.collect (pages : Pages answers log) (h : feed.Running (log state)) {fuel : Nat}
    (enough : (feed.due (log state)).length ≤ fuel) (events : List Event) :
    ((feed.collect fuel events).run answers state).1 =
      .ok ((feed.due (log state)).reverse ++ events) := by
  induction fuel generalizing feed state events with
  | zero =>
    rw [List.eq_nil_of_length_eq_zero (Nat.le_zero.mp enough)]
    rfl
  | succ fuel ih =>
    obtain ⟨houtcome, hlater, hrunning, hlog, _, _⟩ := h.pull pages
    rw [collect_succ, Plan.run_bind]
    generalize feed.pull.run answers state = pulled at houtcome hlater hrunning hlog ⊢
    obtain ⟨⟨outcome, next⟩, after⟩ := pulled
    simp only at houtcome hlater hrunning hlog ⊢
    subst houtcome
    cases hdue : feed.due (log state) with
    | nil => rfl
    | cons event rest =>
      rw [hdue] at hlater enough
      rw [← hlog] at hrunning hlater
      have hlength : (next.due (log after)).length ≤ fuel := by
        rw [hlater]
        exact Nat.le_of_succ_le_succ enough
      rw [List.reverse_cons, List.append_assoc]
      have hcollected := ih hrunning hlength (event :: events)
      rw [hlater] at hcollected
      exact hcollected

theorem drain_eq (feed : Feed) : feed.drain =
    (feed.collect (feed.last + 1 - feed.next) []).bind fun collected =>
      .done (collected.map List.reverse) := by
  refine congrArg (Plan.bind _) (funext fun collected => ?_)
  cases collected <;> rfl

/-- A drained feed hands out all that it owes. -/
theorem Running.drain (pages : Pages answers log) (h : feed.Running (log state)) :
    (feed.drain.run answers state).1 = .ok (feed.due (log state)) := by
  rw [drain_eq, Plan.run_bind, h.collect pages (Nat.le_of_eq h.length_due) [], List.append_nil]
  exact congrArg Except.ok (List.reverse_reverse _)

end Feed

namespace App

def readThrough : Except StoreError Feed → Plan (Except AppError (List Event))
  | .ok feed => feed.drain.bind fun drained => .done (drained.mapError AppError.ofStore)
  | .error error => .done (.error (AppError.ofStore error))

theorem eventsFrom_eq (position : Nat) : (eventsFrom position).run =
    (Feed.start Feed.standardSize position).bind readThrough := by
  refine congrArg (Plan.bind _) (funext fun started => ?_)
  cases started <;> rfl

/-- The events from a position on are those of the log. -/
theorem run_eventsFrom (pages : Pages answers log) (ordered : (log state).Ordered) (position : Nat) :
    ((eventsFrom position).run.run answers state).1 =
      .ok ((log state).events.toList.filter (max position 1 ≤ ·.position)) := by
  obtain ⟨feed, hstart, hdue, _, _, hrunning⟩ :=
    Feed.exists_start pages ordered Feed.standardSize position
  rw [← pages.last_log state] at hrunning
  rw [eventsFrom_eq, Plan.run_bind, hstart, readThrough, Plan.run_bind, hrunning.drain pages,
    pages.last_log, hdue]
  rfl

theorem eventLog_eq (position : Nat) : (eventLog position).run =
    (eventsFrom position).run.bind fun result => .done (result.map (·.map Event.entry)) := by
  refine congrArg (Plan.bind _) (funext fun result => ?_)
  cases result <;> rfl

/-- The audit trail has an entry for each event in the log. -/
theorem run_eventLog (pages : Pages answers log) (ordered : (log state).Ordered) (position : Nat) :
    ((eventLog position).run.run answers state).1 =
      .ok (((log state).events.toList.filter (max position 1 ≤ ·.position)).map Event.entry) := by
  rw [eventLog_eq, Plan.run_bind, run_eventsFrom pages ordered]
  rfl

theorem counts_eq (app : App) (position : Nat) : (app.counts position).run =
    (eventsFrom position).run.bind fun result => .done (result.map fun events =>
      tally ((events.map (·.kind.name)).filter app.gate.isGrounded)) := by
  refine congrArg (Plan.bind _) (funext fun result => ?_)
  cases result <;> rfl

/-- The counts are those of the grounded kinds in the log. -/
theorem run_counts (app : App) (pages : Pages answers log) (ordered : (log state).Ordered)
    (position : Nat) : ((app.counts position).run.run answers state).1 =
      .ok (tally ((((log state).events.toList.filter (max position 1 ≤ ·.position)).map
        (·.kind.name)).filter app.gate.isGrounded)) := by
  rw [counts_eq, Plan.run_bind, run_eventsFrom pages ordered]
  rfl

end App

end Store

/-- A tally does not depend on the order in which the names came. -/
theorem App.tally_eq_of_perm {names others : List String} (h : names.Perm others) :
    App.tally names = App.tally others := by
  have hdistinct : names.eraseDups.Perm others.eraseDups := by
    refine (List.perm_ext_iff_of_nodup (nodup_eraseDups _) (nodup_eraseDups _)).mpr fun name => ?_
    rw [List.mem_eraseDups, List.mem_eraseDups, h.mem_iff]
  have hsorted : ∀ names : List String,
      (names.mergeSort (· ≤ ·)).Pairwise fun a b => decide (a ≤ b) = true := by
    refine List.pairwise_mergeSort ?_ ?_
    · simp only [decide_eq_true_eq]
      exact fun _ _ _ => String.le_trans
    · simp only [Bool.or_eq_true, decide_eq_true_eq]
      exact String.le_total
  have hsame : names.eraseDups.mergeSort (· ≤ ·) = others.eraseDups.mergeSort (· ≤ ·) := by
    refine List.Perm.eq_of_pairwise ?_ (hsorted _) (hsorted _) ?_
    · simp only [decide_eq_true_eq]
      exact fun _ _ _ _ => String.le_antisymm
    · exact (List.mergeSort_perm _ _).trans (hdistinct.trans (List.mergeSort_perm _ _).symm)
  rw [App.tally, App.tally, hsame]
  exact List.map_congr_left fun name _ => by rw [h.count_eq]

end StackJournal
