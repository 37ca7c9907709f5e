import StackJournal.Proofs.Clients.Tracking

/-! # Dispatches and their rivals

A dispatch loads a history in one turn and appends in a later one. What others append to its stack in
between are its rivals: without any it succeeds, and otherwise it meets with a conflict.
-/
namespace StackJournal

open Operation

def Record.appends (stack : Uuid) : Record → Bool
  | ⟨_, .append other _ _ _, .ok _⟩ => other == stack
  | _ => false

def appended (stack : Uuid) (records : List Record) : Nat := records.countP (·.appends stack)

theorem appends_error (stack : Uuid) (client : Nat) (request : Request) (error : StoreError) :
    Record.appends stack ⟨client, request, .error error⟩ = false := by
  cases request <;> rfl

/-- The version of a stack counts the appends that were taken. -/
theorem version_answers (log : Log) (now : Timestamp) (client : Nat) (request : Request)
    (stack : Uuid) : (log.answers now request).2.version stack =
      log.version stack + appended stack [⟨client, request, (log.answers now request).1⟩] := by
  cases request with
  | load _ | version _ | read _ _ | last => rfl
  | append other expected kind payload =>
    show (log.append now other expected kind payload).2.version stack = log.version stack +
      appended stack [⟨client, .append other expected kind payload,
        (log.append now other expected kind payload).1⟩]
    by_cases hcurrent : log.version other = expected
    · rw [Log.append_taken hcurrent, Log.version_insert, appended, List.countP_singleton]
      show (if stack = other then log.version stack + 1 else log.version stack) =
        log.version stack + if (other == stack) = true then 1 else 0
      by_cases hother : stack = other
      · subst hother
        rw [if_pos rfl, beq_self_eq_true, if_pos rfl]
      · have hne : (other == stack) = false := beq_false_of_ne fun heq => hother heq.symm
        rw [if_neg hother, hne]
        rfl
    · rw [Log.append_refused hcurrent]
      rfl

namespace Shared

variable {state : Shared}

theorem sound_turn (h : state.store.Sound) (turn : Turn) : (state.turn turn).2.store.Sound := by
  cases hplan : state.plans turn.client with
  | done outcome => rwa [turn_done hplan]
  | ask request next =>
    rw [turn_ask hplan]
    rcases serve_cases h turn request with ⟨error, hserve⟩ | ⟨_, _, hsound⟩
    · rw [hserve]
      exact h
    · exact hsound

theorem version_turn (h : state.store.Sound) (turn : Turn) (stack : Uuid) :
    (state.turn turn).2.store.log.version stack =
      state.store.log.version stack + appended stack (state.turn turn).1 := by
  cases hplan : state.plans turn.client with
  | done outcome =>
    rw [turn_done hplan]
    rfl
  | ask request next =>
    rw [turn_ask hplan]
    rcases serve_cases h turn request with ⟨error, hserve⟩ | ⟨hreply, hlog, _⟩
    · rw [hserve, appended, List.countP_singleton, appends_error]
      rfl
    · rw [hreply, hlog, version_answers _ _ turn.client]

/-- Others leave a client where it is, and tell by their appends how far a stack has moved on. -/
theorem run_others (h : state.store.Sound) {client : Nat} {turns : List Turn}
    (away : ∀ turn ∈ turns, turn.client ≠ client) (stack : Uuid) :
    (state.run turns).2.plans client = state.plans client ∧
      (state.run turns).2.store.Sound ∧ (state.run turns).2.store.log.version stack =
        state.store.log.version stack + appended stack (state.run turns).1 := by
  induction turns generalizing state with
  | nil => exact ⟨rfl, h, rfl⟩
  | cons turn turns ih =>
    have hclient : client ≠ turn.client := fun heq => away turn List.mem_cons_self heq.symm
    have hplans : (state.turn turn).2.plans client = state.plans client := by
      cases hplan : state.plans turn.client with
      | done outcome => rw [turn_done hplan]
      | ask request next =>
        rw [turn_ask hplan]
        exact Function.update_of_ne hclient _ _
    obtain ⟨hlater, hsound, hversion⟩ :=
      ih (sound_turn h turn) fun other hother => away other (List.mem_cons_of_mem turn hother)
    refine ⟨hlater.trans hplans, hsound, ?_⟩
    show ((state.turn turn).2.run turns).2.store.log.version stack = _ +
      appended stack ((state.turn turn).1 ++ ((state.turn turn).2.run turns).1)
    rw [hversion, version_turn h, appended, appended, appended, List.countP_append, Nat.add_assoc]

/-- What a turn does to a client whose request does not fail. -/
theorem turn_served (h : state.store.Sound) {turn : Turn} (calm : turn.failure = none)
    {request : Request} {next : request.Reply → Plan Outcome}
    (hplan : state.plans turn.client = .ask request next) :
    (state.turn turn).2.plans turn.client =
        next (state.store.log.answers turn.now request).1 ∧
      (state.turn turn).2.store.log = (state.store.log.answers turn.now request).2 := by
  obtain ⟨hreply, hlog, _⟩ := h.answersAsLog turn.now request
  rw [turn_ask hplan, serve, calm]
  exact ⟨(Function.update_self _ _ _).trans (congrArg next hreply), hlog⟩

section Dispatch

variable {app : App} {turn : Turn} {stack : Uuid} {next : Except AppError Nat → Plan Outcome}

theorem turn_load (h : state.store.Sound) (calm : turn.failure = none) {name : String}
    (hplan : state.plans turn.client = (app.dispatch stack name).run.bind next) :
    (state.turn turn).2.plans turn.client = (App.writeWeighed stack
        (app.weigh stack name (state.store.log.load stack))).bind next ∧
      (state.turn turn).2.store.log = state.store.log := by
  rw [App.dispatch_eq] at hplan
  exact turn_served h calm hplan

theorem turn_write (h : state.store.Sound) (calm : turn.failure = none) {version : Nat} {kapp : Kapp}
    (hplan : state.plans turn.client = (App.write stack version kapp).bind next) :
    let taken := state.store.log.append turn.now stack version (.kapp kapp) none
    (state.turn turn).2.plans turn.client =
        next ((taken.1.mapError AppError.ofStore).map fun _ => version + 1) ∧
      (state.turn turn).2.store.log = taken.2 := by
  obtain ⟨hplans, hlog⟩ := turn_served h calm hplan
  refine ⟨hplans.trans ?_, hlog⟩
  show Plan.bind (App.reply (state.store.log.append _ _ _ _ _).1 _) next = _
  cases (state.store.log.append turn.now stack version (.kapp kapp) none).1 <;> rfl

end Dispatch

end Shared

/-- A dispatch that a client makes of an existing stack, alone or as a part of its call: it loads, others
take turns, and it appends. -/
structure Attempt (app : App) (state : Shared) where
  stack : Uuid
  name : String
  /-- How the client goes on after it. -/
  next : Except AppError Nat → Plan Outcome
  load : Turn
  others : List Turn
  write : Turn
  begins : state.plans load.client = (app.dispatch stack name).run.bind next
  grounded : app.gate.isGrounded name = true
  implemented : name ∈ Kapp.names
  existing : state.store.log.version stack ≠ 0
  replays : state.store.log.Replays stack
  calm : load.failure = none ∧ write.failure = none
  away : ∀ turn ∈ others, turn.client ≠ load.client
  back : write.client = load.client

namespace Attempt

variable {app : App} {state : Shared}

def version (attempt : Attempt app state) : Nat := state.store.log.version attempt.stack

/-- What the others ask while it waits, and what it finds then. -/
def found (attempt : Attempt app state) : List Record × Shared :=
  (state.turn attempt.load).2.run attempt.others

def rivals (attempt : Attempt app state) : Nat := appended attempt.stack attempt.found.1

def after (attempt : Attempt app state) : Shared := (attempt.found.2.turn attempt.write).2

structure Decided (attempt : Attempt app state) : Prop where
  /-- Without rivals it succeeds, and its event is the last of the log. -/
  succeeds : attempt.rivals = 0 →
    attempt.after.plans attempt.load.client = attempt.next (.ok (attempt.version + 1)) ∧
    ∃ kapp : Kapp, kapp.name = attempt.name ∧
      attempt.after.store.log = attempt.found.2.store.log.insert ⟨attempt.stack,
        attempt.version + 1, .kapp kapp, none, attempt.found.2.store.log.lastPosition + 1,
        attempt.write.now⟩
  /-- With rivals it ends in a conflict, and the log stays as it is. -/
  conflicts : attempt.rivals ≠ 0 →
    attempt.after.plans attempt.load.client = attempt.next
      (.error (.conflict attempt.stack attempt.version (attempt.version + attempt.rivals))) ∧
    attempt.after.store.log = attempt.found.2.store.log

section Sound

variable (attempt : Attempt app state) (sound : state.store.Sound)
  (ordered : state.store.log.Ordered)

include sound ordered

/-- After the load the dispatch waits with an append at the version that it loaded. -/
theorem waits : ∃ kapp : Kapp, kapp.name = attempt.name ∧
    attempt.found.2.plans attempt.write.client =
      (App.write attempt.stack attempt.version kapp).bind attempt.next ∧
    attempt.found.2.store.Sound ∧
    attempt.found.2.store.log.version attempt.stack = attempt.version + attempt.rivals := by
  obtain ⟨kapp, _, hname⟩ := List.mem_map.mp attempt.implemented
  have hresolve := Gate.resolve_eq_ok_iff.mpr ⟨attempt.grounded, hname.symm⟩
  have hlawful := attempt.replays.lawful ordered attempt.existing
  have hweigh : app.weigh attempt.stack attempt.name (state.store.log.load attempt.stack) =
      .ok (attempt.version, kapp) :=
    App.weigh_eq_ok_iff.mpr ⟨hlawful, (ordered.indexed.length_load _).symm, hresolve⟩
  obtain ⟨hloaded, hlog⟩ := Shared.turn_load sound attempt.calm.1 attempt.begins
  obtain ⟨hplan, hsound, hversion⟩ :=
    Shared.run_others (Shared.sound_turn sound attempt.load) attempt.away attempt.stack
  rw [hloaded, hweigh, ← attempt.back] at hplan
  rw [hlog] at hversion
  exact ⟨kapp, hname, hplan, hsound, hversion⟩

theorem decided : attempt.Decided := by
  obtain ⟨kapp, hname, hplan, hsound, hversion⟩ := attempt.waits sound ordered
  obtain ⟨hplans, hlog⟩ := Shared.turn_write hsound attempt.calm.2 hplan
  rw [attempt.back] at hplans
  constructor
  · intro hnone
    rw [hnone, Nat.add_zero] at hversion
    rw [Log.append_taken hversion] at hplans hlog
    exact ⟨hplans, kapp, hname, hlog⟩
  · intro hsome
    have hbehind : attempt.found.2.store.log.version attempt.stack ≠ attempt.version := by
      rw [hversion]
      exact fun heq => hsome (Nat.add_eq_left.mp heq)
    rw [Log.append_refused hbehind, hversion] at hplans hlog
    exact ⟨hplans, hlog⟩

end Sound

end Attempt

end StackJournal
