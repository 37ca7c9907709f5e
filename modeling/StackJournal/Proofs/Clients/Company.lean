import StackJournal.Proofs.Clients.Tracking

/-! # A client in company

A client asks a store of which others are clients too. Before each of its requests they take their
turns, and then the request is served or fails. All of them only call the application, so that every
stack has a history that can be replayed at any time, whatever calls are broken off.
-/
namespace StackJournal

open Operation

/-- A log that only calls of applications have written. -/
inductive Log.Written : Log → Prop where
  | empty : Written .empty
  | landed {app : App} {log longer : Log} {now : Timestamp} {single : Operation × Outcome}
      (written : Written log) (lands : Lands app log now single longer) : Written longer

theorem Log.Written.ordered {log : Log} (h : log.Written) : log.Ordered := by
  induction h with
  | empty => exact Log.ordered_empty
  | landed _ lands ih => exact lands.ordered ih

theorem Log.Written.replays {log : Log} (h : log.Written) (stack : Uuid) : log.Replays stack := by
  induction h with
  | empty => exact Or.inl rfl
  | landed written lands ih => exact lands.replays written.ordered ih

/-- What a request meets: first the turns of other clients, then the error with which it fails, if it
does. -/
structure Meeting where
  turns : List Turn
  now : Timestamp
  failure : Option StoreError

structure Company where
  shared : Shared
  asked : Nat

namespace Company

def log (state : Company) : Log := state.shared.store.log

def start (app : App) (store : Store) (operations : Nat → Operation) : Company :=
  ⟨.start app store operations, 0⟩

def answers (meetings : Nat → Meeting) : Answers Company := fun request state =>
  let met := (state.shared.run (meetings state.asked).turns).2
  -- serving takes no account of whose turn it is
  let served := met.serve ⟨0, (meetings state.asked).now, (meetings state.asked).failure⟩ request
  (served.1, ⟨⟨served.2, met.plans⟩, state.asked + 1⟩)

/-- The calls of all clients are accounted for, and every history can be replayed. -/
structure Kept (app : App) (operations : Nat → Operation) (state : Company) : Prop where
  tracked : ∃ landed, state.shared.Tracks app operations landed
  replays : ∀ stack, state.log.Replays stack

variable {app : App} {operations : Nat → Operation} {meetings : Nat → Meeting} {state : Company}

theorem Kept.ordered (h : state.Kept app operations) : state.log.Ordered :=
  h.tracked.elim fun _ tracks => tracks.ordered

theorem kept_start (app : App) {store : Store} (sound : store.Sound) (written : store.log.Written)
    (operations : Nat → Operation) : (start app store operations).Kept app operations :=
  ⟨⟨_, Shared.tracks_start app sound written.ordered operations⟩, written.replays⟩

end Company

section Advance

variable {app : App} {log longer : Log} {now : Timestamp} {operation : Operation}
variable {landed : List (Operation × Outcome)} {request : Request}
variable {next : request.Reply → Plan Outcome} {reply : request.Reply}

/-- Whatever a reply makes of a log, it grows and its histories can be replayed. -/
theorem Operation.Advance.keeps (h : Advance app log now operation landed request next reply longer)
    (ordered : log.Ordered) (replays : ∀ stack, log.Replays stack) :
    longer.Extends log ∧ longer.Ordered ∧ (∀ stack, longer.Replays stack) ∧
      ∃ landed, Stage app longer operation landed (next reply) := by
  cases h with
  | quiet _ same stage =>
    subst same
    exact ⟨.refl _, ordered, replays, _, stage⟩
  | landed _ lands stage =>
    exact ⟨lands.grows, lands.ordered ordered, fun stack => lands.replays ordered (replays stack),
      _, stage⟩

end Advance

namespace Company

variable {app : App} {operations : Nat → Operation} {meetings : Nat → Meeting} {state : Company}
variable {operation : Operation} {landed : List (Operation × Outcome)}

structure Asked (app : App) (operations : Nat → Operation) (operation : Operation) (state : Company)
    (request : Request) (next : request.Reply → Plan Outcome) (reply : request.Reply)
    (after : Company) : Prop where
  kept : after.Kept app operations
  grows : after.log.Extends state.log
  stage : ∃ landed, Stage app after.log operation landed (next reply)
  /-- It failed, or it was answered as by the log that it met. -/
  answered : (∃ error, reply = .error error) ∨ ∃ (met : Log) (now : Timestamp),
    met.Extends state.log ∧ met.Ordered ∧ (∀ stack, met.Replays stack) ∧
      reply = (met.answers now request).1 ∧ after.log = (met.answers now request).2

theorem Kept.asked (h : state.Kept app operations) (meetings : Nat → Meeting) {request : Request}
    {next : request.Reply → Plan Outcome}
    (stage : Stage app state.log operation landed (.ask request next)) :
    Asked app operations operation state request next (answers meetings request state).1
      (answers meetings request state).2 := by
  obtain ⟨calls, tracks⟩ := h.tracked
  have hmet := tracks.run (meetings state.asked).turns
  have hgrows := tracks.grows (meetings state.asked).turns
  have hreplays := fun stack => tracks.replays (h.replays stack) (meetings state.asked).turns
  have hstage := stage.extend hgrows
  rw [answers]
  generalize (state.shared.run (meetings state.asked).turns).2 = met at hmet hgrows hreplays hstage
  generalize Turn.mk 0 (meetings state.asked).now (meetings state.asked).failure = turn
  rcases Shared.serve_cases hmet.sound turn request with ⟨error, hserve⟩ | ⟨hreply, hlog, hsound⟩
  · obtain ⟨_, _, _, hlater⟩ := (hstage.fails turn.now error).keeps hmet.ordered hreplays
    simp only [hserve]
    exact ⟨⟨⟨_, hmet⟩, hreplays⟩, hgrows, hlater, Or.inl ⟨error, rfl⟩⟩
  · have hadvance := hstage.advances hmet.ordered turn.now
    rw [← hreply, ← hlog] at hadvance
    obtain ⟨hextends, hordered, hkept, hlater⟩ := hadvance.keeps hmet.ordered hreplays
    exact ⟨⟨⟨_, hsound, hordered, fun client => (hmet.stage client).extend hextends⟩, hkept⟩,
      hextends.trans hgrows, hlater,
      Or.inr ⟨met.store.log, turn.now, hgrows, hmet.ordered, hreplays, hreply, hlog⟩⟩

structure Ran (app : App) (operations : Nat → Operation) (state after : Company) : Prop where
  kept : after.Kept app operations
  grows : after.log.Extends state.log

theorem Kept.ran (h : state.Kept app operations) : Ran app operations state state :=
  ⟨h, .refl _⟩

theorem Ran.trans {middle last : Company} (h : Ran app operations state middle)
    (h' : Ran app operations middle last) : Ran app operations state last :=
  ⟨h'.kept, h'.grows.trans h.grows⟩

/-- A stack with events has them still. -/
theorem Ran.existing {after : Company} (h : Ran app operations state after)
    (kept : state.Kept app operations) {stack : Uuid} (existing : state.log.version stack ≠ 0) :
    after.log.version stack ≠ 0 :=
  h.grows.version_ne_zero kept.ordered h.kept.ordered existing

def Brings (stack : Uuid) : (request : Request) → request.Reply → Prop
  | .load id, .ok events => id = stack → Stack.Lawful stack events
  | .version id, .ok version => id = stack → version ≠ 0
  | _, _ => True

theorem Asked.brings {request : Request} {next : request.Reply → Plan Outcome}
    {reply : request.Reply} {after : Company}
    (h : Asked app operations operation state request next reply after)
    (kept : state.Kept app operations) {stack : Uuid} (existing : state.log.version stack ≠ 0) :
    Brings stack request reply := by
  rcases h.answered with ⟨error, rfl⟩ | ⟨met, now, hgrows, hordered, hreplays, hreply, _⟩
  · cases request <;> trivial
  · subst hreply
    have hexisting := hgrows.version_ne_zero kept.ordered hordered existing
    cases request with
    | load id =>
      rintro rfl
      exact (hreplays id).lawful hordered hexisting
    | version id =>
      rintro rfl
      exact hexisting
    | append _ _ _ _ | read _ _ | last => trivial

theorem Kept.run (h : state.Kept app operations) (meetings : Nat → Meeting) {β : Type}
    {plan : Plan β} {f : β → Outcome}
    (stage : Stage app state.log operation landed (plan.bind fun b => .done (f b))) :
    Ran app operations state (plan.run (answers meetings) state).2 := by
  induction plan generalizing state landed with
  | done value => exact ⟨h, .refl _⟩
  | ask request next ih =>
    have hasked := h.asked meetings stage
    obtain ⟨_, hstage⟩ := hasked.stage
    obtain ⟨hkept, hgrows⟩ := ih _ hasked.kept hstage
    exact ⟨hkept, hgrows.trans hasked.grows⟩

/-- A plan comes to what it can come to on a stack that has a history. -/
theorem Kept.run_obeys (h : state.Kept app operations) (meetings : Nat → Meeting) {β : Type}
    {plan : Plan β} {f : β → Outcome}
    (stage : Stage app state.log operation landed (plan.bind fun b => .done (f b))) {stack : Uuid}
    (existing : state.log.version stack ≠ 0) {ends : β → Prop}
    (obeys : plan.Obeys (fun _ => True) (Brings stack) ends) :
    ends (plan.run (answers meetings) state).1 := by
  induction plan generalizing state landed with
  | done value => exact obeys
  | ask request next ih =>
    have hasked := h.asked meetings stage
    obtain ⟨_, hstage⟩ := hasked.stage
    have hexisting := hasked.grows.version_ne_zero h.ordered hasked.kept.ordered existing
    exact ih _ hasked.kept hstage hexisting (obeys.2 _ (hasked.brings h existing))

end Company

end StackJournal
