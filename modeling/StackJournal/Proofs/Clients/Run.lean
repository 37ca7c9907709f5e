import Mathlib.Logic.Function.Basic
import StackJournal.Proofs.App.Operation
import StackJournal.Proofs.Journal.Run
import StackJournal.Store

/-! # Clients of one store

Any number of clients call the application over one store. They take turns in any order, and a turn is
one request to the store with its reply; a client that makes several calls one after another counts as
several that never run at the same time. A request can also fail, and then does nothing.
-/
namespace StackJournal

/-- On a sound disk a journal takes what its log takes. -/
theorem Journal.take_eq_log {journal : Journal} (h : journal.poisoned = false) (now : Timestamp)
    (call : Call) :
    (journal.take now .sound call).1 =
        (journal.log.append now call.stack call.expected call.kind call.payload).1 ∧
      (journal.take now .sound call).2.log =
        (journal.log.append now call.stack call.expected call.kind call.payload).2 ∧
      (journal.take now .sound call).2.poisoned = false := by
  by_cases hcurrent : journal.log.version call.stack = call.expected
  · rw [take_sound h hcurrent, Log.append_current hcurrent]
    exact ⟨rfl, rfl, h⟩
  · have htakes := takes journal now .sound call
    rw [Log.append_behind hcurrent]
    generalize journal.take now .sound call = result at htakes
    cases htakes with
    | poisoned poisoned =>
      rw [h] at poisoned
      cases poisoned
    | behind _ _ => exact ⟨rfl, rfl, h⟩
    | recorded _ current _ => exact absurd current hcurrent
    | undone _ current _ _ => exact absurd current hcurrent
    | torn _ current _ _ => exact absurd current hcurrent

namespace Store

/-- The store takes events: no failed write has left its file in an unknown state. -/
def Sound : Store → Prop
  | memory _ => True
  | journal j => j.poisoned = false

structure AnswersAsLog (store : Store) (now : Timestamp) (request : Request) : Prop where
  reply : (answers now .sound request store).1 = (store.log.answers now request).1
  log : (answers now .sound request store).2.log = (store.log.answers now request).2
  sound : (answers now .sound request store).2.Sound

theorem Sound.answersAsLog {store : Store} (h : store.Sound) (now : Timestamp)
    (request : Request) : store.AnswersAsLog now request := by
  cases store with
  | memory log => exact ⟨rfl, rfl, trivial⟩
  | journal journal =>
    cases request with
    | append stack expected kind payload =>
      obtain ⟨hreply, hlog, hsound⟩ :=
        Journal.take_eq_log h now ⟨stack, expected, kind, payload⟩
      exact ⟨hreply, hlog, hsound⟩
    | load stack => exact ⟨rfl, rfl, h⟩
    | version stack => exact ⟨rfl, rfl, h⟩
    | read position limit => exact ⟨rfl, rfl, h⟩
    | last => exact ⟨rfl, rfl, h⟩

/-- On a sound disk a plan does over any store what it does over the log. -/
theorem Sound.run_eq_log {α : Type} (h : store.Sound) (now : Timestamp) (plan : Plan α) :
    (plan.run (answers now .sound) store).1 =
        (plan.run (fun request log => log.answers now request) store.log).1 ∧
      (plan.run (answers now .sound) store).2.log =
        (plan.run (fun request log => log.answers now request) store.log).2 ∧
      (plan.run (answers now .sound) store).2.Sound := by
  induction plan generalizing store with
  | done value => exact ⟨rfl, rfl, h⟩
  | ask request next ih =>
    obtain ⟨hreply, hlog, hsound⟩ := h.answersAsLog now request
    rw [Plan.run_ask, Plan.run_ask, ← hreply, ← hlog]
    exact ih _ hsound

end Store

/-- The turn of a client: its next request is served, at a moment, or fails. -/
structure Turn where
  client : Nat
  now : Timestamp
  failure : Option StoreError

structure Record where
  client : Nat
  request : Request
  reply : request.Reply

structure Shared where
  store : Store
  plans : Nat → Plan Operation.Outcome

namespace Shared

def start (app : App) (store : Store) (operations : Nat → Operation) : Shared :=
  ⟨store, fun client => (operations client).plan app⟩

def serve (state : Shared) (turn : Turn) (request : Request) : request.Reply × Store :=
  match turn.failure with
  | some error => (.error error, state.store)
  | none => Store.answers turn.now .sound request state.store

/-- A request fails and changes nothing, or it is answered as by the log. -/
theorem serve_cases {state : Shared} (h : state.store.Sound) (turn : Turn) (request : Request) :
    (∃ error, state.serve turn request = (.error error, state.store)) ∨
      (state.serve turn request).1 = (state.store.log.answers turn.now request).1 ∧
      (state.serve turn request).2.log = (state.store.log.answers turn.now request).2 ∧
      (state.serve turn request).2.Sound := by
  rw [serve]
  cases turn.failure with
  | some error => exact Or.inl ⟨error, rfl⟩
  | none =>
    obtain ⟨hreply, hlog, hsound⟩ := h.answersAsLog turn.now request
    exact Or.inr ⟨hreply, hlog, hsound⟩

def turn (state : Shared) (turn : Turn) : List Record × Shared :=
  match state.plans turn.client with
  | .done _ => ([], state)
  | .ask request next =>
    let served := state.serve turn request
    ([⟨turn.client, request, served.1⟩],
      ⟨served.2, Function.update state.plans turn.client (next served.1)⟩)

def run (state : Shared) : List Turn → List Record × Shared
  | [] => ([], state)
  | turn :: turns =>
    let first := state.turn turn
    let rest := first.2.run turns
    (first.1 ++ rest.1, rest.2)

end Shared

end StackJournal
