import StackJournal.Error

/-! # Plans

What the application does is a plan: a tree of requests to an event store, each with a way to go on
for every reply. A plan decides nothing about the store. It runs against any store that answers
requests, with its state threaded from request to request, and several plans can be run against one
store request by request.
-/
namespace StackJournal

inductive Request where
  | append (stack : Uuid) (expected : Nat) (kind : EventKind) (payload : Option Json)
  | load (stack : Uuid)
  | version (stack : Uuid)
  | read (position limit : Nat)
  | last

/-- What a request that does not fail is answered with. -/
abbrev Request.Answer : Request → Type
  | append .. => Appended
  | load _ => List Event
  | version _ => Nat
  | read .. => List Event
  | last => Nat

abbrev Request.Reply (request : Request) : Type := Except StoreError request.Answer

/-- A store with state `σ`: its reply to every request, and its state after it. -/
abbrev Answers (σ : Type) := (request : Request) → σ → request.Reply × σ

inductive Plan (α : Type) where
  | done (value : α)
  | ask (request : Request) (next : request.Reply → Plan α)

namespace Plan

protected def bind {α β : Type} : Plan α → (α → Plan β) → Plan β
  | done value, f => f value
  | ask request next, f => ask request fun reply => (next reply).bind f

instance : Monad Plan where
  pure := done
  bind := Plan.bind

def request (request : Request) : Plan request.Reply := ask request done

def run {σ α : Type} (answers : Answers σ) : Plan α → σ → α × σ
  | done value, state => (value, state)
  | ask request next, state =>
    let (reply, state) := answers request state
    (next reply).run answers state

def runIn {m : Type → Type} [Monad m] {α : Type}
    (answers : (request : Request) → m request.Reply) : Plan α → m α
  | done value => pure value
  | ask request next => do (next (← answers request)).runIn answers

theorem run_bind {σ α β : Type} (answers : Answers σ) (plan : Plan α) (f : α → Plan β) (state : σ) :
    (plan.bind f).run answers state =
      (f (plan.run answers state).1).run answers (plan.run answers state).2 := by
  induction plan generalizing state with
  | done value => rfl
  | ask request next ih => exact ih _ _

end Plan

end StackJournal
