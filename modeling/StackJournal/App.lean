import StackJournal.Feed
import StackJournal.Gate

/-! # The application

Every call rebuilds the stack it works on from the store's events and keeps nothing between calls.
What it changes goes through the store's check of versions: where another writer was faster, nothing
is appended and the call ends in a conflict.
-/
namespace StackJournal

/-- A plan that can end in an error of the application. -/
abbrev Service := ExceptT AppError Plan

/-- Asks the store, and ends in its error if it has one. -/
def Service.ask (request : Request) : Service request.Answer :=
  ExceptT.mk do return (← Plan.request request).mapError AppError.ofStore

def Service.ofExcept {α : Type} (result : Except AppError α) : Service α := ExceptT.mk (pure result)

structure App where
  gate : Gate

namespace App

def standard : App := ⟨Gate.standard⟩

/-- The greatest magnitude that is pushed step by step. -/
def maxLiteral : Nat := 1000000

def load (stack : Uuid) : Service Stack := do
  let events ← Service.ask (.load stack)
  Service.ofExcept ((Stack.ofHistory stack events).mapError (AppError.ofHistory stack))

/-- Appends the events that a stack holds, each at the version it was decided at. -/
def save (stack : Stack) : Service Stack := do
  let (events, stack) := stack.takePending
  events.forM fun event => do
    let _ ← Service.ask (.append event.stack (event.sequence - 1) event.kind none)
  return stack

/-- Creates a stack under an id that no stack has. -/
def createStack (id : Uuid) : Service Uuid := do
  return (← save (Stack.create id)).id

def literal (value : Int64) : Except AppError (List Kapp) :=
  if maxLiteral < value.toInt.natAbs then .error (.literalOutOfRange value maxLiteral)
  else .ok (Kapp.literal value)

/-- The items of a stack, from the bottom up. -/
def items (stack : Uuid) : Service (List Int64) := do
  return (← load stack).items

/-- Runs a kapp on a stack and answers the stack's new version. The stack is looked up before the
name is. -/
def dispatch (app : App) (stack : Uuid) (name : String) : Service Nat := do
  let stack ← load stack
  let kapp ← Service.ofExcept (app.gate.resolve name)
  return (← save (stack.execute kapp)).version

/-- Dispatches names in order, up to the first that fails. -/
def dispatchAll (app : App) (stack : Uuid) (names : List String) : Service Nat := do
  let version ← Service.ask (.version stack)
  if version = 0 then throw (.notFound stack)
  names.foldlM (fun _ name => app.dispatch stack name) version

def push (app : App) (stack : Uuid) (value : Int64) : Service Nat := do
  app.dispatchAll stack ((← Service.ofExcept (literal value)).map Kapp.name)

def eventsFrom (position : Nat) : Service (List Event) := ExceptT.mk do
  match ← Feed.start Feed.standardSize position with
  | .ok feed => return (← feed.drain).mapError AppError.ofStore
  | .error error => return .error (AppError.ofStore error)

def eventLog (position : Nat) : Service (List LogEntry) := do
  return (← eventsFrom position).map Event.entry

/-- How often each name occurs, in the order of the names. -/
def tally (names : List String) : List (String × Nat) :=
  (names.eraseDups.mergeSort (· ≤ ·)).map fun name => (name, names.count name)

def counts (app : App) (position : Nat) : Service (List (String × Nat)) := do
  let names := (← eventsFrom position).map (·.kind.name)
  return tally (names.filter app.gate.isGrounded)

end App

end StackJournal
