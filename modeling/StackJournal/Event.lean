import StackJournal.Json.Value
import StackJournal.Kapp
import StackJournal.Timestamp
import StackJournal.Uuid

/-! # Events

An event records one step of one stack. It has two numbers: its sequence in the history of its
stack and its position among the events of all stacks, both counted from 1. A stack begins with one
`create` event; every later event records a kapp.
-/
namespace StackJournal

inductive EventKind where
  | create
  | kapp (kapp : Kapp)
  deriving DecidableEq, Repr

namespace EventKind

def all : List EventKind := create :: Kapp.all.map kapp

def name : EventKind → String
  | create => "create"
  | kapp k => k.name

def names : List String := all.map name

/-- The kapp an event of this kind records; `create` records none. -/
def kapp? : EventKind → Option Kapp
  | create => none
  | kapp k => some k

def ofName? (text : String) : Option EventKind := all.find? (·.name == text)

def act : EventKind → List Int64 → List Int64
  | create, _ => []
  | kapp k, items => k.act items

theorem ofName?_name (kind : EventKind) : ofName? kind.name = some kind := by
  rcases kind with _ | k
  · decide
  · cases k <;> decide

end EventKind

structure Event where
  stack : Uuid
  sequence : Nat
  kind : EventKind
  payload : Option Json
  position : Nat
  recordedAt : Timestamp
  deriving DecidableEq

structure Appended where
  version : Nat
  position : Nat
  deriving DecidableEq, Repr

structure LogEntry where
  position : Nat
  stack : Uuid
  version : Nat
  kind : EventKind
  deriving DecidableEq, Repr

def Event.entry (event : Event) : LogEntry :=
  ⟨event.position, event.stack, event.sequence, event.kind⟩

end StackJournal
