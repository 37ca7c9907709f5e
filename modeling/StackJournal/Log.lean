import StackJournal.Error

/-! # The event log

All events in the order of their positions, and for each stack the places of its events. The log
itself numbers what is appended, so the two always agree; `version` and `load` use the places and
never search the events.
-/
namespace StackJournal

/-- For each stack with events, the places of its events in the log, in order. -/
abbrev Streams := List (Uuid × Array Nat)

namespace Streams

def places (streams : Streams) (stack : Uuid) : Array Nat := (streams.lookup stack).getD #[]

/-- Adds a place to the stream of a stack, which begins if the stack has none. -/
def push (stack : Uuid) (place : Nat) : Streams → Streams
  | [] => [(stack, #[place])]
  | (id, places) :: rest =>
    if id = stack then (id, places.push place) :: rest else (id, places) :: push stack place rest

end Streams

structure Log where
  events : Array Event
  streams : Streams

namespace Log

def empty : Log := ⟨#[], []⟩

def lastPosition (log : Log) : Nat := log.events.size

/-- The number of events a stack has. -/
def version (log : Log) (stack : Uuid) : Nat := (log.streams.places stack).size

/-- The number of stacks with events. -/
def stackCount (log : Log) : Nat := log.streams.length

def load (log : Log) (stack : Uuid) : List Event :=
  (log.streams.places stack).toList.filterMap (log.events[·]?)

/-- At most `limit` events from a position on; position 0 is the beginning. -/
def readFrom (log : Log) (position limit : Nat) : List Event :=
  (log.events.extract (position - 1) (position - 1 + limit)).toList

/-- The event to be appended to a stack that is still at version `expected`. -/
def nextEvent (log : Log) (now : Timestamp) (stack : Uuid) (expected : Nat) (kind : EventKind)
    (payload : Option Json) : Except StoreError Event :=
  let actual := log.version stack
  if actual = expected then
    .ok ⟨stack, expected + 1, kind, payload, log.lastPosition + 1, now⟩
  else .error (.conflict stack expected actual)

def insert (log : Log) (event : Event) : Log :=
  ⟨log.events.push event, log.streams.push event.stack log.events.size⟩

def append (log : Log) (now : Timestamp) (stack : Uuid) (expected : Nat) (kind : EventKind)
    (payload : Option Json) : Except StoreError Appended × Log :=
  match log.nextEvent now stack expected kind payload with
  | .ok event => (.ok ⟨event.sequence, event.position⟩, log.insert event)
  | .error error => (.error error, log)

end Log

end StackJournal
