import StackJournal.Plan

/-! # Feeds

A feed hands out the events of all stacks from a position on, one at a time, and fetches them from
the store in sections. Its end is fixed when it starts: events appended later are left to the next
feed. After a failed fetch it hands out nothing more.
-/
namespace StackJournal

structure Feed where
  /-- How many events to fetch at once. -/
  size : Nat
  /-- The position from which to fetch. -/
  next : Nat
  /-- The position after which to stop. -/
  last : Nat
  /-- Events fetched and not yet handed out. -/
  held : List Event
  failed : Bool
  deriving DecidableEq

namespace Feed

def standardSize : Nat := 10

/-- A feed from a position on, to the last event that the store has now. Positions count from 1, and
a section holds one event at least. -/
def start (size position : Nat) : Plan (Except StoreError Feed) := do
  match ← Plan.request .last with
  | .ok last => return .ok ⟨max size 1, max position 1, last, [], false⟩
  | .error error => return .error error

/-- The first of some fetched events, and the feed that holds the others. -/
def handOut (feed : Feed) : List Event → Option Event × Feed
  | [] => (none, { feed with held := [] })
  | event :: rest => (some event, { feed with next := event.position + 1, held := rest })

/-- The next event, the failure of a fetch, or nothing. -/
def pull (feed : Feed) : Plan (Option (Except StoreError Event) × Feed) :=
  if feed.failed then return (none, feed)
  else if feed.held ≠ [] ∨ feed.last < feed.next then
    let (event, feed) := feed.handOut feed.held
    return (event.map .ok, feed)
  else do
    match ← Plan.request (.read feed.next (min (feed.last + 1 - feed.next) feed.size)) with
    | .ok fetched =>
      let (event, feed) := feed.handOut fetched
      return (event.map .ok, feed)
    | .error error => return (some (.error error), { feed with failed := true })

/-- Collects what `fuel` pulls hand out, the latest event first. -/
def collect : (fuel : Nat) → Feed → List Event → Plan (Except StoreError (List Event))
  | 0, _, events => return .ok events
  | fuel + 1, feed, events => do
    match ← feed.pull with
    | (some (.ok event), feed) => collect fuel feed (event :: events)
    | (some (.error error), _) => return .error error
    | (none, _) => return .ok events

def drain (feed : Feed) : Plan (Except StoreError (List Event)) := do
  match ← feed.collect (feed.last + 1 - feed.next) [] with
  | .ok events => return .ok events.reverse
  | .error error => return .error error

end Feed

end StackJournal
