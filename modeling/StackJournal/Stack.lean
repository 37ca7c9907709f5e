import StackJournal.Event

/-! # Stacks

A stack changes only by applying events. A kapp is first decided, which names the event to come and
changes nothing, then its event is applied and held until it has been recorded.

A history is replayed event by event. It is refused where it breaks a rule: it begins with `create`
and has no other, all its events belong to one stack, and their sequences count 1, 2, 3 without gap.
-/
namespace StackJournal

/-- An event decided and not yet recorded. -/
structure Pending where
  stack : Uuid
  sequence : Nat
  kind : EventKind
  deriving DecidableEq, Repr

structure Stack where
  id : Uuid
  /-- The number of events applied. -/
  version : Nat
  /-- The items, the top one first. -/
  cells : List Int64
  pending : Array Pending
  deriving DecidableEq, Repr

/-- The rule that a history breaks. -/
inductive Corruption where
  | firstNotCreate (kind : EventKind)
  | foreignEvent (position : Nat) (owner : Uuid)
  | wrongSequence (expected found : Nat)
  | repeatedCreate (sequence : Nat)
  deriving DecidableEq, Repr

def Corruption.reason : Corruption → String
  | firstNotCreate kind => s!"first event is {kind.name}, not create"
  | foreignEvent position owner => s!"event at position {position} belongs to {owner.toString}"
  | wrongSequence expected found => s!"expected sequence {expected}, found {found}"
  | repeatedCreate sequence => s!"create repeated at sequence {sequence}"

inductive HistoryError where
  | empty
  | corrupt (fault : Corruption)
  deriving DecidableEq, Repr

namespace Stack

/-- The items from the bottom up. -/
def items (stack : Stack) : List Int64 := stack.cells.reverse

def blank (id : Uuid) : Stack := ⟨id, 0, [], #[]⟩

def apply (stack : Stack) (kind : EventKind) : Stack :=
  { stack with version := stack.version + 1, cells := kind.act stack.cells }

def next (stack : Stack) (kind : EventKind) : Pending := ⟨stack.id, stack.version + 1, kind⟩

def decide (stack : Stack) (kapp : Kapp) : Pending := stack.next (.kapp kapp)

/-- Applies an event and holds it. -/
def commit (stack : Stack) (event : Pending) : Stack :=
  let applied := stack.apply event.kind
  { applied with pending := applied.pending.push event }

def execute (stack : Stack) (kapp : Kapp) : Stack := stack.commit (stack.decide kapp)

def create (id : Uuid) : Stack := (blank id).commit ((blank id).next .create)

def executeAll (stack : Stack) (kapps : List Kapp) : Stack := kapps.foldl execute stack

/-- The events held, and the stack without them. -/
def takePending (stack : Stack) : List Pending × Stack :=
  (stack.pending.toList, { stack with pending := #[] })

def replay (stack : Stack) (event : Event) : Except HistoryError Stack :=
  if event.stack ≠ stack.id then .error (.corrupt (.foreignEvent event.position event.stack))
  else if event.sequence ≠ stack.version + 1 then
    .error (.corrupt (.wrongSequence (stack.version + 1) event.sequence))
  else if event.kind = .create ∧ event.sequence ≠ 1 then
    .error (.corrupt (.repeatedCreate event.sequence))
  else .ok (stack.apply event.kind)

def ofHistory (id : Uuid) : List Event → Except HistoryError Stack
  | [] => .error .empty
  | first :: rest =>
    if first.kind ≠ .create then .error (.corrupt (.firstNotCreate first.kind))
    else (first :: rest).foldlM replay (blank id)

end Stack

end StackJournal
