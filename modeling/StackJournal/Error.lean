import StackJournal.EventLine.Error
import StackJournal.Stack

/-! # Errors

A store refuses a call for one of five causes, the application for one of its own or for the
store's. Every wording stands here once. A conflict found by the store is a conflict of the
application too, in words of its own; it is the one error after which to try again.
-/
namespace StackJournal

/-- What is wrong with a line of the event file. -/
inductive LineFault where
  | unreadable (error : EventLine.Error)
  | wrongPosition (expected found : Nat)
  | wrongSequence (expected : Nat) (stack : Uuid) (found : Nat)

def LineFault.reason : LineFault → String
  | unreadable error => error.message
  | wrongPosition expected found => s!"expected position {expected}, found {found}"
  | wrongSequence expected stack found =>
    s!"expected sequence {expected} for {stack.toString}, found {found}"

inductive StoreError where
  /-- The detail is missing where it is the system's to say. -/
  | io (detail : Option String)
  | json (fault : Json.Malformed)
  | conflict (stack : Uuid) (expected actual : Nat)
  | invalidEvent (line : Nat) (fault : LineFault)
  | poisoned

namespace StoreError

def ioText (detail : Option String) : String :=
  match detail with
  | some text => s!"IO error: {text}"
  | none => "IO error"

def invalidEventText (line : Nat) (reason : String) : String :=
  s!"invalid event at line {line}: {reason}"

def message : StoreError → String
  | io detail => ioText detail
  | json fault => s!"JSON error: {fault.message}"
  | conflict stack expected actual =>
    s!"aggregate {stack.toString} is at version {actual}, expected {expected}"
  | invalidEvent line fault => invalidEventText line fault.reason
  | poisoned => "event log refused further appends after a failed write"

end StoreError

inductive AppError where
  | ungrounded (name : String)
  | unimplemented (name : String)
  | notFound (stack : Uuid)
  | literalOutOfRange (value : Int64) (most : Nat)
  | conflict (stack : Uuid) (expected actual : Nat)
  | corruptHistory (stack : Uuid) (fault : Corruption)
  | store (error : StoreError)

namespace AppError

def corruptText (stack : Uuid) (reason : String) : String :=
  s!"corrupt history for stack {stack.toString}: {reason}"

def message : AppError → String
  | ungrounded name => s!"kapp {name} not grounded"
  | unimplemented name => s!"kapp {name} implementation not found"
  | notFound stack => s!"stack {stack.toString} not found"
  | literalOutOfRange value most =>
    s!"literal {value.toInt} out of range (magnitude at most {most})"
  | conflict stack expected actual =>
    s!"concurrency conflict on stack {stack.toString}: expected version {expected}, found {actual}"
  | corruptHistory stack fault => corruptText stack fault.reason
  | store error => error.message

def isRetryable : AppError → Bool
  | conflict .. => true
  | _ => false

def ofStore : StoreError → AppError
  | .conflict stack expected actual => conflict stack expected actual
  | error => store error

def ofHistory (stack : Uuid) : HistoryError → AppError
  | .empty => notFound stack
  | .corrupt fault => corruptHistory stack fault

end AppError

end StackJournal
