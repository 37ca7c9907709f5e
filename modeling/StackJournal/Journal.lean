import StackJournal.EventLine.Writer
import StackJournal.Log
import StackJournal.Text.Basic

/-! # The journal

A log kept in a file of lines, one event each. Opening reads the whole file back and refuses it at
its first line that is no event or breaks the order. Appending writes one line; if the write fails,
the file is cut back to its old length, and if that fails too the journal takes no more events until
it is opened again.
-/
namespace StackJournal

structure Journal where
  log : Log
  file : ByteArray
  poisoned : Bool

/-- A failed write: how many bytes got through, and whether they could be cut off again. -/
structure WriteFault where
  written : Nat
  undone : Bool
  deriving DecidableEq, Repr

/-- How a disk takes a write of the given size: without fault, or with one. -/
abbrev Disk := (size : Nat) → Option WriteFault

def Disk.sound : Disk := fun _ => none

/-- The disk that lets through only so many bytes of each write. What it took it gives back if it
can shrink the file; where nothing got through there is nothing to give back. -/
def Disk.limited (room : Nat) (shrinkable : Bool) : Disk := fun size =>
  if size ≤ room then none else some ⟨room, shrinkable || room == 0⟩

def Event.bytes (event : Event) : ByteArray := (event.line ++ "\n").toUTF8

namespace Journal

/-- Adds an event read from a line, if it is the next one of the log and of its stack. -/
def accept (log : Log) (number : Nat) (event : Event) : Except StoreError Log :=
  let position := log.lastPosition + 1
  let sequence := log.version event.stack + 1
  if event.position ≠ position then
    .error (.invalidEvent number (.wrongPosition position event.position))
  else if event.sequence ≠ sequence then
    .error (.invalidEvent number (.wrongSequence sequence event.stack event.sequence))
  else .ok (log.insert event)

/-- Reads one more line, with its number in the file, into the log of the lines before it. Blank
lines count but hold nothing. -/
def loadLine (log : Log) (number : Nat) (line : List UInt8) : Except StoreError Log :=
  match Text.decodeLine line with
  | none => .error (.io none)
  | some text =>
    if Text.trim text.toList = [] then .ok log
    else
      match Event.ofLine text with
      | .error error => .error (.invalidEvent number (.unreadable error))
      | .ok event => accept log number event

def loadLines (log : Log) (number : Nat) : List (List UInt8) → Except StoreError Log
  | [] => .ok log
  | line :: rest => do loadLines (← loadLine log number line) (number + 1) rest

def load (file : ByteArray) : Except StoreError Log := loadLines Log.empty 1 (Text.lines file)

def ofFile (file : ByteArray) : Except StoreError Journal := do
  .ok ⟨← load file, file, false⟩

/-- The event to be written next, unless the journal takes none or the stack has moved on. -/
def prepare (journal : Journal) (now : Timestamp) (stack : Uuid) (expected : Nat) (kind : EventKind)
    (payload : Option Json) : Except StoreError Event :=
  if journal.poisoned then .error .poisoned
  else journal.log.nextEvent now stack expected kind payload

def settle (journal : Journal) (event : Event) (fault : Option WriteFault) :
    Except StoreError Appended × Journal :=
  match fault with
  | none =>
    (.ok ⟨event.sequence, event.position⟩,
      { journal with log := journal.log.insert event, file := journal.file ++ event.bytes })
  | some fault =>
    let torn := journal.file ++ event.bytes.extract 0 fault.written
    if fault.undone then
      (.error (.io none), { journal with file := torn.extract 0 journal.file.size })
    else (.error (.io none), { journal with file := torn, poisoned := true })

def append (journal : Journal) (now : Timestamp) (disk : Disk) (stack : Uuid) (expected : Nat)
    (kind : EventKind) (payload : Option Json) : Except StoreError Appended × Journal :=
  match journal.prepare now stack expected kind payload with
  | .ok event => journal.settle event (disk event.bytes.size)
  | .error error => (.error error, journal)

end Journal

end StackJournal
