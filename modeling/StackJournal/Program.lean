import StackJournal.Console
import StackJournal.Store

/-! # The program

The program opens a journal and runs the console on it. It ends with code 1 if the journal cannot be
opened or the console breaks down, and with code 0 otherwise.
-/
namespace StackJournal

namespace Program

def name : String := "kapplang"

def version : String := "0.1.0"

structure Outcome where
  code : UInt8
  output : ByteArray
  /-- The journal's file. -/
  file : ByteArray

def codeOf (breakdown : Option Breakdown) : UInt8 := if breakdown.isSome then 1 else 0

/-- The run on a file's content and an input, at a moment and with the ids of new stacks given. -/
def run (now : Timestamp) (ids : Nat → Uuid) (file input : ByteArray) : Outcome :=
  match Journal.ofFile file with
  | .error _ => ⟨1, .empty, file⟩
  | .ok journal =>
    let plan := (Console.start .unlimited).run .standard ids (Text.lines input)
    let ((breakdown, console), journal) :=
      plan.run (fun request journal => journal.answers now .sound request) journal
    ⟨codeOf breakdown, console.sink.written, journal.file⟩

end Program

end StackJournal
