/-! # Sinks

A sink takes the console's answers. It may be limited: it takes only so many bytes in all, and it
lets itself be flushed only so often. It notes at each flush how many lines were complete.
-/
namespace StackJournal

/-- Why the console stops before its input ends. -/
inductive Breakdown where
  | sinkFull
  | flushRefused
  /-- A line is not valid UTF-8. -/
  | unreadable
  deriving DecidableEq, Repr

/-- What is said of a breakdown; of an unreadable line nothing. -/
def Breakdown.message? : Breakdown → Option String
  | sinkFull => some "writer full"
  | flushRefused => some "flush refused"
  | unreadable => none

structure Sink where
  written : ByteArray
  /-- The number of complete lines at each flush. -/
  flushes : Array Nat
  /-- How many bytes it takes in all. -/
  capacity : Option Nat
  /-- How many flushes it allows in all. -/
  patience : Option Nat

namespace Sink

def unlimited : Sink := ⟨.empty, #[], none, none⟩

def limited (capacity patience : Option Nat) : Sink := ⟨.empty, #[], capacity, patience⟩

/-- Takes a text, as far as there is room. -/
def write (sink : Sink) (text : String) : Option Breakdown × Sink :=
  let bytes := text.toUTF8
  match sink.capacity with
  | none => (none, { sink with written := sink.written ++ bytes })
  | some capacity =>
    let room := capacity - sink.written.size
    if bytes.size ≤ room then (none, { sink with written := sink.written ++ bytes })
    else (some .sinkFull, { sink with written := sink.written ++ bytes.extract 0 room })

def writeAll (sink : Sink) : List String → Option Breakdown × Sink
  | [] => (none, sink)
  | text :: rest =>
    match sink.write text with
    | (none, sink) => sink.writeAll rest
    | (some breakdown, sink) => (some breakdown, sink)

def lineCount (sink : Sink) : Nat := sink.written.data.toList.count 10

def flush (sink : Sink) : Option Breakdown × Sink :=
  if sink.patience.any (· ≤ sink.flushes.size) then (some .flushRefused, sink)
  else (none, { sink with flushes := sink.flushes.push sink.lineCount })

/-- Takes the lines of an answer and is flushed. -/
def deliver (sink : Sink) (lines : List String) : Option Breakdown × Sink :=
  match sink.writeAll (lines.map (· ++ "\n")) with
  | (none, sink) => sink.flush
  | (some breakdown, sink) => (some breakdown, sink)

end Sink

end StackJournal
