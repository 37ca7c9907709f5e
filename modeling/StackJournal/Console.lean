import StackJournal.App
import StackJournal.Console.Command
import StackJournal.Console.Sink
import StackJournal.EventLine.Writer
import StackJournal.Json.Writer
import StackJournal.Text.Basic

/-! # The console

The console carries out the commands of its input line by line on the stack selected and answers
each with lines of JSON, or with one line that says what was wrong; then it goes on with the next
line. Only a line that is no text and a sink that takes no more end it early.
-/
namespace StackJournal

/-- Why a command was not carried out. -/
inductive Refusal where
  | app (error : AppError)
  | noStack
  | usage (usage : Command.Usage)

def Refusal.message : Refusal → String
  | app error => error.message
  | noStack => "no stack selected (use `new` or `use <id>`)"
  | usage u => s!"usage: {u.text}"

structure Console where
  /-- The stack selected. -/
  current : Option Uuid
  /-- How many stacks it has created. -/
  created : Nat
  sink : Sink

namespace Console

def start (sink : Sink) : Console := ⟨none, 0, sink⟩

/-- A plan that can end in a refusal. -/
abbrev Attempt := ExceptT Refusal Plan

def attempt {α : Type} (service : Service α) : Attempt α :=
  ExceptT.mk do return (← service.run).mapError Refusal.app

def selected (current : Option Uuid) : Attempt Uuid :=
  match current with
  | some stack => return stack
  | none => throw .noStack

def itemsLine (items : List Int64) : String := (Json.array (items.map Json.ofInt64)).toString

def countsLine (counts : List (String × Nat)) : String :=
  (Json.object (counts.map fun (name, count) => (name, Json.ofNat count))).toString

def entryLine (entry : LogEntry) : String := String.ofList entry.text

/-- Carries out a command: the lines of the answer, and the stack selected from now on. A new stack
gets the id `fresh`. -/
def carryOut (app : App) (fresh : Uuid) (current : Option Uuid) :
    Command → Attempt (List String × Option Uuid)
  | .new => do
    let id ← attempt (App.createStack fresh)
    return ([id.toString], some id)
  | .use stack => do
    let items ← attempt (App.items stack)
    return ([itemsLine items], some stack)
  | .stack => do
    let stack ← selected current
    return ([itemsLine (← attempt (App.items stack))], current)
  | .log start => do
    return ((← attempt (App.eventLog start)).map entryLine, current)
  | .counts start => do
    return ([countsLine (← attempt (app.counts start))], current)
  | .push value => do
    let stack ← selected current
    let _ ← attempt (app.push stack value)
    return ([itemsLine (← attempt (App.items stack))], current)
  | .kapp name => do
    let stack ← selected current
    let _ ← attempt (app.dispatch stack name)
    return ([itemsLine (← attempt (App.items stack))], current)

/-- The answer to a line's words, and the stack selected and the number of stacks created after
them. -/
def answer (app : App) (fresh : Uuid) (console : Console) (words : List String) :
    Plan (List String × Console) :=
  match Command.ofWords words with
  | .error usage => return refuse (.usage usage)
  | .ok command => do
    match ← (carryOut app fresh console.current command).run with
    | .error refusal => return refuse refusal
    | .ok (lines, current) =>
      let created := if command = .new then console.created + 1 else console.created
      return (lines, { console with current, created })
where
  refuse (refusal : Refusal) : List String × Console := ([s!"error: {refusal.message}"], console)

def takeText (app : App) (fresh : Uuid) (console : Console) (line : String) :
    Plan (Option Breakdown × Console) :=
  match Command.relevant? line with
  | none => return (none, console)
  | some words => do
    let (lines, console) ← console.answer app fresh words
    let (breakdown, sink) := console.sink.deliver lines
    return (breakdown, { console with sink })

def takeLine (app : App) (fresh : Uuid) (console : Console) (line : List UInt8) :
    Plan (Option Breakdown × Console) :=
  match Text.decodeLine line with
  | some text => console.takeText app fresh text
  | none => return (some .unreadable, console)

def finish (console : Console) : Option Breakdown × Console :=
  let (breakdown, sink) := console.sink.flush
  (breakdown, { console with sink })

/-- Takes lines up to a breakdown or to their end. The stack created after `n` others gets the id
`ids n`. -/
def run (app : App) (ids : Nat → Uuid) (console : Console) :
    List (List UInt8) → Plan (Option Breakdown × Console)
  | [] => return console.finish
  | line :: rest => do
    match ← console.takeLine app (ids console.created) line with
    | (none, console) => console.run app ids rest
    | (some breakdown, console) => return (some breakdown, console)

end Console

end StackJournal
