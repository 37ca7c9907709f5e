import StackJournal.Text.Basic
import StackJournal.Text.Digits
import StackJournal.Uuid

/-! # Commands

A line holds one command: a word and at most one argument. A word that is no command of its own is
an integer to push if it reads as one, and otherwise the name of a kapp.
-/
namespace StackJournal

inductive Command where
  | new
  | use (stack : Uuid)
  | stack
  | log (start : Nat)
  | counts (start : Nat)
  | push (value : Int64)
  | kapp (name : String)
  deriving DecidableEq, Repr

namespace Command

/-- What a line that holds no command should have looked like. -/
inductive Usage where
  | oneArgument
  | use
  | log
  | counts
  | noArgument
  deriving DecidableEq, Repr

def Usage.text : Usage → String
  | oneArgument => "one argument at most"
  | use => "use <stack id>"
  | log => "log [start]"
  | counts => "counts [start]"
  | noArgument => "<kapp> and <integer> take no argument"

def ofWord (word : String) : Command :=
  match Text.signed? word.toList with
  | some value => push value
  | none => kapp word

def start (usage : Usage) (text : String) : Except Usage Nat :=
  match Text.unsigned? text.toList with
  | some position => .ok position
  | none => .error usage

def ofWordAndArgument (word argument : String) : Except Usage Command :=
  match word with
  | "use" =>
    match Uuid.ofString argument with
    | .ok id => .ok (use id)
    | .error _ => .error .use
  | "log" => (start .log argument).map log
  | "counts" => (start .counts argument).map counts
  | _ => .error .noArgument

def ofWords : List String → Except Usage Command
  | [] => .ok (ofWord "")
  | [word] =>
    match word with
    | "new" => .ok new
    | "use" => .error .use
    | "stack" => .ok stack
    | "log" => .ok (log 1)
    | "counts" => .ok (counts 1)
    | _ => .ok (ofWord word)
  | [word, argument] => ofWordAndArgument word argument
  | _ :: _ :: _ :: _ => .error .oneArgument

/-- The words to carry out; nothing for a blank line and for a note, which begins with `#`. -/
def relevant? (line : String) : Option (List String) :=
  match Text.trim line.toList with
  | [] => none
  | '#' :: _ => none
  | text => some ((Text.words text).map String.ofList)

end Command

end StackJournal
