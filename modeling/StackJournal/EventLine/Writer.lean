import StackJournal.Event
import StackJournal.EventLine.Reader
import StackJournal.Json.Writer

/-! # Writing event lines

An event is written as one object on one line, its fields in fixed order, without the payload if it
has none.
-/
namespace StackJournal

open EventLine Json Text

def EventLine.member (key : String) (value : List Char) : List Char :=
  quote key.toList ++ ':' :: value

def Event.lineText (event : Event) : List Char :=
  let payload :=
    match event.payload with
    | some value => ',' :: member Field.payload.key value.text
    | none => []
  '{' :: member Field.stack.key (quote event.stack.text) ++
    ',' :: member Field.sequence.key (decimal event.sequence) ++
    ',' :: member Field.kind.key (quote event.kind.name.toList) ++ payload ++
    ',' :: member Field.position.key (decimal event.position) ++
    ',' :: member Field.recordedAt.key (quote event.recordedAt.text) ++ ['}']

/-- The line that writes an event, without its end. -/
def Event.line (event : Event) : String := String.ofList event.lineText

/-- An entry of the audit trail as one object. -/
def LogEntry.text (entry : LogEntry) : List Char :=
  '{' :: member "position" (decimal entry.position) ++
    ',' :: member "aggregateId" (quote entry.stack.text) ++
    ',' :: member "version" (decimal entry.version) ++
    ',' :: member "kind" (quote entry.kind.name.toList) ++ ['}']

end StackJournal
