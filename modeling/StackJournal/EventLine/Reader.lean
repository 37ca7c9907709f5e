import StackJournal.EventLine.Field
import StackJournal.Json.Skip

/-! # Reading event lines

An event is written as an object, with its fields in any order and unknown fields passed over, or
as an array of its six fields. Fields are read from the left into a draft; a field that comes twice
is an error where it comes again, a field that never comes is an error at the end. Only the payload
may be left out.
-/
namespace StackJournal.EventLine

open Json

inductive Field where
  | stack
  | sequence
  | kind
  | payload
  | position
  | recordedAt
  deriving DecidableEq, Repr

namespace Field

/-- The fields, in the order of an event written as an array. -/
def all : List Field := [stack, sequence, kind, payload, position, recordedAt]

def key : Field → String
  | stack => "aggregateId"
  | sequence => "sequence"
  | kind => "kind"
  | payload => "payload"
  | position => "position"
  | recordedAt => "recordedAt"

def ofKey? (text : String) : Option Field := all.find? (·.key == text)

end Field

structure Draft where
  stack : Option Uuid
  sequence : Option Nat
  kind : Option EventKind
  payload : Option (Option Json)
  position : Option Nat
  recordedAt : Option Timestamp

namespace Draft

def empty : Draft := ⟨none, none, none, none, none, none⟩

def has (draft : Draft) : Field → Bool
  | .stack => draft.stack.isSome
  | .sequence => draft.sequence.isSome
  | .kind => draft.kind.isSome
  | .payload => draft.payload.isSome
  | .position => draft.position.isSome
  | .recordedAt => draft.recordedAt.isSome

def readField (draft : Draft) (field : Field) (s : List Char) :
    Except Error (Draft × List Char) := do
  match field with
  | .stack =>
    let (id, s) ← readUuid s
    .ok ({ draft with stack := some id }, s)
  | .sequence =>
    let (n, s) ← readNat s
    .ok ({ draft with sequence := some n }, s)
  | .kind =>
    let (kind, s) ← readKind s
    .ok ({ draft with kind := some kind }, s)
  | .payload =>
    let (payload, s) ← readPayload s
    .ok ({ draft with payload := some payload }, s)
  | .position =>
    let (n, s) ← readNat s
    .ok ({ draft with position := some n }, s)
  | .recordedAt =>
    let (moment, s) ← readTimestamp s
    .ok ({ draft with recordedAt := some moment }, s)

def need {α : Type} (field : Field) : Option α → Except Error α
  | some a => .ok a
  | none => .error (.missingField field.key)

def complete (draft : Draft) : Except Error Event := do
  let stack ← need .stack draft.stack
  let sequence ← need .sequence draft.sequence
  let kind ← need .kind draft.kind
  let position ← need .position draft.position
  let recordedAt ← need .recordedAt draft.recordedAt
  .ok ⟨stack, sequence, kind, draft.payload.getD none, position, recordedAt⟩

end Draft

/-- The fields of an object after its brace, at most `fuel` of them. -/
def readMembers : (fuel : Nat) → (first : Bool) → Draft → List Char →
    Except Error (Draft × List Char)
  | 0, _, _, _ => .error (.malformed .endInObject)
  | fuel + 1, first, draft, s => do
    match ← plain (nextField first s) with
    | .closed rest => .ok (draft, rest)
    | .item s =>
      let (key, s) ← plain (readString 0 s)
      match Field.ofKey? (String.ofList key) with
      | none =>
        let s ← plain (readColon s)
        let s ← plain (skipValue s)
        readMembers fuel false draft s
      | some field =>
        if draft.has field then .error (.duplicateField field.key)
        else do
          let s ← plain (readColon s)
          let (draft, s) ← draft.readField field s
          readMembers fuel false draft s

/-- The fields of an array after its bracket, `count` of them read before. An array may end before
its payload, but then the field after it is missing. -/
def readPlaces : List Field → (count : Nat) → Draft → List Char → Except Error (Draft × List Char)
  | [], _, draft, s =>
    match skipSpace s with
    | [] => .error (.malformed .endInArray)
    | c :: rest =>
      if c = ']' then .ok (draft, rest)
      else
        let again := c = ',' ∧ (skipSpace rest).head? = some ']'
        .error (.malformed (if again then .trailingComma else .trailingCharacters))
  | field :: more, count, draft, s => do
    match ← plain (nextItem (count == 0) s) with
    | .closed _ => .error (.tooFewItems (if field = .payload then count + 1 else count))
    | .item s =>
      let (draft, s) ← draft.readField field s
      readPlaces more (count + 1) draft s

def readEvent (s : List Char) : Except Error (Event × List Char) :=
  match skipSpace s with
  | [] => .error (.malformed .endInValue)
  | c :: rest => do
    if c = '{' then
      let (draft, s) ← readMembers (rest.length + 1) true Draft.empty rest
      .ok (← draft.complete, s)
    else if c = '[' then
      let (draft, s) ← readPlaces Field.all 0 Draft.empty rest
      .ok (← draft.complete, s)
    else refuse recordName c rest

end StackJournal.EventLine

namespace StackJournal

open EventLine

def Event.ofLine (line : String) : Except EventLine.Error Event := do
  let (event, rest) ← readEvent line.toList
  plain (Json.readEnd rest)
  .ok event

/-- The name that a whole text writes, as a string or as an object. -/
def EventLine.nameOfText {α : Type} (ofName? : String → Option α) (known : List String)
    (text : String) : Except EventLine.Error α := do
  let (a, rest) ← readName ofName? known text.toList
  plain (Json.readEnd rest)
  .ok a

def Kapp.ofJson (text : String) : Except EventLine.Error Kapp :=
  nameOfText Kapp.ofName? Kapp.names text

def EventKind.ofJson (text : String) : Except EventLine.Error EventKind :=
  nameOfText EventKind.ofName? EventKind.names text

end StackJournal
