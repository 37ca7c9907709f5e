import StackJournal.Event
import StackJournal.EventLine.Error
import StackJournal.Json.Reader

/-! # Reading one field

Every reader takes the text before a value and answers the value and the text after it. A value of
another type than wanted is read far enough to say what it is.
-/
namespace StackJournal.EventLine

open Json

/-- A reader of plain JSON, with its faults as faults of the line. -/
def plain {α : Type} (result : Except Malformed α) : Except Error α :=
  result.mapError .malformed

/-- Says what kind of value begins with `c`. -/
def readFound (c : Char) (rest : List Char) : Except Error Found :=
  if c = 'n' then do
    let _ ← plain (readWord ['u', 'l', 'l'] rest)
    .ok .null
  else if c = 't' then do
    let _ ← plain (readWord ['r', 'u', 'e'] rest)
    .ok (.bool true)
  else if c = 'f' then do
    let _ ← plain (readWord ['a', 'l', 's', 'e'] rest)
    .ok (.bool false)
  else if c = '-' then do
    let (n, _) ← plain (Number.read true rest)
    .ok (.number n)
  else if c.isDigit then do
    let (n, _) ← plain (Number.read false (c :: rest))
    .ok (.number n)
  else if c = '"' then do
    let (text, _) ← plain (readString 0 rest)
    .ok (.string (String.ofList text))
  else if c = '[' then .ok .array
  else if c = '{' then .ok .object
  else .error (.malformed .expectedValue)

def refuse {α : Type} (wanted : String) (c : Char) (rest : List Char) : Except Error α := do
  let found ← readFound c rest
  .error (.wrongType found wanted)

def readNat (s : List Char) : Except Error (Nat × List Char) :=
  match skipSpace s with
  | [] => .error (.malformed .endInValue)
  | c :: rest => do
    if c = '-' ∨ c.isDigit then
      let (n, after) ←
        plain (if c = '-' then Number.read true rest else Number.read false (c :: rest))
      match n with
      | .natural n => .ok (n.toNat, after)
      | .negative k => .error (.wrongValue (.number (.negative k)) "u64")
      | .float x => .error (.wrongType (.number (.float x)) "u64")
    else refuse "u64" c rest

def readText (wanted : String) (s : List Char) : Except Error (List Char × List Char) :=
  match skipSpace s with
  | [] => .error (.malformed .endInValue)
  | c :: rest => if c = '"' then plain (readString 0 rest) else refuse wanted c rest

def readUuid (s : List Char) : Except Error (Uuid × List Char) := do
  let (text, after) ← readText "a formatted UUID string" s
  let id ← (Uuid.ofText text).mapError .badUuid
  .ok (id, after)

def readTimestamp (s : List Char) : Except Error (Timestamp × List Char) := do
  let (text, after) ← readText "an RFC 3339 formatted date and time string" s
  let moment ← (Timestamp.ofText text).mapError .badTimestamp
  .ok (moment, after)

/-- Null or nothing: a name carries no data. -/
def readUnit (s : List Char) : Except Error (List Char) :=
  match skipSpace s with
  | [] => .error (.malformed .endInValue)
  | c :: rest => if c = 'n' then plain (readWord ['u', 'l', 'l'] rest) else refuse "unit" c rest

def lookUp {α : Type} (ofName? : String → Option α) (known : List String) (text : List Char) :
    Except Error α :=
  match ofName? (String.ofList text) with
  | some a => .ok a
  | none => .error (.unknownName (String.ofList text) known)

/-- One of some known names: a string, or an object with the name as its only key and null as its
value. -/
def readName {α : Type} (ofName? : String → Option α) (known : List String) (s : List Char) :
    Except Error (α × List Char) :=
  match skipSpace s with
  | [] => .error (.malformed .endInValue)
  | c :: rest =>
    if c = '"' then do
      let (text, after) ← plain (readString 0 rest)
      .ok (← lookUp ofName? known text, after)
    else if c = '{' then
      match skipSpace rest with
      | [] => .error (.malformed .endInObject)
      | d :: rest =>
        if d = '"' then do
          let (text, s) ← plain (readString 0 rest)
          let a ← lookUp ofName? known text
          let s ← readUnit (← plain (readColon s))
          match skipSpace s with
          | [] => .error (.malformed .endInObject)
          | e :: after => if e = '}' then .ok (a, after) else .error (.malformed .expectedValue)
        else .error (.malformed (if d = '}' then .expectedValue else .keyNotString))
    else .error (.malformed .expectedValue)

def readKind (s : List Char) : Except Error (EventKind × List Char) :=
  readName EventKind.ofName? EventKind.names s

/-- A payload has one bracket less to open than a document, for the event around it. Null is no
payload. -/
def readPayload (s : List Char) : Except Error (Option Json × List Char) :=
  let s := skipSpace s
  if s.head? = some 'n' then do
    let after ← plain (readWord ['u', 'l', 'l'] (s.drop 1))
    .ok (none, after)
  else do
    let (value, after) ← plain (readValue (depthLimit - 1) s)
    .ok (some value, after)

end StackJournal.EventLine
