import StackJournal.Json.Number
import StackJournal.Json.Text

/-! # Reading JSON values

A value is read from the left, and the text after it is answered with it. At most `depthLimit`
brackets may be open at once: the depth still allowed is what the recursion descends on, so the
loops over items and fields take the reader of one item as an argument.
-/
namespace StackJournal.Json

def depthLimit : Nat := 127

/-- Reads the rest of a word whose first letter decided for it. -/
def readWord : (word : List Char) → List Char → Except Malformed (List Char)
  | [], s => .ok s
  | _ :: _, [] => .error .endInValue
  | w :: word, c :: rest => if c = w then readWord word rest else .error .expectedWord

/-- Where reading goes on inside brackets: at one more item, or after the closing bracket. -/
inductive Onward where
  | item (s : List Char)
  | closed (s : List Char)

/-- Reads what parts the next item of an array from the one before. -/
def nextItem (first : Bool) (s : List Char) : Except Malformed Onward :=
  match skipSpace s with
  | [] => .error .endInArray
  | c :: rest =>
    if c = ']' then .ok (.closed rest)
    else if first then .ok (.item (c :: rest))
    else if c = ',' then
      match skipSpace rest with
      | [] => .error .endInValue
      | d :: rest => if d = ']' then .error .trailingComma else .ok (.item (d :: rest))
    else .error .expectedCommaOrBracket

/-- Reads what parts the next field of an object from the one before, the first quote of its key
included. -/
def nextField (first : Bool) (s : List Char) : Except Malformed Onward :=
  match skipSpace s with
  | [] => .error .endInObject
  | c :: rest =>
    if c = '}' then .ok (.closed rest)
    else if first then
      if c = '"' then .ok (.item rest) else .error .keyNotString
    else if c = ',' then
      match skipSpace rest with
      | [] => .error .endInValue
      | d :: rest =>
        if d = '"' then .ok (.item rest)
        else if d = '}' then .error .trailingComma
        else .error .keyNotString
    else .error .expectedCommaOrBrace

def readColon (s : List Char) : Except Malformed (List Char) :=
  match skipSpace s with
  | [] => .error .endInObject
  | c :: rest => if c = ':' then .ok rest else .error .expectedColon

/-- The items of an array after its bracket, at most `fuel` of them. -/
def readItems (item : List Char → Except Malformed (Json × List Char)) :
    (fuel : Nat) → (first : Bool) → List Char → Except Malformed (List Json × List Char)
  | 0, _, _ => .error .endInArray
  | fuel + 1, first, s => do
    match ← nextItem first s with
    | .closed rest => .ok ([], rest)
    | .item s => do
      let (value, s) ← item s
      let (values, s) ← readItems item fuel false s
      .ok (value :: values, s)

/-- The fields of an object after its brace, at most `fuel` of them, in written order. -/
def readFields (item : List Char → Except Malformed (Json × List Char)) :
    (fuel : Nat) → (first : Bool) → List Char →
      Except Malformed (List (String × Json) × List Char)
  | 0, _, _ => .error .endInObject
  | fuel + 1, first, s => do
    match ← nextField first s with
    | .closed rest => .ok ([], rest)
    | .item s => do
      let (key, s) ← readString 0 s
      let s ← readColon s
      let (value, s) ← item s
      let (fields, s) ← readFields item fuel false s
      .ok ((String.ofList key, value) :: fields, s)

/-- Reads a value that may open `depth` brackets within one another. -/
def readValue (depth : Nat) (s : List Char) : Except Malformed (Json × List Char) :=
  match skipSpace s with
  | [] => .error .endInValue
  | c :: rest =>
    if c = 'n' then do
      let s ← readWord ['u', 'l', 'l'] rest
      .ok (.null, s)
    else if c = 't' then do
      let s ← readWord ['r', 'u', 'e'] rest
      .ok (.bool true, s)
    else if c = 'f' then do
      let s ← readWord ['a', 'l', 's', 'e'] rest
      .ok (.bool false, s)
    else if c = '-' then do
      let (n, s) ← Number.read true rest
      .ok (.number n, s)
    else if c.isDigit then do
      let (n, s) ← Number.read false (c :: rest)
      .ok (.number n, s)
    else if c = '"' then do
      let (text, s) ← readString 0 rest
      .ok (.string (String.ofList text), s)
    else if c = '[' then
      match depth with
      | 0 => .error .tooDeep
      | depth + 1 => do
        let (items, s) ← readItems (readValue depth) (rest.length + 1) true rest
        .ok (.array items, s)
    else if c = '{' then
      match depth with
      | 0 => .error .tooDeep
      | depth + 1 => do
        let (fields, s) ← readFields (readValue depth) (rest.length + 1) true rest
        .ok (ofFields fields, s)
    else .error .expectedValue

/-- Nothing but white space may follow a document. -/
def readEnd (s : List Char) : Except Malformed Unit :=
  if skipSpace s = [] then .ok () else .error .trailingCharacters

def ofText (s : List Char) : Except Malformed Json := do
  let (value, rest) ← readValue depthLimit s
  readEnd rest
  .ok value

def ofString (s : String) : Except Malformed Json := ofText s.toList

end StackJournal.Json
