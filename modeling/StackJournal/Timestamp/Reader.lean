import StackJournal.Timestamp

/-! # Reading moments

The written form of a moment is read leniently: blanks may stand before each field and separator,
fields may have one digit, the day and the time may be parted by a blank, the fraction may have any
count of digits, and an offset from universal time or the word `UTC` may stand for `Z`. The first
fault from the left decides the error; a day the month does not have shows only at the end.
-/
namespace StackJournal.Timestamp

open Text

inductive Error where
  | tooShort
  | invalid
  | outOfRange
  | impossible
  | tooLong
  deriving DecidableEq, Repr

def Error.message : Error → String
  | tooShort => "premature end of input"
  | invalid => "input contains invalid characters"
  | outOfRange => "input is out of range"
  | impossible => "no possible date and time matching input"
  | tooLong => "trailing input"

/-- Every reader answers what it found and the text after it. -/
def readMark (mark : Char) : List Char → Except Error (Unit × List Char)
  | [] => .error .tooShort
  | c :: rest => if c = mark then .ok ((), rest) else .error .invalid

/-- One digit or more, cut off after `most`. -/
def readDigits (most : Nat) (s : List Char) : Except Error (List Char × List Char) :=
  let digits := (s.take most).takeWhile Char.isDigit
  if digits ≠ [] then .ok (digits, s.drop digits.length)
  else .error (if s = [] then .tooShort else .invalid)

/-- A field of one or two digits between two bounds. -/
def readField (least most : Nat) (s : List Char) : Except Error (Nat × List Char) := do
  let (digits, rest) ← readDigits 2 (trimStart s)
  let n := decimalValue digits
  if least ≤ n ∧ n ≤ most then .ok (n, rest) else .error .outOfRange

/-- The first year too great for 32 bits with a sign. -/
def yearLimit : Nat := 0x80000000

/-- Four digits at most, or a sign and any count of digits. -/
def readYear (s : List Char) : Except Error (Int × List Char) :=
  match trimStart s with
  | '-' :: rest => do
    let (digits, rest) ← readDigits rest.length rest
    let n := decimalValue digits
    if n ≤ yearLimit then .ok (-n, rest) else .error .outOfRange
  | '+' :: rest => do
    let (digits, rest) ← readDigits rest.length rest
    let n := decimalValue digits
    if n < yearLimit then .ok (n, rest) else .error .outOfRange
  | s => do
    let (digits, rest) ← readDigits 4 s
    .ok (decimalValue digits, rest)

def readDayEnd : List Char → Except Error (Unit × List Char)
  | [] => .error .tooShort
  | c :: rest =>
    if c = 'T' ∨ c = 't' ∨ c = ' ' then .ok ((), rest) else .error .invalid

/-- Digits beyond the ninth are read and dropped. -/
def readFraction : List Char → Except Error (Nat × List Char)
  | '.' :: rest => do
    let (digits, rest) ← readDigits 9 rest
    .ok (decimalValue digits * Nat.pow 10 (9 - digits.length), rest.dropWhile Char.isDigit)
  | s => .ok (0, s)

/-- Two digits. A character beyond ASCII counts as no digit, not as a missing one. -/
def readPair (s : List Char) : Except Error ((Nat × Nat) × List Char) :=
  match s with
  | a :: b :: rest =>
    if a.isDigit ∧ b.isDigit then .ok ((digitValue a, digitValue b), rest) else .error .invalid
  | [a] => .error (if a.utf8Size = 1 then .tooShort else .invalid)
  | [] => .error .tooShort

/-- Hours and minutes, which a colon or blanks may part, in minutes. -/
def readClock (s : List Char) : Except Error (Nat × List Char) := do
  let ((h, h'), s) ← readPair s
  let s := s.dropWhile fun c => c == ':' || isBlank c
  let ((m, m'), s) ← readPair s
  if m ≤ 5 then .ok ((h * 10 + h') * 60 + m * 10 + m', s) else .error .outOfRange

/-- The minutes by which a time was read ahead of universal time. -/
def readOffset (s : List Char) : Except Error (Int × List Char) :=
  if (s.take 3).map Char.toUpper = ['U', 'T', 'C'] then .ok (0, s.drop 3)
  else
    match s with
    | [] => .error .tooShort
    | c :: rest =>
      if c = 'Z' ∨ c = 'z' then .ok (0, rest)
      else if c = '+' then do
        let (minutes, rest) ← readClock rest
        .ok (minutes, rest)
      else if c = '-' ∨ c = '−' then do
        let (minutes, rest) ← readClock rest
        .ok (-minutes, rest)
      else .error .invalid

def ofText (s : List Char) : Except Error Timestamp := do
  let (year, s) ← readYear s
  let (_, s) ← readMark '-' (trimStart s)
  let (month, s) ← readField 1 12 s
  let (_, s) ← readMark '-' (trimStart s)
  let (day, s) ← readField 1 31 s
  let (_, s) ← readDayEnd s
  let (hour, s) ← readField 0 23 s
  let (_, s) ← readMark ':' (trimStart s)
  let (minute, s) ← readField 0 59 s
  let (_, s) ← readMark ':' (trimStart s)
  let (second, s) ← readField 0 60 s
  let (nano, s) ← readFraction s
  let (offset, s) ← readOffset (trimStart s)
  if trimStart s ≠ [] then throw Error.tooLong
  let date : Date := ⟨year, month, day⟩
  if ¬ date.Valid ∨ 1440 ≤ offset.natAbs then throw Error.outOfRange
  match ofLocal? date ⟨hour, minute, second, nano⟩ offset with
  | some t => .ok t
  | none => .error .impossible

def ofString (s : String) : Except Error Timestamp := ofText s.toList

end StackJournal.Timestamp
