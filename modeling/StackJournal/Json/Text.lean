import StackJournal.Json.Malformed
import StackJournal.Text.Basic
import StackJournal.Text.Digits

/-! # Quoted text

The inside of a JSON string: written with escapes for the quote, the backslash and the control
characters, and read back with every escape of the format. A character outside the basic plane may
be escaped as a pair of surrogates; a surrogate alone is refused.
-/
namespace StackJournal.Json

open Text

def isSpace (c : Char) : Bool := c == ' ' || c == '\n' || c == '\t' || c == '\r'

def skipSpace (s : List Char) : List Char := s.dropWhile isSpace

def escapeChar (c : Char) : List Char :=
  if c = '"' then ['\\', '"']
  else if c = '\\' then ['\\', '\\']
  else if c = '\x08' then ['\\', 'b']
  else if c = '\x0c' then ['\\', 'f']
  else if c = '\n' then ['\\', 'n']
  else if c = '\r' then ['\\', 'r']
  else if c = '\t' then ['\\', 't']
  else if c.toNat < 0x20 then '\\' :: 'u' :: fixedDigits 16 4 c.toNat
  else [c]

def quote (s : List Char) : List Char := '"' :: s.flatMap escapeChar ++ ['"']

/-- The number that four hexadecimal digits write. Fewer than four bytes are an early end. -/
def hexQuad (s : List Char) : Except Malformed Nat :=
  if utf8Length (s.take 4) < 4 then .error .endInString
  else
    match hexNumber? (s.take 4) with
    | some n => .ok n
    | none => .error .invalidEscape

def isHighSurrogate (n : Nat) : Bool := 0xD800 ≤ n && n ≤ 0xDBFF

def isLowSurrogate (n : Nat) : Bool := 0xDC00 ≤ n && n ≤ 0xDFFF

/-- The character escaped by `u` and what follows it, and how many characters that took. -/
def hexEscape (s : List Char) : Except Malformed (Char × Nat) := do
  let n ← hexQuad s
  if isLowSurrogate n then .error .loneSurrogate
  else if !isHighSurrogate n then .ok (Char.ofNat n, 5)
  else
    match s.drop 4 with
    | [] => .error .endInString
    | [c] => .error (if c = '\\' then .endInString else .unpairedSurrogate)
    | c :: d :: rest =>
      if c = '\\' ∧ d = 'u' then do
        let m ← hexQuad rest
        if isLowSurrogate m then
          .ok (Char.ofNat (0x10000 + (n - 0xD800) * 0x400 + (m - 0xDC00)), 11)
        else .error .loneSurrogate
      else .error .unpairedSurrogate

/-- The character escaped by what follows a backslash, and how many characters that took. -/
def escaped : List Char → Except Malformed (Char × Nat)
  | [] => .error .endInString
  | c :: rest =>
    if c = '"' ∨ c = '\\' ∨ c = '/' then .ok (c, 1)
    else if c = 'b' then .ok ('\x08', 1)
    else if c = 'f' then .ok ('\x0c', 1)
    else if c = 'n' then .ok ('\n', 1)
    else if c = 'r' then .ok ('\r', 1)
    else if c = 't' then .ok ('\t', 1)
    else if c = 'u' then hexEscape rest
    else .error .invalidEscape

/-- Reads a string after its first quote, and answers the text after the last quote too. The first
`skip` characters belong to an escape that has been read. -/
def readString : (skip : Nat) → List Char → Except Malformed (List Char × List Char)
  | _, [] => .error .endInString
  | skip + 1, _ :: rest => readString skip rest
  | 0, c :: rest =>
    if c = '"' then .ok ([], rest)
    else if c = '\\' then do
      let (d, used) ← escaped rest
      let (s, after) ← readString used rest
      .ok (d :: s, after)
    else if c.toNat < 0x20 then .error .controlCharacter
    else do
      let (s, after) ← readString 0 rest
      .ok (c :: s, after)

/-- How many characters the escape after a backslash takes, whatever it stands for. -/
def escapeLength : List Char → Except Malformed Nat
  | [] => .error .endInString
  | c :: rest =>
    if c ∈ ['"', '\\', '/', 'b', 'f', 'n', 'r', 't'] then .ok 1
    else if c = 'u' then do
      let _ ← hexQuad rest
      .ok 5
    else .error .invalidEscape

/-- Passes over a string after its first quote; surrogates need not be paired. -/
def skipString : (skip : Nat) → List Char → Except Malformed (List Char)
  | _, [] => .error .endInString
  | skip + 1, _ :: rest => skipString skip rest
  | 0, c :: rest =>
    if c = '"' then .ok rest
    else if c = '\\' then do
      let used ← escapeLength rest
      skipString used rest
    else if c.toNat < 0x20 then .error .controlCharacter
    else skipString 0 rest

end StackJournal.Json
