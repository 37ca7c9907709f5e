import StackJournal.Json.Reader

/-! # Passing over JSON values

A value nobody asks for is checked for its form only, with the open brackets kept in a list: there
is no limit to its depth, numbers may have any size, and surrogates need not be paired.
-/
namespace StackJournal.Json

inductive Bracket where
  | square
  | curly
  deriving DecidableEq, Repr

namespace Bracket

def closer : Bracket → Char
  | square => ']'
  | curly => '}'

/-- The fault of a text that ends inside this bracket. -/
def ended : Bracket → Malformed
  | square => .endInArray
  | curly => .endInObject

def expectedComma : Bracket → Malformed
  | square => .expectedCommaOrBracket
  | curly => .expectedCommaOrBrace

end Bracket

/-- Passes over a value without brackets, or over a bracket that opens, which it answers. -/
def skipStart (s : List Char) : Except Malformed (Option Bracket × List Char) :=
  match skipSpace s with
  | [] => .error .endInValue
  | c :: rest =>
    if c = 'n' then return (none, ← readWord ['u', 'l', 'l'] rest)
    else if c = 't' then return (none, ← readWord ['r', 'u', 'e'] rest)
    else if c = 'f' then return (none, ← readWord ['a', 'l', 's', 'e'] rest)
    else if c = '-' then return (none, ← Number.skip rest)
    else if c.isDigit then return (none, ← Number.skip (c :: rest))
    else if c = '"' then return (none, ← skipString 0 rest)
    else if c = '[' then .ok (some .square, rest)
    else if c = '{' then .ok (some .curly, rest)
    else .error .expectedValue

/-- Closes brackets for as long as closing ones follow, and answers those that stay open before the
next item; none when the value is complete. A comma may come first only `after` an item. -/
def settle : (after : Bool) → (opened : List Bracket) → List Char →
    Except Malformed (List Bracket × List Char)
  | _, [], s => .ok ([], s)
  | after, b :: outer, s =>
    match skipSpace s with
    | [] => .error b.ended
    | c :: rest =>
      if after ∧ c = ',' then .ok (b :: outer, rest)
      else if c = b.closer then settle true outer rest
      else if after then .error b.expectedComma
      else .ok (b :: outer, c :: rest)

def skipKey (s : List Char) : Except Malformed (List Char) :=
  match skipSpace s with
  | [] => .error .endInObject
  | c :: rest => if c = '"' then do readColon (← skipString 0 rest) else .error .keyNotString

/-- Passes over the items up to the end of all open brackets, at most `fuel` of them. -/
def skipItems : (fuel : Nat) → (opened : List Bracket) → List Char → Except Malformed (List Char)
  | 0, _, _ => .error .endInValue
  | fuel + 1, opened, s => do
    let (bracket, s) ← skipStart s
    let (opened, s) ← settle bracket.isNone (bracket.toList ++ opened) s
    match opened with
    | [] => .ok s
    | .square :: _ => skipItems fuel opened s
    | .curly :: _ => skipItems fuel opened (← skipKey s)

def skipValue (s : List Char) : Except Malformed (List Char) := skipItems (s.length + 1) [] s

end StackJournal.Json
