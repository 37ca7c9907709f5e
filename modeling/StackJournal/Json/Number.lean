import StackJournal.Binary64.Shortest
import StackJournal.Json.Malformed
import StackJournal.Json.Value

/-! # Numbers in JSON text

A number without fraction and exponent is an integer if it fits 64 bits. All others become floating
point from a 64-bit significand, which takes as many leading digits as fit, and a power of ten.
-/
namespace StackJournal.Json

open Text

namespace Number

def text : Number → List Char
  | natural n => decimal n.toNat
  | negative k => '-' :: decimal (k.toNat + 1)
  | float x => x.text

/-- Reads digits into `value` for as long as 64 bits hold it, and counts them. -/
def takeDigits (value count : Nat) : List Char → Nat × Nat × List Char
  | [] => (value, count, [])
  | c :: rest =>
    if c.isDigit ∧ 10 * value + digitValue c < UInt64.size then
      takeDigits (10 * value + digitValue c) (count + 1) rest
    else (value, count, c :: rest)

def startsWithDigit (s : List Char) : Bool := s.head?.any Char.isDigit

def isExponentMark (c : Char) : Bool := c == 'e' || c == 'E'

def ofScaled (negative : Bool) (significand : Nat) (exponent : Int) (rest : List Char) :
    Except Malformed (Number × List Char) :=
  match Binary64.ofParts? significand exponent with
  | some x => .ok (float (x.withSign negative), rest)
  | none => .error .numberOutOfRange

/-- An exponent of this many powers of ten or more is as good as infinite. -/
def exponentLimit : Nat := 0x80000000

def readExponent (negative : Bool) (significand : Nat) (exponent : Int) (s : List Char) :
    Except Malformed (Number × List Char) :=
  let down := s.head? == some '-'
  let s := if down || s.head? == some '+' then s.drop 1 else s
  match s with
  | [] => .error .endInValue
  | c :: _ =>
    if c.isDigit then
      let shift := decimalValue (s.takeWhile Char.isDigit)
      let rest := s.dropWhile Char.isDigit
      if shift < exponentLimit then
        ofScaled negative significand (if down then exponent - shift else exponent + shift) rest
      else if significand = 0 ∨ down then .ok (float (Binary64.zero.withSign negative), rest)
      else .error .numberOutOfRange
    else .error .invalidNumber

/-- The end of a number whose significand and scale are known: an exponent may follow. -/
def readScale (negative : Bool) (significand : Nat) (exponent : Int) :
    List Char → Except Malformed (Number × List Char)
  | [] => ofScaled negative significand exponent []
  | c :: rest =>
    if isExponentMark c then readExponent negative significand exponent rest
    else ofScaled negative significand exponent (c :: rest)

def readFraction (negative : Bool) (significand : Nat) (exponent : Int) (s : List Char) :
    Except Malformed (Number × List Char) :=
  let (value, count, rest) := takeDigits significand 0 s
  if startsWithDigit rest then
    readScale negative value (exponent - count) (rest.dropWhile Char.isDigit)
  else if count = 0 then .error (if rest = [] then .endInValue else .invalidNumber)
  else readScale negative value (exponent - count) rest

/-- The integer with the given magnitude, a float if it is `-0` or below the 64-bit range. -/
def ofMagnitude (negative : Bool) (n : Nat) : Number :=
  if negative then
    if 0 < n ∧ n ≤ UInt64.size / 2 then .negative (BitVec.ofNat 63 (n - 1))
    else float (((Binary64.ofRatio? n 1).getD Binary64.zero).withSign true)
  else natural (UInt64.ofNat n)

/-- The rest of a number whose whole part is read and fits 64 bits. -/
def readWhole (negative : Bool) (n : Nat) : List Char → Except Malformed (Number × List Char)
  | [] => .ok (ofMagnitude negative n, [])
  | c :: rest =>
    if c = '.' then readFraction negative n 0 rest
    else if isExponentMark c then readExponent negative n 0 rest
    else .ok (ofMagnitude negative n, c :: rest)

/-- The rest of a number whose whole part does not fit 64 bits: further digits only scale it. -/
def readLong (negative : Bool) (n : Nat) (s : List Char) :
    Except Malformed (Number × List Char) :=
  let scale := (s.takeWhile Char.isDigit).length
  match s.dropWhile Char.isDigit with
  | [] => ofScaled negative n scale []
  | c :: rest =>
    if c = '.' then readFraction negative n scale rest
    else readScale negative n scale (c :: rest)

/-- Reads a number after its sign. A leading 0 stands alone. -/
def read (negative : Bool) : List Char → Except Malformed (Number × List Char)
  | [] => .error .endInValue
  | c :: rest =>
    if c = '0' then
      if startsWithDigit rest then .error .invalidNumber else readWhole negative 0 rest
    else if c.isDigit then
      let (value, _, after) := takeDigits 0 0 (c :: rest)
      if startsWithDigit after then readLong negative value after
      else readWhole negative value after
    else .error .invalidNumber

def skipExponent (s : List Char) : Except Malformed (List Char) :=
  let s := if s.head? == some '-' || s.head? == some '+' then s.drop 1 else s
  if startsWithDigit s then .ok (s.dropWhile Char.isDigit) else .error .invalidNumber

def skipFraction (s : List Char) : Except Malformed (List Char) :=
  if s.head? = some '.' then
    if startsWithDigit (s.drop 1) then .ok ((s.drop 1).dropWhile Char.isDigit)
    else .error .invalidNumber
  else .ok s

def skipScale (s : List Char) : Except Malformed (List Char) :=
  if s.head?.any isExponentMark then skipExponent (s.drop 1) else .ok s

/-- Passes over a number after its sign, of any size. -/
def skip (s : List Char) : Except Malformed (List Char) :=
  if !startsWithDigit s || s.head? == some '0' && startsWithDigit (s.drop 1) then
    .error .invalidNumber
  else do skipScale (← skipFraction (s.dropWhile Char.isDigit))

end Number

end StackJournal.Json
