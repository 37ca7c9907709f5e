import StackJournal.Text.Basic
import StackJournal.Text.Digits

/-! # Stack identities

A stack is known by a 128-bit identity, written as 32 hexadecimal digits in five groups parted by
hyphens. Reading also takes the digits alone, the grouped form in braces, and the grouped form
after `urn:uuid:`, with digits of either case.
-/
namespace StackJournal

structure Uuid where
  value : BitVec 128
  deriving DecidableEq, Repr

namespace Uuid

open Text

/-- Why a text names no identity. An index counts bytes. -/
inductive Error where
  | badCharacter (c : Char) (index : Nat)
  | badLength (found : Nat)
  | badGroupCount (found : Nat)
  | badGroupLength (group found : Nat)
  deriving DecidableEq, Repr

def groupLengths : List Nat := [8, 4, 4, 4, 12]

/-- Cuts text into groups of the given lengths, with a hyphen between two groups. -/
def joinGroups : List Nat → List Char → List Char
  | [], _ => []
  | [_], s => s
  | n :: m :: more, s => s.take n ++ '-' :: joinGroups (m :: more) (s.drop n)

/-- Undoes `joinGroups`, if each hyphen stands where a group ends. -/
def splitGroups? : List Nat → List Char → Option (List Char)
  | [], _ => none
  | [n], s => if s.length = n then some s else none
  | n :: m :: more, s =>
    match s.drop n with
    | '-' :: rest => (splitGroups? (m :: more) rest).map (s.take n ++ ·)
    | _ => none

def digits (id : Uuid) : List Char := fixedDigits 16 32 id.value.toNat

def text (id : Uuid) : List Char := joinGroups groupLengths id.digits

protected def toString (id : Uuid) : String := String.ofList id.text

def ofDigits? (s : List Char) : Option Uuid :=
  if s.length = 32 then (hexNumber? s).map fun n => ⟨BitVec.ofNat 128 n⟩ else none

def grouped? (s : List Char) : Option Uuid := (splitGroups? groupLengths s).bind ofDigits?

def scheme : List Char := ['u', 'r', 'n', ':', 'u', 'u', 'i', 'd', ':']

/-- What a wrapper encloses, and how long the wrapper is before it. -/
def unwrap? (s : List Char) : Option (List Char × Nat) :=
  if s.head? = some '{' ∧ s.getLast? = some '}' ∧ 2 ≤ s.length then
    some ((s.drop 1).dropLast, 1)
  else if (s.take scheme.length).map Char.toLower = scheme then
    some (s.drop scheme.length, scheme.length)
  else none

/-- The first character that no identity has, with its byte index. -/
def strayCharacter? (index : Nat) : List Char → Option (Char × Nat)
  | [] => none
  | c :: rest =>
    if isHex c ∨ c = '-' then strayCharacter? (index + c.utf8Size) rest else some (c, index)

def hyphens (index : Nat) : List Char → List Nat
  | [] => []
  | c :: rest =>
    if c = '-' then index :: hyphens (index + 1) rest else hyphens (index + 1) rest

/-- The first group whose hyphen stands elsewhere than at its end; else the last group is blamed. -/
def badGroup (length : Nat) (found : List Nat) : Error :=
  match (found.zip [8, 13, 18, 23]).findIdx? (fun p => p.1 ≠ p.2) with
  | some group =>
    .badGroupLength group ((found.getD group 0) - ([0, 9, 14, 19].getD group 0))
  | none => .badGroupLength 4 (length - 24)

/-- What is wrong with `inner`, which begins at index `offset` of a text of `length` bytes. Digits
alone are wanted only where `grouped` is false. -/
def faultIn (grouped : Bool) (length offset : Nat) (inner : List Char) : Error :=
  match strayCharacter? offset inner with
  | some (c, index) => .badCharacter c index
  | none =>
    let found := hyphens 0 inner
    if found.isEmpty && !grouped then .badLength length
    else if found.length ≠ 4 then .badGroupCount (found.length + 1)
    else badGroup length found

def groupedLength : Nat := 36

def longestLength : Nat := 45

/-- What is wrong with a text in none of the accepted forms. A text as long as the grouped form is
taken for it, whatever it begins with; a wrapper around a text of that length is not counted in the
index of a character. -/
def diagnose (s : List Char) : Error :=
  let length := utf8Length s
  if longestLength < length then .badLength length
  else if length = groupedLength then faultIn true length 0 s
  else
    match unwrap? s with
    | none => faultIn false length 0 s
    | some (inner, offset) =>
      faultIn true length (if utf8Length inner = groupedLength then 0 else offset) inner

def ofText (s : List Char) : Except Error Uuid :=
  let found :=
    match ofDigits? s, grouped? s, unwrap? s with
    | some id, _, _ => some id
    | none, some id, _ => some id
    | none, none, some (inner, _) => grouped? inner
    | none, none, none => none
  match found with
  | some id => .ok id
  | none => .error (diagnose s)

def ofString (s : String) : Except Error Uuid := ofText s.toList

def Error.message : Error → String
  | badCharacter c index => s!"invalid character: found `{c}` at {index}"
  | badLength found => s!"invalid length: found {found}"
  | badGroupCount found => s!"invalid group count: expected 5, found {found}"
  | badGroupLength group found =>
    s!"invalid group length in group {group}: expected {groupLengths.getD group 0}, found {found}"

def version : BitVec 4 := 4

def variant : BitVec 2 := 2

/-- The identity that has the version and variant marks of random identities and takes its other
bits from `bits`. -/
def ofRandom (bits : Nat) : Uuid :=
  let bits := BitVec.ofNat 128 bits
  ⟨bits.extractLsb 127 80 ++ version ++ bits.extractLsb 75 64 ++ variant ++ bits.extractLsb 61 0⟩

def isRandom (id : Uuid) : Bool :=
  id.value.extractLsb 79 76 == version && id.value.extractLsb 63 62 == variant

end Uuid

end StackJournal
