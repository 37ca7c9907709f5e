/-! # Digits and integers

Numbers written with a fixed count of digits, and the values of digits read back. Digits above 9
are the letters from `a`; reading a hexadecimal digit takes both cases.

An integer is one or more decimal digits after an optional sign. Only a number that may be negative
takes a minus sign, and each reader refuses what is outside the range of its numbers.
-/
namespace StackJournal.Text

/-- The last `width` digits of `n` in the given base, leading zeros kept. -/
def fixedDigits (base : Nat) : (width n : Nat) → List Char
  | 0, _ => []
  | width + 1, n => fixedDigits base width (n / base) ++ [(n % base).digitChar]

def digitValue (c : Char) : Nat := c.toNat - '0'.toNat

def hexValue? (c : Char) : Option Nat :=
  if c.isDigit then some (digitValue c)
  else if 'a' ≤ c ∧ c ≤ 'f' then some (c.toNat - 'a'.toNat + 10)
  else if 'A' ≤ c ∧ c ≤ 'F' then some (c.toNat - 'A'.toNat + 10)
  else none

def isHex (c : Char) : Bool := (hexValue? c).isSome

/-- The number that hexadecimal digits write; no answer if another character is among them. -/
def hexNumber? (digits : List Char) : Option Nat :=
  digits.foldlM (fun value c => (hexValue? c).map (16 * value + ·)) 0

def decimal (n : Nat) : List Char := Nat.toDigits 10 n

def decimalInt (i : Int) : List Char :=
  if i < 0 then '-' :: decimal i.natAbs else decimal i.natAbs

def decimalValue (digits : List Char) : Nat := Nat.ofDigitChars 10 digits 0

def wholeNumber? (s : List Char) : Option Nat :=
  if s ≠ [] ∧ s.all Char.isDigit then some (decimalValue s) else none

def unsigned? (s : List Char) : Option Nat :=
  let number :=
    match s with
    | '+' :: digits => wholeNumber? digits
    | digits => wholeNumber? digits
  number.filter (· < UInt64.size)

def signed? (s : List Char) : Option Int64 :=
  let number : Option Int :=
    match s with
    | '-' :: digits => (wholeNumber? digits).map fun n => -(n : Int)
    | '+' :: digits => (wholeNumber? digits).map fun n => (n : Int)
    | digits => (wholeNumber? digits).map fun n => (n : Int)
  (number.filter fun i => Int64.minValue.toInt ≤ i ∧ i ≤ Int64.maxValue.toInt).map Int64.ofInt

theorem length_fixedDigits (base width n : Nat) : (fixedDigits base width n).length = width := by
  induction width generalizing n with
  | zero => rfl
  | succ width ih => simp [fixedDigits, ih]

theorem decimalValue_decimal (n : Nat) : decimalValue (decimal n) = n :=
  Nat.ofDigitChars_ten_toDigits

end StackJournal.Text
