/-! # Binary floating point

The finite numbers of the 64-bit binary floating-point format, held exactly: a sign and the
magnitude `mantissa * 2 ^ exponent / 2 ^ 1074`. Every operation works out the exact rational result
and rounds once, to nearest and to even on a tie; `none` stands for a result too large to be finite.
-/
namespace StackJournal

/-- A magnitude has a mantissa below `2 ^ 53`, and below `2 ^ 52` only with exponent 0. -/
structure Binary64 where
  negative : Bool
  mantissa : Nat
  exponent : Nat
  deriving DecidableEq, Repr

namespace Binary64

def zero : Binary64 := ⟨false, 0, 0⟩

def isZero (x : Binary64) : Bool := x.mantissa == 0

def withSign (negative : Bool) (x : Binary64) : Binary64 := { x with negative }

/-- The quotient rounded to the nearest natural number, to the even one on a tie. -/
def roundQuotient (num den : Nat) : Nat :=
  let quotient := num / den
  let twice := 2 * (num % den)
  if twice < den then quotient
  else if den < twice then quotient + 1
  else quotient + quotient % 2

/-- The nearest magnitude to `num / den`. -/
def ofRatio? (num den : Nat) : Option Binary64 :=
  let scaled := num <<< 1074
  let exponent := Nat.log2 (scaled / den) - 52
  let mantissa := roundQuotient scaled (den <<< exponent)
  let (mantissa, exponent) :=
    if mantissa = 1 <<< 53 then (1 <<< 52, exponent + 1) else (mantissa, exponent)
  if exponent ≤ 2045 then some ⟨false, mantissa, exponent⟩ else none

def mul? (x y : Binary64) : Option Binary64 :=
  (ofRatio? ((x.mantissa * y.mantissa) <<< (x.exponent + y.exponent)) (1 <<< 2148)).map
    (withSign (x.negative != y.negative))

/-- A quotient by zero has no finite value. -/
def div? (x y : Binary64) : Option Binary64 :=
  if y.isZero then none
  else
    (ofRatio? (x.mantissa <<< x.exponent) (y.mantissa <<< y.exponent)).map
      (withSign (x.negative != y.negative))

def powerOfTen? (n : Nat) : Option Binary64 := ofRatio? (Nat.pow 10 n) 1

/-- Divides by `10 ^ n`, in steps of at most `10 ^ 308`, each rounded. -/
def shrink (x : Binary64) (n : Nat) : Binary64 :=
  if n ≤ 308 then ((powerOfTen? n).bind (div? x)).getD zero
  else if x.isZero then x
  else shrink (((powerOfTen? 308).bind (div? x)).getD zero) (n - 308)
termination_by n

/-- `significand * 10 ^ exponent`, from a rounded significand by rounded multiplication or
division. -/
def ofParts? (significand : Nat) (exponent : Int) : Option Binary64 := do
  let x ← ofRatio? significand 1
  if exponent < 0 then some (shrink x exponent.natAbs)
  else if exponent ≤ 308 then mul? x (← powerOfTen? exponent.natAbs)
  else if x.isZero then some x
  else none

end Binary64

end StackJournal
