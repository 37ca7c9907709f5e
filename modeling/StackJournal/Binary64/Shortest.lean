import StackJournal.Binary64
import StackJournal.Text.Digits

/-! # Shortest decimal form

A number is written with the fewest decimal digits that read back to it. For each count of digits
the two decimal neighbours of the number are tried; the first count at which one of them rounds to
the number wins, and of two the nearer.
-/
namespace StackJournal.Binary64

/-- Whether `2 ^ 1074` times the magnitude of `x` is nearest to `num / den` among all magnitudes;
a tie counts when the mantissa is even. -/
def roundsTo (x : Binary64) (num den : Nat) : Bool :=
  let above := ((4 * x.mantissa + 2) <<< x.exponent) * den
  let toBelow := if x.mantissa = 1 <<< 52 ∧ x.exponent ≠ 0 then 1 else 2
  let below := ((4 * x.mantissa - toBelow) <<< x.exponent) * den
  if x.mantissa % 2 = 0 then below ≤ 4 * num && 4 * num ≤ above
  else below < 4 * num && 4 * num < above

/-- The exponent of the leading decimal digit of `num / den`, which is not zero. -/
def decade (num den : Nat) : Int :=
  if den ≤ num then (Text.decimal (num / den)).length - 1
  else
    -- the least power of ten that lifts the quotient to 1 or more
    -((List.range 400).find? (fun n => den ≤ num * Nat.pow 10 n)).getD 0

/-- A count of units of `10 ^ place` that rounds to `x`, if one does: the nearer of the two
neighbours, the even one on a tie. -/
def onGrid? (x : Binary64) (place : Int) : Option Nat :=
  let num := x.mantissa <<< x.exponent
  let up := (Nat.pow 10 place.toNat) <<< 1074
  let down := Nat.pow 10 (-place).toNat
  let low := num * down / up
  let rest := num * down % up
  let fits (n : Nat) : Bool := roundsTo x (n * up) down
  match fits low, fits (low + 1) with
  | true, true =>
    if 2 * rest < up ∨ (2 * rest = up ∧ low % 2 = 0) then some low
    else some (low + 1)
  | true, false => some low
  | false, true => some (low + 1)
  | false, false => none

/-- The decimal digits without zeros at either end, and the exponent of the first of them. -/
def shortest (x : Binary64) : List Char × Int :=
  if x.isZero then (['0'], 0)
  else
    let first := decade (x.mantissa <<< x.exponent) (1 <<< 1074)
    let found := (List.range 17).findSome? fun (n : Nat) =>
      (onGrid? x (first - n)).map fun units => (Text.decimal units, first - n)
    let (digits, place) := found.getD (['0'], 0)
    ((digits.reverse.dropWhile (· == '0')).reverse, place + digits.length - 1)

/-- Numbers from `10 ^ -5` up to `10 ^ 16` are written positionally, with a digit after the point;
others with one digit before the point and a signed exponent. -/
def text (x : Binary64) : List Char :=
  let (digits, first) := shortest x
  let magnitude :=
    if 0 ≤ first ∧ first < 16 then
      let whole := first.toNat + 1
      if digits.length ≤ whole then
        digits ++ List.replicate (whole - digits.length) '0' ++ ['.', '0']
      else digits.take whole ++ '.' :: digits.drop whole
    else if -5 ≤ first ∧ first < 0 then
      '0' :: '.' :: List.replicate (first.natAbs - 1) '0' ++ digits
    else
      let mantissa :=
        match digits with
        | d :: e :: more => d :: '.' :: e :: more
        | short => short
      mantissa ++ 'e' :: (if first < 0 then '-' else '+') :: Text.decimal first.natAbs
  if x.negative then '-' :: magnitude else magnitude

protected def toString (x : Binary64) : String := String.ofList x.text

end StackJournal.Binary64
