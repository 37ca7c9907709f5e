/-! # Kapps

A kapp is a named operation on a stack of integers. The vocabulary is closed: the ten
constructors are all there is, and a name outside `Kapp.names` denotes no kapp.

Items are 64-bit integers, the top one first, and arithmetic wraps around. Every kapp applies to
every stack: with fewer items than it takes it leaves them alone.

An integer is pushed by a run of kapps: `zero`, then as many steps up or down as the integer is
away from 0. The run of a large integer is never built to look at one place of it: `literalGet?` and
`literalTake` answer by counting.
-/
namespace StackJournal

inductive Kapp where
  /-- Drops the top item. -/
  | pop
  /-- Repeats the top item. -/
  | dup
  /-- Exchanges the two top items. -/
  | swap
  /-- Pushes 0. -/
  | zero
  /-- Adds one to the top item. -/
  | succ
  /-- Takes one from the top item. -/
  | pred
  | add
  | sub
  | mul
  /-- Divides with the quotient rounded down; a quotient by 0 is 0. -/
  | div
  deriving DecidableEq, Repr

/-- The quotient `b / a` rounded down, from the quotient rounded toward zero; 0 when `a` is 0. -/
def floorDiv (b a : Int64) : Int64 :=
  if a = 0 then 0
  else if b % a ≠ 0 ∧ ((b < 0) ≠ (a < 0)) then b / a - 1
  else b / a

namespace Kapp

def all : List Kapp := [pop, dup, swap, zero, succ, pred, add, sub, mul, div]

def name : Kapp → String
  | pop => "pop"
  | dup => "dup"
  | swap => "swap"
  | zero => "zero"
  | succ => "succ"
  | pred => "pred"
  | add => "add"
  | sub => "sub"
  | mul => "mul"
  | div => "div"

def names : List String := all.map name

def ofName? (text : String) : Option Kapp := all.find? (·.name == text)

structure Unknown where
  text : String
  deriving DecidableEq, Repr

def Unknown.message (unknown : Unknown) : String := s!"unknown kapp: {unknown.text}"

def ofText (text : String) : Except Unknown Kapp :=
  match ofName? text with
  | some kapp => .ok kapp
  | none => .error ⟨text⟩

/-- In a kapp of two operands the top item is the right one. -/
def act : Kapp → List Int64 → List Int64
  | pop, _ :: items => items
  | dup, a :: items => a :: a :: items
  | swap, a :: b :: items => b :: a :: items
  | zero, items => 0 :: items
  | succ, a :: items => (a + 1) :: items
  | pred, a :: items => (a - 1) :: items
  | add, a :: b :: items => (b + a) :: items
  | sub, a :: b :: items => (b - a) :: items
  | mul, a :: b :: items => (b * a) :: items
  | div, a :: b :: items => floorDiv b a :: items
  | _, items => items

theorem mem_all (k : Kapp) : k ∈ all := by cases k <;> decide

theorem ofName?_name (k : Kapp) : ofName? k.name = some k := by cases k <;> decide

theorem name_injective {k l : Kapp} (h : k.name = l.name) : k = l :=
  Option.some.inj (by rw [← ofName?_name k, h, ofName?_name l])

theorem ofName?_eq_some_iff {text : String} {k : Kapp} : ofName? text = some k ↔ text = k.name := by
  constructor
  · intro h
    have hname := List.find?_some h
    exact (beq_iff_eq.1 hname).symm
  · rintro rfl
    exact ofName?_name k

/-- The kapp that moves the top item one towards `value` from 0. -/
def literalStep (value : Int64) : Kapp := if value < 0 then pred else succ

def literal (value : Int64) : List Kapp :=
  zero :: List.replicate value.toInt.natAbs (literalStep value)

def literalGet? (value : Int64) : Nat → Option Kapp
  | 0 => some zero
  | index + 1 => if index < value.toInt.natAbs then some (literalStep value) else none

def literalTake (value : Int64) : Nat → List Kapp
  | 0 => []
  | count + 1 => zero :: List.replicate (min count value.toInt.natAbs) (literalStep value)

theorem literalGet?_eq (value : Int64) (index : Nat) :
    literalGet? value index = (literal value)[index]? := by
  cases index with
  | zero => rfl
  | succ index => simp [literalGet?, literal, List.getElem?_replicate]

theorem literalTake_eq (value : Int64) (count : Nat) :
    literalTake value count = (literal value).take count := by
  cases count with
  | zero => rfl
  | succ count => simp [literalTake, literal, List.take_replicate]

theorem length_literal (value : Int64) : (literal value).length = value.toInt.natAbs + 1 := by
  simp [literal]

end Kapp

end StackJournal
