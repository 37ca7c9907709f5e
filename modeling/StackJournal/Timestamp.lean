import StackJournal.Text.Basic
import StackJournal.Text.Digits

/-! # Moments

A moment is a day of the proleptic Gregorian calendar and a time of day in universal time, down to
nanoseconds. The second may be 60, as a leap second. The calendar ends at a fixed year on either
side.
-/
namespace StackJournal

structure Date where
  year : Int
  month : Nat
  day : Nat
  deriving DecidableEq, Repr

namespace Date

def minYear : Int := -262143
def maxYear : Int := 262142

def isLeap (year : Int) : Bool := year % 4 == 0 && (year % 100 != 0 || year % 400 == 0)

def daysInMonth (year : Int) (month : Nat) : Nat :=
  if month = 2 then if isLeap year then 29 else 28
  else if month = 4 ∨ month = 6 ∨ month = 9 ∨ month = 11 then 30
  else 31

/-- The dates the calendar has. -/
def Valid (d : Date) : Prop :=
  (minYear ≤ d.year ∧ d.year ≤ maxYear) ∧ (1 ≤ d.month ∧ d.month ≤ 12) ∧
    (1 ≤ d.day ∧ d.day ≤ daysInMonth d.year d.month)

instance : DecidablePred Valid := fun d => by unfold Valid; infer_instance

def next (d : Date) : Date :=
  if d.day < daysInMonth d.year d.month then { d with day := d.day + 1 }
  else if d.month < 12 then { d with month := d.month + 1, day := 1 }
  else { year := d.year + 1, month := 1, day := 1 }

def prev (d : Date) : Date :=
  if 1 < d.day then { d with day := d.day - 1 }
  else if 1 < d.month then
    { d with month := d.month - 1, day := daysInMonth d.year (d.month - 1) }
  else { year := d.year - 1, month := 12, day := 31 }

end Date

structure TimeOfDay where
  hour : Nat
  minute : Nat
  second : Nat
  nano : Nat
  deriving DecidableEq, Repr

/-- The times a day has; any minute may end in a leap second. -/
def TimeOfDay.Valid (t : TimeOfDay) : Prop :=
  t.hour < 24 ∧ t.minute < 60 ∧ t.second ≤ 60 ∧ t.nano < 1000000000

instance : DecidablePred TimeOfDay.Valid := fun t => by unfold TimeOfDay.Valid; infer_instance

structure Timestamp where
  date : Date
  time : TimeOfDay
  date_valid : date.Valid
  time_valid : time.Valid
  deriving DecidableEq

namespace Timestamp

open Text

/-- Four digits for the years 0 to 9999; all others carry their sign. -/
def yearText (year : Int) : List Char :=
  let digits := if year.natAbs < 10000 then fixedDigits 10 4 year.natAbs else decimal year.natAbs
  if year < 0 then '-' :: digits
  else if year < 10000 then digits
  else '+' :: digits

/-- No digits for whole seconds, else three, six or nine: the fewest that lose nothing. -/
def fractionText (nano : Nat) : List Char :=
  if nano = 0 then []
  else if nano % 1000000 = 0 then '.' :: fixedDigits 10 3 (nano / 1000000)
  else if nano % 1000 = 0 then '.' :: fixedDigits 10 6 (nano / 1000)
  else '.' :: fixedDigits 10 9 nano

def text (t : Timestamp) : List Char :=
  yearText t.date.year ++ '-' :: fixedDigits 10 2 t.date.month ++
    '-' :: fixedDigits 10 2 t.date.day ++ 'T' :: fixedDigits 10 2 t.time.hour ++
    ':' :: fixedDigits 10 2 t.time.minute ++ ':' :: fixedDigits 10 2 t.time.second ++
    fractionText t.time.nano ++ ['Z']

protected def toString (t : Timestamp) : String := String.ofList t.text

/-- The moment of a date and a time that were read `offset` minutes east of universal time; none
if the calendar ends before it. -/
def ofLocal? (date : Date) (time : TimeOfDay) (offset : Int) : Option Timestamp :=
  let minutes := (time.hour * 60 + time.minute : Int) - offset
  let (date, minutes) :=
    if minutes < 0 then (date.prev, minutes + 1440)
    else if 1440 ≤ minutes then (date.next, minutes - 1440)
    else (date, minutes)
  let time := { time with hour := minutes.toNat / 60, minute := minutes.toNat % 60 }
  if h : date.Valid ∧ time.Valid then some ⟨date, time, h.1, h.2⟩ else none

end Timestamp

end StackJournal
