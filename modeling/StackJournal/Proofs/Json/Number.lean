import StackJournal.Json.Writer
import StackJournal.Proofs.Text.Digits

/-! # Integers written and read back

An integer of 64 bits is written in its decimal digits, and an array of them in brackets. It is read
back from its digits wherever the text after it cannot continue a number.
-/
namespace StackJournal.Json

open Text

/-- An integer is written in its digits, after a minus sign if it is negative. -/
theorem text_ofInt64 (v : Int64) : (ofInt64 v).text = decimalInt v.toInt := by
  have hmin := v.le_toInt
  have hmax := v.toInt_lt
  have hsize : UInt64.size = 18446744073709551616 := rfl
  have hneg : v < 0 ↔ v.toInt < 0 := Int64.lt_iff_toInt_lt
  rw [ofInt64, text, Number.ofMagnitude, decimalInt]
  by_cases h : v.toInt < 0
  · have hk : (BitVec.ofNat 63 (v.toInt.natAbs - 1)).toNat = v.toInt.natAbs - 1 := by
      rw [BitVec.toNat_ofNat]
      omega
    rw [if_pos (by simpa [hneg] using h), if_pos (by omega), if_pos h, Number.text, hk,
      Nat.sub_add_cancel (by omega)]
  · have hn : (UInt64.ofNat v.toInt.natAbs).toNat = v.toInt.natAbs :=
      UInt64.toNat_ofNat_of_lt' (by omega)
    rw [if_neg (by simpa [hneg] using h), if_neg h, Number.text, hn]

def arrayText (values : List Int64) : List Char :=
  '[' :: [','].intercalate (values.map fun v => decimalInt v.toInt) ++ [']']

theorem text_append_itemsTail (v : Int64) (rest : List Int64) :
    (ofInt64 v).text ++ itemsTail (rest.map ofInt64) =
      [','].intercalate ((v :: rest).map fun v => decimalInt v.toInt) ++ [']'] := by
  induction rest generalizing v with
  | nil => simp [itemsTail, text_ofInt64]
  | cons next rest ih =>
    rw [List.map_cons, itemsTail, List.cons_append, ih next]
    simp [List.intercalate_cons_cons, text_ofInt64]

theorem text_array_ofInt64 (values : List Int64) :
    (array (values.map ofInt64)).text = arrayText values := by
  cases values with
  | nil => rfl
  | cons v rest =>
    rw [List.map_cons, text, List.cons_append, text_append_itemsTail]
    rfl

end StackJournal.Json

namespace StackJournal.Json.Number

open Text

def Stops (rest : List Char) : Prop :=
  ∀ c ∈ rest.head?, c.isDigit = false ∧ c ≠ '.' ∧ isExponentMark c = false

theorem Stops.not_digit {rest : List Char} (h : Stops rest) : startsWithDigit rest = false := by
  cases rest with
  | nil => rfl
  | cons c rest => exact (h c rfl).1

theorem le_ofDigitChars (s : List Char) (value : Nat) : value ≤ Nat.ofDigitChars 10 s value := by
  induction s generalizing value with
  | nil => exact Nat.le_refl value
  | cons c s ih =>
    rw [Nat.ofDigitChars_cons]
    have := ih (10 * value + (c.toNat - '0'.toNat))
    omega

/-- Digits that fit 64 bits are all taken. -/
theorem takeDigits_append {s rest : List Char} (hs : ∀ c ∈ s, c.isDigit = true)
    (hrest : startsWithDigit rest = false) (value count : Nat)
    (hfit : Nat.ofDigitChars 10 s value < UInt64.size) :
    takeDigits value count (s ++ rest) = (Nat.ofDigitChars 10 s value, count + s.length, rest) := by
  induction s generalizing value count with
  | nil =>
    cases rest with
    | nil => rfl
    | cons c rest =>
      have hc : c.isDigit = false := hrest
      simp [takeDigits, hc]
  | cons c s ih =>
    rw [Nat.ofDigitChars_cons] at hfit ⊢
    have hc : c.isDigit = true := hs c List.mem_cons_self
    have hle := le_ofDigitChars s (10 * value + (c.toNat - '0'.toNat))
    have hfits : 10 * value + digitValue c < UInt64.size := Nat.lt_of_le_of_lt hle hfit
    rw [List.cons_append, takeDigits, if_pos ⟨hc, hfits⟩]
    have htail := ih (fun d hd => hs d (List.mem_cons_of_mem c hd))
      (10 * value + digitValue c) (count + 1) hfit
    rw [htail, List.length_cons, Nat.add_right_comm, Nat.add_assoc]
    rfl

theorem readWhole_stops {rest : List Char} (hrest : Stops rest) (negative : Bool) (n : Nat) :
    readWhole negative n rest = .ok (ofMagnitude negative n, rest) := by
  cases rest with
  | nil => rfl
  | cons c rest =>
    obtain ⟨_, hpoint, hmark⟩ := hrest c rfl
    simp [readWhole, hpoint, hmark]

theorem read_decimal {n : Nat} (hn : n < UInt64.size) {rest : List Char} (hrest : Stops rest)
    (negative : Bool) :
    read negative (decimal n ++ rest) = .ok (ofMagnitude negative n, rest) := by
  obtain ⟨c, more, hd, hzero⟩ := decimal_eq_cons n
  have hdigits : ∀ d ∈ decimal n, d.isDigit = true := fun d hmem => isDigit_of_mem_decimal hmem
  have hvalue : Nat.ofDigitChars 10 (decimal n) 0 = n := decimalValue_decimal n
  by_cases h0 : c = '0'
  · obtain ⟨rfl, rfl⟩ := hzero h0
    rw [hd, h0, List.singleton_append, read, if_pos rfl, if_neg (by simp [hrest.not_digit])]
    exact readWhole_stops hrest negative 0
  · have htake := takeDigits_append hdigits hrest.not_digit 0 0 (by rw [hvalue]; exact hn)
    have hc : c.isDigit = true := hdigits c (by rw [hd]; exact List.mem_cons_self)
    rw [hvalue, hd, List.cons_append] at htake
    rw [hd, List.cons_append, read, if_neg h0, if_pos hc, htake]
    simp only [hrest.not_digit, Bool.false_eq_true, if_false]
    exact readWhole_stops hrest negative n

theorem read_natural (n : UInt64) {rest : List Char} (hrest : Stops rest) :
    read false ((natural n).text ++ rest) = .ok (natural n, rest) := by
  rw [text, read_decimal n.toNat_lt_size hrest]
  simp [ofMagnitude]

theorem read_negative (k : BitVec 63) {rest : List Char} (hrest : Stops rest) :
    read true (decimal (k.toNat + 1) ++ rest) = .ok (negative k, rest) := by
  have hk : k.toNat < 9223372036854775808 := k.isLt
  have hsize : UInt64.size = 18446744073709551616 := rfl
  rw [read_decimal (by omega) hrest]
  have hmagnitude : ofMagnitude true (k.toNat + 1) = negative k := by
    rw [ofMagnitude, if_pos rfl, if_pos (by omega)]
    simp
  rw [hmagnitude]

end StackJournal.Json.Number
