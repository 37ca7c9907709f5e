import StackJournal.Proofs.Text.Blank
import StackJournal.Proofs.Text.Digits
import StackJournal.Timestamp.Reader

/-! # Moments read back

A moment is read back from its text, in every year of the calendar and with every count of
fractional digits.
-/
namespace StackJournal.Timestamp

open Text

def epoch : Timestamp := ⟨⟨1970, 1, 1⟩, ⟨0, 0, 0, 0⟩, by decide, by decide⟩

theorem trimStart_cons {c : Char} (h : isBlank c = false) (rest : List Char) :
    trimStart (c :: rest) = c :: rest := by
  simp [trimStart, h]

theorem trimStart_digits {digits : List Char} (hdigits : ∀ c ∈ digits, c.isDigit = true)
    (hne : digits ≠ []) (rest : List Char) : trimStart (digits ++ rest) = digits ++ rest := by
  cases digits with
  | nil => exact absurd rfl hne
  | cons c digits => exact trimStart_cons (isBlank_of_isDigit (hdigits c List.mem_cons_self)) _

/-- Digits are read up to the most that are taken, or up to another character. -/
theorem readDigits_append {most : Nat} {digits rest : List Char}
    (hdigits : ∀ c ∈ digits, c.isDigit = true) (hne : digits ≠ []) (hmost : digits.length ≤ most)
    (hend : digits.length = most ∨ ∀ c ∈ rest.head?, c.isDigit = false) :
    readDigits most (digits ++ rest) = .ok (digits, rest) := by
  have htake : ((digits ++ rest).take most).takeWhile Char.isDigit = digits := by
    rw [List.take_append, List.take_of_length_le hmost, List.takeWhile_append_of_pos hdigits]
    have hnone : (rest.take (most - digits.length)).takeWhile Char.isDigit = [] := by
      rcases hend with hfull | hstop
      · rw [hfull, Nat.sub_self]
        rfl
      · cases rest with
        | nil => simp
        | cons c rest =>
          cases hcount : most - digits.length with
          | zero => rfl
          | succ count => simp [hstop c rfl]
    rw [hnone, List.append_nil]
  unfold readDigits
  rw [htake, if_pos hne, List.drop_left]

theorem readField_fixedDigits {least most n : Nat} (hleast : least ≤ n) (hmost : n ≤ most)
    (hn : n < 100) (rest : List Char) :
    readField least most (fixedDigits 10 2 n ++ rest) = .ok (n, rest) := by
  have hdigits : ∀ c ∈ fixedDigits 10 2 n, c.isDigit = true := fun _ => isDigit_of_mem_fixedDigits
  have hlength := length_fixedDigits 10 2 n
  have hne : fixedDigits 10 2 n ≠ [] := List.ne_nil_of_length_pos (by rw [hlength]; decide)
  have hvalue : n % Nat.pow 10 2 = n := Nat.mod_eq_of_lt hn
  unfold readField
  rw [trimStart_digits hdigits hne,
    readDigits_append hdigits hne (Nat.le_of_eq hlength) (Or.inl hlength)]
  simp only [bind, Except.bind]
  rw [decimalValue_fixedDigits, hvalue, if_pos ⟨hleast, hmost⟩]

/-- The digits of a year: four, or all there are. -/
theorem yearDigits (n : Nat) : ∃ digits,
    (if n < 10000 then fixedDigits 10 4 n else decimal n) = digits ∧ digits ≠ [] ∧
    (∀ c ∈ digits, c.isDigit = true) ∧ decimalValue digits = n ∧
    (n < 10000 → digits.length = 4) := by
  by_cases hn : n < 10000
  · have hlength := length_fixedDigits 10 4 n
    refine ⟨_, if_pos hn, List.ne_nil_of_length_pos (by rw [hlength]; decide),
      fun _ => isDigit_of_mem_fixedDigits, ?_, fun _ => hlength⟩
    rw [decimalValue_fixedDigits]
    exact Nat.mod_eq_of_lt hn
  · exact ⟨_, if_neg hn, decimal_ne_nil n, fun _ => isDigit_of_mem_decimal,
      decimalValue_decimal n, fun h => absurd h hn⟩

theorem readYear_yearText {year : Int} (hleast : Date.minYear ≤ year) (hmost : year ≤ Date.maxYear)
    (rest : List Char) : readYear (yearText year ++ '-' :: rest) = .ok (year, '-' :: rest) := by
  obtain ⟨digits, htext, hne, hdigits, hvalue, hfour⟩ := yearDigits year.natAbs
  have hsmall : year.natAbs < yearLimit := by
    simp only [Date.minYear, Date.maxYear, yearLimit] at *
    omega
  have hend : ∀ c ∈ ('-' :: rest).head?, c.isDigit = false := by
    rintro c ⟨⟩
    rfl
  have hall : readDigits (digits ++ '-' :: rest).length (digits ++ '-' :: rest) =
      .ok (digits, '-' :: rest) :=
    readDigits_append hdigits hne (by rw [List.length_append]; omega) (Or.inr hend)
  unfold yearText
  simp only [htext]
  by_cases hneg : year < 0
  · rw [if_pos hneg, List.cons_append, readYear, trimStart_cons rfl]
    simp only [hall, bind, Except.bind, hvalue]
    rw [if_pos (Nat.le_of_lt hsmall)]
    have hyear : -(year.natAbs : Int) = year := by omega
    rw [hyear]
  rw [if_neg hneg]
  have hyear : (year.natAbs : Int) = year := by omega
  by_cases hbig : year < 10000
  · have hfull : digits.length = 4 := hfour (by omega)
    have hread : readDigits 4 (digits ++ '-' :: rest) = .ok (digits, '-' :: rest) :=
      readDigits_append hdigits hne (Nat.le_of_eq hfull) (Or.inl hfull)
    have hhead : ∀ c ∈ (digits ++ '-' :: rest).head?, c.isDigit = true := by
      intro c hc
      cases digits with
      | nil => exact absurd rfl hne
      | cons d digits =>
        cases hc
        exact hdigits c List.mem_cons_self
    rw [if_pos hbig, readYear, trimStart_digits hdigits hne]
    split
    · next hminus => exact absurd (hhead '-' (by rw [hminus]; rfl)) (by decide)
    · next hplus => exact absurd (hhead '+' (by rw [hplus]; rfl)) (by decide)
    · simp only [hread, bind, Except.bind, hvalue, hyear]
  · rw [if_neg hbig, List.cons_append, readYear, trimStart_cons rfl]
    simp only [hall, bind, Except.bind, hvalue]
    rw [if_pos hsmall, hyear]

theorem readFraction_digits {width n : Nat} (hpos : 0 < width) (hwidth : width ≤ 9)
    (hn : n < Nat.pow 10 width) {rest : List Char} (hrest : ∀ c ∈ rest.head?, c.isDigit = false) :
    readFraction ('.' :: (fixedDigits 10 width n ++ rest)) =
      .ok (n * Nat.pow 10 (9 - width), rest) := by
  have hlength := length_fixedDigits 10 width n
  have hdrop : rest.dropWhile Char.isDigit = rest := by
    cases rest with
    | nil => rfl
    | cons c rest => simp [hrest c rfl]
  have hread : readDigits 9 (fixedDigits 10 width n ++ rest) = .ok (fixedDigits 10 width n, rest) :=
    readDigits_append (fun _ => isDigit_of_mem_fixedDigits)
      (List.ne_nil_of_length_pos (by rw [hlength]; exact hpos)) (by rw [hlength]; exact hwidth)
      (Or.inr hrest)
  have hvalue : n % Nat.pow 10 width = n := Nat.mod_eq_of_lt hn
  simp only [readFraction, hread, bind, Except.bind]
  rw [decimalValue_fixedDigits, hlength, hvalue, hdrop]

theorem readFraction_fractionText {nano : Nat} (hnano : nano < 1000000000) :
    readFraction (fractionText nano ++ ['Z']) = .ok (nano, ['Z']) := by
  have hz : ∀ c ∈ (['Z'] : List Char).head?, c.isDigit = false := by
    rintro c ⟨⟩
    rfl
  unfold fractionText
  by_cases hzero : nano = 0
  · rw [if_pos hzero, hzero]
    rfl
  rw [if_neg hzero]
  by_cases hmilli : nano % 1000000 = 0
  · have hn : nano / 1000000 < Nat.pow 10 3 := by
      show nano / 1000000 < 1000
      omega
    have hvalue : nano / 1000000 * Nat.pow 10 (9 - 3) = nano := by
      show nano / 1000000 * 1000000 = nano
      omega
    rw [if_pos hmilli, List.cons_append, readFraction_digits (by decide) (by decide) hn hz, hvalue]
  rw [if_neg hmilli]
  by_cases hmicro : nano % 1000 = 0
  · have hn : nano / 1000 < Nat.pow 10 6 := by
      show nano / 1000 < 1000000
      omega
    have hvalue : nano / 1000 * Nat.pow 10 (9 - 6) = nano := by
      show nano / 1000 * 1000 = nano
      omega
    rw [if_pos hmicro, List.cons_append, readFraction_digits (by decide) (by decide) hn hz, hvalue]
  · have hvalue : nano * Nat.pow 10 (9 - 9) = nano := Nat.mul_one nano
    rw [if_neg hmicro, List.cons_append, readFraction_digits (by decide) (by decide) hnano hz,
      hvalue]

theorem ofLocal?_zero (t : Timestamp) : ofLocal? t.date t.time 0 = some t := by
  obtain ⟨date, ⟨hour, minute, second, nano⟩, hdate, htime⟩ := t
  obtain ⟨hhour, hminute, _, _⟩ := id htime
  simp only at hhour hminute
  have hlow : ¬((hour * 60 + minute : Int) - 0 < 0) := by omega
  have hhigh : ¬(1440 ≤ (hour * 60 + minute : Int) - 0) := by omega
  have hh : ((hour * 60 + minute : Int) - 0).toNat / 60 = hour := by omega
  have hm : ((hour * 60 + minute : Int) - 0).toNat % 60 = minute := by omega
  simp only [ofLocal?, if_neg hlow, if_neg hhigh, hh, hm]
  exact dif_pos ⟨hdate, htime⟩

theorem ofText_text (t : Timestamp) : ofText t.text = .ok t := by
  obtain ⟨⟨hyearLeast, hyearMost⟩, ⟨hmonthLeast, hmonthMost⟩, ⟨hdayLeast, hday⟩⟩ := id t.date_valid
  obtain ⟨hhour, hminute, hsecond, hnano⟩ := id t.time_valid
  have hdayMost : t.date.day ≤ 31 := by
    have hdays : Date.daysInMonth t.date.year t.date.month ≤ 31 := by
      unfold Date.daysInMonth
      split
      · split <;> decide
      · split <;> decide
    omega
  have hmark : ∀ (c : Char) rest, isBlank c = false →
      readMark c (trimStart (c :: rest)) = .ok ((), rest) := by
    intro c rest hc
    rw [trimStart_cons hc, readMark, if_pos rfl]
  have hoffset : readOffset (trimStart ['Z']) = .ok (0, []) := by rfl
  have htext : t.text = yearText t.date.year ++ '-' :: (fixedDigits 10 2 t.date.month ++
      '-' :: (fixedDigits 10 2 t.date.day ++ 'T' :: (fixedDigits 10 2 t.time.hour ++
      ':' :: (fixedDigits 10 2 t.time.minute ++ ':' :: (fixedDigits 10 2 t.time.second ++
      (fractionText t.time.nano ++ ['Z'])))))) := by
    simp [text]
  rw [htext, ofText, readYear_yearText hyearLeast hyearMost]
  simp only [bind, Except.bind]
  rw [hmark '-' _ rfl]
  simp only
  rw [readField_fixedDigits hmonthLeast hmonthMost (by omega)]
  simp only
  rw [hmark '-' _ rfl]
  simp only
  rw [readField_fixedDigits hdayLeast hdayMost (by omega)]
  simp only [readDayEnd, true_or, if_true]
  rw [readField_fixedDigits (Nat.zero_le _) (by omega) (by omega)]
  simp only
  rw [hmark ':' _ rfl]
  simp only
  rw [readField_fixedDigits (Nat.zero_le _) (by omega) (by omega)]
  simp only
  rw [hmark ':' _ rfl]
  simp only
  rw [readField_fixedDigits (Nat.zero_le _) hsecond (by omega)]
  simp only
  rw [readFraction_fractionText hnano]
  simp only
  rw [hoffset]
  have hvalid : ¬(¬t.date.Valid ∨ 1440 ≤ (0 : Int).natAbs) := by simp [t.date_valid]
  have hempty : ¬trimStart [] ≠ [] := fun h => h rfl
  simp only [if_neg hempty]
  rw [if_neg hvalid, ofLocal?_zero]

end StackJournal.Timestamp
