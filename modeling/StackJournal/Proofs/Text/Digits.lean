import StackJournal.Text.Digits

/-! # Digits read back

A number written in digits is read back as itself, in any count of digits that holds it.
-/
namespace StackJournal.Text

theorem decimal_ne_nil (n : Nat) : decimal n ≠ [] := Nat.toDigits_ne_nil

theorem isDigit_of_mem_decimal {n : Nat} {c : Char} (h : c ∈ decimal n) : c.isDigit = true :=
  Nat.isDigit_of_mem_toDigits (by decide) (by decide) h

/-- Only the number 0 is written with a leading zero, and with nothing after it. -/
theorem decimal_eq_cons (n : Nat) :
    ∃ c rest, decimal n = c :: rest ∧ (c = '0' → n = 0 ∧ rest = []) := by
  induction n using Nat.strongRecOn with
  | ind n ih =>
    unfold decimal at ih ⊢
    rw [Nat.toDigits_eq_if (by decide)]
    by_cases h : n < 10
    · rw [if_pos h]
      exact ⟨n.digitChar, [], rfl, fun h0 => ⟨Nat.digitChar_eq_zero.mp h0, rfl⟩⟩
    · rw [if_neg h]
      obtain ⟨c, rest, hc, h0⟩ := ih (n / 10) (by omega)
      refine ⟨c, rest ++ [(n % 10).digitChar], by rw [hc]; rfl, ?_⟩
      intro hz
      have := (h0 hz).1
      omega

theorem isDigit_of_mem_fixedDigits {width n : Nat} {c : Char} (h : c ∈ fixedDigits 10 width n) :
    c.isDigit = true := by
  induction width generalizing n with
  | zero => simp [fixedDigits] at h
  | succ width ih =>
    simp only [fixedDigits, List.mem_append, List.mem_singleton] at h
    rcases h with h | rfl
    · exact ih h
    · rw [Nat.isDigit_digitChar, decide_eq_true_eq]
      exact Nat.mod_lt n (by decide)

theorem decimalValue_fixedDigits (width n : Nat) :
    decimalValue (fixedDigits 10 width n) = n % Nat.pow 10 width := by
  induction width generalizing n with
  | zero => simp [fixedDigits, decimalValue, Nat.mod_one]
  | succ width ih =>
    have hd : n % 10 < 10 := Nat.mod_lt n (by decide)
    have hs := ih (n / 10)
    unfold decimalValue at hs ⊢
    rw [fixedDigits, Nat.ofDigitChars_append, hs, Nat.ofDigitChars_cons_digitChar_of_lt_ten hd,
      Nat.ofDigitChars_nil]
    have hp : Nat.pow 10 (width + 1) = 10 * Nat.pow 10 width := Nat.pow_succ'
    rw [hp, Nat.mod_mul]
    omega

theorem hexValue?_digitChar {d : Nat} (h : d < 16) : hexValue? d.digitChar = some d := by
  have hall : ∀ d : Fin 16, hexValue? d.val.digitChar = some d.val := by decide
  exact hall ⟨d, h⟩

theorem hexNumber?_append_digit {s : List Char} {value d : Nat} (hs : hexNumber? s = some value)
    (h : d < 16) : hexNumber? (s ++ [d.digitChar]) = some (16 * value + d) := by
  unfold hexNumber? at hs ⊢
  rw [List.foldlM_append, hs]
  simp [hexValue?_digitChar h]

theorem hexNumber?_fixedDigits (width n : Nat) :
    hexNumber? (fixedDigits 16 width n) = some (n % Nat.pow 16 width) := by
  induction width generalizing n with
  | zero => simp [fixedDigits, hexNumber?, Nat.mod_one]
  | succ width ih =>
    rw [fixedDigits, hexNumber?_append_digit (ih (n / 16)) (Nat.mod_lt n (by decide))]
    have hp : Nat.pow 16 (width + 1) = 16 * Nat.pow 16 width := Nat.pow_succ'
    rw [hp, Nat.mod_mul]
    congr 1
    omega

end StackJournal.Text
