import StackJournal.Proofs.Text.Blank
import StackJournal.Proofs.Text.Script
import StackJournal.Text.Digits

/-! # Integers spelled out

An integer has many spellings: its digits may follow zeros, and a plus sign where it is not negative. A
reader takes just the spellings of the integers in its range.
-/
namespace StackJournal.Text

def IsNumeral (digits : List Char) : Prop := digits ≠ [] ∧ ∀ c ∈ digits, c.isDigit = true

inductive Spells : Int → List Char → Prop where
  | plain {digits : List Char} (numeral : IsNumeral digits) : Spells (decimalValue digits) digits
  | plus {digits : List Char} (numeral : IsNumeral digits) :
      Spells (decimalValue digits) ('+' :: digits)
  | minus {digits : List Char} (numeral : IsNumeral digits) :
      Spells (-decimalValue digits) ('-' :: digits)

variable {s digits : List Char} {i : Int} {c : Char}

theorem wholeNumber?_eq_some_iff {n : Nat} :
    wholeNumber? s = some n ↔ IsNumeral s ∧ n = decimalValue s := by
  rw [wholeNumber?, IsNumeral, ← List.all_eq_true]
  by_cases h : s ≠ [] ∧ s.all Char.isDigit = true
  · simp [h, eq_comm]
  · rw [if_neg h]
    exact iff_of_false nofun fun hs => h hs.1

/-- A numeral begins with a digit, not with a sign. -/
theorem not_isNumeral_cons (h : c.isDigit = false) : ¬IsNumeral (c :: digits) := by
  rintro ⟨_, hall⟩
  simp [h] at hall

theorem spells_minus_iff : Spells i ('-' :: digits) ↔ IsNumeral digits ∧ i = -decimalValue digits := by
  constructor
  · intro h
    cases h with
    | plain numeral => exact absurd numeral (not_isNumeral_cons (by decide))
    | minus numeral => exact ⟨numeral, rfl⟩
  · rintro ⟨numeral, rfl⟩
    exact .minus numeral

theorem spells_plus_iff : Spells i ('+' :: digits) ↔ IsNumeral digits ∧ i = decimalValue digits := by
  constructor
  · intro h
    cases h with
    | plain numeral => exact absurd numeral (not_isNumeral_cons (by decide))
    | plus numeral => exact ⟨numeral, rfl⟩
  · rintro ⟨numeral, rfl⟩
    exact .plus numeral

theorem spells_plain_iff (minus : ∀ rest, s ≠ '-' :: rest) (plus : ∀ rest, s ≠ '+' :: rest) :
    Spells i s ↔ IsNumeral s ∧ i = decimalValue s := by
  constructor
  · intro h
    cases h with
    | plain numeral => exact ⟨numeral, rfl⟩
    | plus _ => exact absurd rfl (plus _)
    | minus _ => exact absurd rfl (minus _)
  · rintro ⟨numeral, rfl⟩
    exact .plain numeral

/-- Of the numbers that a text may spell, those in range are kept. -/
theorem map_ofInt_filter_eq_some_iff {number : Option Int} (reads : ∀ i, number = some i ↔ Spells i s)
    {v : Int64} : (number.filter fun i =>
      Int64.minValue.toInt ≤ i ∧ i ≤ Int64.maxValue.toInt).map Int64.ofInt = some v ↔
        Spells v.toInt s := by
  simp only [Option.map_eq_some_iff, Option.filter_eq_some_iff, decide_eq_true_eq]
  constructor
  · rintro ⟨i, ⟨hnumber, hmin, hmax⟩, rfl⟩
    rw [Int64.toInt_ofInt_of_le hmin (Int.lt_add_one_iff.mpr hmax)]
    exact (reads i).mp hnumber
  · intro h
    exact ⟨v.toInt, ⟨(reads _).mpr h, v.minValue_le_toInt, v.toInt_le⟩, v.ofInt_toInt⟩

theorem map_wholeNumber?_eq_some_iff (f : Int → Int) :
    (do let n ← wholeNumber? s; pure (n : Int)).map f = some i ↔
      IsNumeral s ∧ i = f (decimalValue s) := by
  simp only [Option.pure_def, Option.bind_eq_bind, Option.map_eq_some_iff, Option.bind_eq_some_iff,
    Option.some_inj, wholeNumber?_eq_some_iff]
  constructor
  · rintro ⟨_, ⟨_, ⟨numeral, rfl⟩, rfl⟩, rfl⟩
    exact ⟨numeral, rfl⟩
  · rintro ⟨numeral, rfl⟩
    exact ⟨_, ⟨_, ⟨numeral, rfl⟩, rfl⟩, rfl⟩

theorem signed?_eq_some_iff {v : Int64} : signed? s = some v ↔ Spells v.toInt s := by
  refine map_ofInt_filter_eq_some_iff fun i => ?_
  split
  · rw [spells_minus_iff]
    apply map_wholeNumber?_eq_some_iff
  · rw [spells_plus_iff]
    apply map_wholeNumber?_eq_some_iff
  · rename_i hminus hplus
    rw [spells_plain_iff hminus hplus]
    apply map_wholeNumber?_eq_some_iff

section Spells

variable (h : Spells i s)

include h

theorem Spells.mem (hc : c ∈ s) : c.isDigit = true ∨ c = '+' ∨ c = '-' := by
  cases h with
  | plain numeral => exact Or.inl (numeral.2 c hc)
  | plus numeral => exact (List.mem_cons.mp hc).elim (Or.inr ∘ Or.inl) (Or.inl ∘ numeral.2 c)
  | minus numeral => exact (List.mem_cons.mp hc).elim (Or.inr ∘ Or.inr) (Or.inl ∘ numeral.2 c)

theorem Spells.ne_nil : s ≠ [] := by
  cases h with
  | plain numeral => exact numeral.1
  | plus _ | minus _ => simp

/-- A spelling has no character that is neither a digit nor a sign. -/
theorem Spells.not_mem (digit : c.isDigit = false) (plus : c ≠ '+') (minus : c ≠ '-') : c ∉ s := by
  intro hc
  rcases h.mem hc with hdigit | hsign | hsign
  · simp [digit] at hdigit
  · exact plus hsign
  · exact minus hsign

end Spells

theorem Spells.isWord (h : Spells i s) : IsWord s := by
  refine ⟨h.ne_nil, fun c hc => ?_⟩
  rcases h.mem hc with hdigit | rfl | rfl
  · exact isBlank_of_isDigit hdigit
  · decide
  · decide

theorem Spells.isCommand (h : Spells i s) : isCommand [s] = true := by
  have hnote : '#' ∉ s := h.not_mem (by decide) (by decide) (by decide)
  obtain ⟨c, rest, rfl⟩ := List.exists_cons_of_ne_nil h.ne_nil
  have hc : c ≠ '#' := fun hc => hnote (hc ▸ List.mem_cons_self)
  simpa [Text.isCommand] using hc

end StackJournal.Text
