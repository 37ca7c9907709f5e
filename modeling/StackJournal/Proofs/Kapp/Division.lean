import Mathlib.Data.Rat.Floor
import StackJournal.Stack

/-! # Division rounds down

The quotient of two items is made from the quotient rounded toward zero, which is one too large where
it is inexact and below 0. The correction never leaves the range of an item; the only quotient that
does is the one of the least item by -1, and it wraps around.
-/
namespace StackJournal

section Integers

variable {b a : ℤ}

theorem floor_intCast_div (b a : ℤ) : ⌊(b : ℚ) / a⌋ = b.fdiv a := by
  obtain ⟨n, rfl | rfl⟩ := a.eq_nat_or_neg
  · rw [Int.fdiv_eq_ediv_of_nonneg b (by omega)]
    exact Rat.floor_intCast_div_natCast b n
  · have hneg : (b : ℚ) / ((-n : ℤ) : ℚ) = ((-b : ℤ) : ℚ) / (n : ℚ) := by
      push_cast
      rw [div_neg, neg_div]
    rw [hneg, Rat.floor_intCast_div_natCast, ← Int.fdiv_eq_ediv_of_nonneg _ (by omega),
      ← Int.neg_fdiv_neg]
    simp

/-- The quotient toward zero is one too large just if it is inexact and below 0. -/
theorem fdiv_eq_corrected (ha : a ≠ 0) : b.fdiv a =
    if b.tmod a ≠ 0 ∧ ((b < 0) ≠ (a < 0)) then b.tdiv a - 1 else b.tdiv a := by
  simp only [Int.fdiv_eq_tdiv, Int.dvd_iff_tmod_eq_zero]
  rcases lt_or_gt_of_ne ha with hneg | hpos
  · simp only [Int.sign_eq_neg_one_of_neg hneg]
    grind
  · simp only [Int.sign_eq_one_of_pos hpos]
    grind

/-- What remains of the quotient rounded down has the sign of the divisor, and is smaller. -/
theorem fmod_bounds (ha : a ≠ 0) (b : ℤ) :
    (b.fmod a = 0 ∨ (b.fmod a).sign = a.sign) ∧ (b.fmod a).natAbs < a.natAbs := by
  rcases lt_or_gt_of_ne ha with hneg | hpos
  · have hbounds : a < b.fmod a ∧ b.fmod a ≤ 0 := by
      have hnonneg := Int.emod_nonneg b ha
      have hlt := Int.emod_lt_of_neg b hneg
      have hdvd := Int.dvd_iff_emod_eq_zero (a := a) (b := b)
      rw [Int.fmod_eq_emod]
      split <;> grind
    refine ⟨?_, by omega⟩
    rcases hbounds.2.lt_or_eq with hlt | hzero
    · exact Or.inr (by rw [Int.sign_eq_neg_one_of_neg hlt, Int.sign_eq_neg_one_of_neg hneg])
    · exact Or.inl hzero
  · have hnonneg := Int.fmod_nonneg_of_pos b hpos
    have hlt := Int.fmod_lt_of_pos b hpos
    refine ⟨?_, by omega⟩
    rcases hnonneg.lt_or_eq with hgt | hzero
    · exact Or.inr (by rw [Int.sign_eq_one_of_pos hgt, Int.sign_eq_one_of_pos hpos])
    · exact Or.inl hzero.symm

end Integers

variable {a b : Int64}

theorem toInt_eq_zero_iff : a.toInt = 0 ↔ a = 0 := Int64.toInt_inj (y := 0)

theorem mod_eq_zero_iff : b % a = 0 ↔ b.toInt.tmod a.toInt = 0 := by
  rw [← Int64.toInt_mod, toInt_eq_zero_iff]

/-- The quotient toward zero leaves the range for one pair only. -/
theorem toInt_div_eq_tdiv (h : ¬(b = Int64.minValue ∧ a = -1)) :
    (b / a).toInt = b.toInt.tdiv a.toInt := by
  by_cases hmin : b = Int64.minValue
  · exact Int64.toInt_div_of_ne_right b a fun hone => h ⟨hmin, hone⟩
  · exact Int64.toInt_div_of_ne_left b a hmin

/-- An inexact quotient is at most half of the range, so it can be corrected. -/
theorem toInt_div_sub_one (inexact : b % a ≠ 0) : (b / a - 1).toInt = (b / a).toInt - 1 := by
  have hrem : b.toInt.tmod a.toInt ≠ 0 := mt mod_eq_zero_iff.mpr inexact
  have hinside : ¬(b = Int64.minValue ∧ a = -1) := by
    rintro ⟨rfl, rfl⟩
    exact inexact (by decide)
  have hunit : a.toInt.natAbs ≠ 1 := by
    intro h
    have hdvd : a.toInt ∣ b.toInt := Int.natAbs_dvd.mp (by simp [h])
    exact hrem (Int.dvd_iff_tmod_eq_zero.mp hdvd)
  have hhalf : (b / a).toInt.natAbs ≤ b.toInt.natAbs / 2 := by
    rw [toInt_div_eq_tdiv hinside, Int.natAbs_tdiv]
    show b.toInt.natAbs / a.toInt.natAbs ≤ _
    rcases Nat.eq_zero_or_pos a.toInt.natAbs with hzero | hpos
    · simp [hzero]
    · exact Nat.div_le_div_left (by omega) (by decide)
  have hlow := b.le_toInt
  have hhigh := b.toInt_lt
  have hreduced : b / a - 1 = Int64.ofInt ((b / a).toInt - 1) := by
    rw [Int64.ofInt_sub, Int64.ofInt_toInt]
    rfl
  rw [hreduced, Int64.toInt_ofInt_of_le] <;> omega

theorem toInt_floorDiv (ha : a ≠ 0) (h : ¬(b = Int64.minValue ∧ a = -1)) :
    (floorDiv b a).toInt = b.toInt.fdiv a.toInt := by
  have hb : b < 0 ↔ b.toInt < 0 := Int64.lt_iff_toInt_lt
  have ha' : a < 0 ↔ a.toInt < 0 := Int64.lt_iff_toInt_lt
  rw [floorDiv, if_neg ha, fdiv_eq_corrected (mt toInt_eq_zero_iff.mp ha)]
  simp only [ne_eq, mod_eq_zero_iff, hb, ha']
  split
  next corrected => rw [toInt_div_sub_one (mt mod_eq_zero_iff.mp corrected.1), toInt_div_eq_tdiv h]
  · exact toInt_div_eq_tdiv h

/-- Whatever the items, their quotient is the exact one wrapped around. -/
theorem floorDiv_eq_ofInt (ha : a ≠ 0) : floorDiv b a = Int64.ofInt (b.toInt.fdiv a.toInt) := by
  by_cases h : b = Int64.minValue ∧ a = -1
  · obtain ⟨rfl, rfl⟩ := h
    decide
  · rw [← toInt_floorDiv ha h, Int64.ofInt_toInt]

theorem toInt_remainder (ha : a ≠ 0) :
    (b - floorDiv b a * a).toInt = b.toInt.fmod a.toInt := by
  have hwrapped : b - floorDiv b a * a = Int64.ofInt (b.toInt.fmod a.toInt) := by
    rw [floorDiv_eq_ofInt ha, Int.fmod_def, Int.mul_comm, Int64.ofInt_sub, Int64.ofInt_mul,
      Int64.ofInt_toInt, Int64.ofInt_toInt]
  obtain ⟨_, hlt⟩ := fmod_bounds (mt toInt_eq_zero_iff.mp ha) b.toInt
  have hlow := a.le_toInt
  have hhigh := a.toInt_lt
  rw [hwrapped, Int64.toInt_ofInt_of_le] <;> omega

structure RoundsDown (b a quotient : Int64) : Prop where
  byZero : a = 0 → quotient = 0
  wraps : a ≠ 0 → quotient.toInt = Int.bmod ⌊(b.toInt : ℚ) / a.toInt⌋ Int64.size
  inRange : a ≠ 0 → ¬(b = Int64.minValue ∧ a = -1) →
    quotient.toInt = ⌊(b.toInt : ℚ) / a.toInt⌋
  least : b = Int64.minValue → a = -1 → quotient = Int64.minValue
  /-- What remains, as the items subtract and multiply. -/
  remainder : a ≠ 0 → (b - quotient * a = 0 ∨ (b - quotient * a).toInt.sign = a.toInt.sign) ∧
    (b - quotient * a).toInt.natAbs < a.toInt.natAbs

theorem roundsDown_floorDiv (b a : Int64) : RoundsDown b a (floorDiv b a) where
  byZero ha := by simp [floorDiv, ha]
  wraps ha := by rw [floor_intCast_div, floorDiv_eq_ofInt ha, Int64.toInt_ofInt]
  inRange ha h := by rw [floor_intCast_div, toInt_floorDiv ha h]
  least := by
    rintro rfl rfl
    decide
  remainder ha := by
    rw [← toInt_eq_zero_iff, toInt_remainder ha]
    exact fmod_bounds (mt toInt_eq_zero_iff.mp ha) b.toInt

/-- Division takes the two top items and pushes their quotient rounded down, and leaves the others
alone. Where the quotient toward zero is corrected, the correction does not wrap around. -/
theorem div_rounds_down (stack : Stack) {a b : Int64} {below : List Int64}
    (two : stack.cells = a :: b :: below) :
    (∃ quotient, RoundsDown b a quotient ∧ stack.apply (.kapp .div) =
      { stack with version := stack.version + 1, cells := quotient :: below }) ∧
    (b % a ≠ 0 → (b < 0) ≠ (a < 0) → (b / a - 1).toInt = (b / a).toInt - 1) := by
  refine ⟨⟨floorDiv b a, roundsDown_floorDiv b a, ?_⟩, fun inexact _ => toInt_div_sub_one inexact⟩
  rw [Stack.apply, two]
  rfl

/-- The quotient of -7 by 2 on a third item. It is inexact, so it is corrected. -/
theorem seven_below_halved : (∃ quotient, RoundsDown (-7) 2 quotient ∧ quotient = -4 ∧
    (⟨⟨0⟩, 20, [2, -7, 5], #[]⟩ : Stack).apply (.kapp .div) =
      ⟨⟨0⟩, 21, [quotient, 5], #[]⟩) ∧
    ((-7) / 2 - 1 : Int64).toInt = ((-7) / 2 : Int64).toInt - 1 := by
  obtain ⟨⟨quotient, hrounds, happly⟩, hcorrected⟩ :=
    div_rounds_down ⟨⟨0⟩, 20, [2, -7, 5], #[]⟩ rfl
  refine ⟨⟨quotient, hrounds, ?_, happly⟩, hcorrected (by decide) (by decide)⟩
  have hcells := congrArg Stack.cells happly
  have hquotient : floorDiv (-7) 2 = quotient := (List.cons.inj hcells).1
  rw [← hquotient]
  decide

end StackJournal
