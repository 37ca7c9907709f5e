import StackJournal.Kapp
import StackJournal.Proofs.Stack.History

/-! # Literals push their integer

After `zero` every step of a literal moves the top item one further from 0 and stays within range, up to
the integer itself, the least one included.
-/
namespace StackJournal

namespace Kapp

variable {value : Int64} {steps : Nat}

theorem act_literalStep (h : value.toInt ≠ 0) (top : Int) (cells : List Int64) :
    (literalStep value).act (Int64.ofInt top :: cells) =
      Int64.ofInt (top + value.toInt.sign) :: cells := by
  have hdown : value < 0 ↔ value.toInt < 0 := Int64.lt_iff_toInt_lt
  rw [literalStep]
  rcases Int.lt_or_gt_of_ne h with hneg | hpos
  · rw [if_pos (hdown.mpr hneg), Int.sign_eq_neg_one_of_neg hneg]
    simp [act, Int64.sub_eq_add_neg]
  · rw [if_neg (by rw [hdown]; omega), Int.sign_eq_one_of_pos hpos]
    simp [act]

theorem foldl_literalStep (h : steps ≤ value.toInt.natAbs) (cells : List Int64) :
    (List.replicate steps (literalStep value)).foldl (fun cells kapp => kapp.act cells) (0 :: cells) =
      Int64.ofInt (value.toInt.sign * steps) :: cells := by
  induction steps with
  | zero => simp
  | succ steps ih =>
    rw [List.replicate_succ', List.foldl_append, ih (by omega), List.foldl_cons,
      act_literalStep (by omega)]
    simp [Int.mul_add]

/-- No step wraps around: it is no further from 0 than the integer, and on the same side. -/
theorem toInt_ofInt_steps (h : steps ≤ value.toInt.natAbs) :
    (Int64.ofInt (value.toInt.sign * steps)).toInt = value.toInt.sign * steps := by
  have hlow := value.le_toInt
  have hhigh := value.toInt_lt
  rcases Int.lt_trichotomy value.toInt 0 with hneg | hzero | hpos
  · rw [Int.sign_eq_neg_one_of_neg hneg, Int64.toInt_ofInt_of_le] <;> omega
  · simp [hzero]
  · rw [Int.sign_eq_one_of_pos hpos, Int64.toInt_ofInt_of_le] <;> omega

end Kapp

namespace Stack

variable {value : Int64} {steps : Nat}

theorem applyKapps_literal_take (stack : Stack) (h : steps ≤ value.toInt.natAbs) :
    stack.applyKapps ((Kapp.literal value).take (steps + 1)) =
      { stack with
        version := stack.version + steps + 1
        cells := Int64.ofInt (value.toInt.sign * steps) :: stack.cells } := by
  have hzero : Kapp.zero.act stack.cells = 0 :: stack.cells := rfl
  rw [← Kapp.literalTake_eq, Kapp.literalTake, Nat.min_eq_left h, applyKapps_eq, List.foldl_cons,
    hzero, Kapp.foldl_literalStep h, List.length_cons, List.length_replicate, Nat.add_assoc]

theorem applyKapps_literal (stack : Stack) (value : Int64) :
    stack.applyKapps (Kapp.literal value) =
      { stack with
        version := stack.version + value.toInt.natAbs + 1
        cells := value :: stack.cells } := by
  have hwhole := stack.applyKapps_literal_take (Nat.le_refl value.toInt.natAbs)
  rw [← Kapp.length_literal, List.take_length, Int.sign_mul_natAbs, Int64.ofInt_toInt] at hwhole
  exact hwhole

end Stack

end StackJournal
