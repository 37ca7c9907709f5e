import Mathlib.Algebra.GroupWithZero.Nat
import StackJournal.Proofs.Text.Digits
import StackJournal.Uuid

/-! # Identities read back

An identity is read back from its text.
-/
namespace StackJournal.Uuid

open Text

theorem length_joinGroups {n : Nat} {lengths : List Nat} {s : List Char}
    (h : (n :: lengths).sum = s.length) :
    (joinGroups (n :: lengths) s).length = s.length + lengths.length := by
  induction lengths generalizing n s with
  | nil => rfl
  | cons m lengths ih =>
    rw [List.sum_cons] at h
    have htail := ih (n := m) (s := s.drop n) (by rw [List.length_drop]; omega)
    have htake : (s.take n).length = n := by rw [List.length_take]; omega
    rw [joinGroups, List.length_append, List.length_cons, htail, htake, List.length_drop,
      List.length_cons]
    omega

theorem mem_joinGroups {c : Char} {lengths : List Nat} {s : List Char}
    (h : c ∈ joinGroups lengths s) : c ∈ s ∨ c = '-' := by
  fun_induction joinGroups lengths s with
  | case1 => exact absurd h List.not_mem_nil
  | case2 => exact Or.inl h
  | case3 n m more s ih =>
    rcases List.mem_append.mp h with h | h
    · exact Or.inl (List.mem_of_mem_take h)
    rcases List.mem_cons.mp h with h | h
    · exact Or.inr h
    · exact (ih h).imp_left List.mem_of_mem_drop

theorem splitGroups?_joinGroups {n : Nat} {lengths : List Nat} {s : List Char}
    (h : (n :: lengths).sum = s.length) :
    splitGroups? (n :: lengths) (joinGroups (n :: lengths) s) = some s := by
  induction lengths generalizing n s with
  | nil =>
    have hn : s.length = n := by simpa using h.symm
    rw [joinGroups, splitGroups?, if_pos hn]
  | cons m lengths ih =>
    rw [List.sum_cons] at h
    have htail := ih (n := m) (s := s.drop n) (by rw [List.length_drop]; omega)
    have htake : (s.take n).length = n := by rw [List.length_take]; omega
    rw [joinGroups, splitGroups?, List.drop_left' htake]
    simp only
    rw [htail, List.take_left' htake, Option.map_some, List.take_append_drop]

theorem length_digits (id : Uuid) : id.digits.length = 32 := length_fixedDigits 16 32 _

theorem ofDigits?_digits (id : Uuid) : ofDigits? id.digits = some id := by
  have hvalue : id.value.toNat % Nat.pow 16 32 = id.value.toNat := Nat.mod_eq_of_lt id.value.isLt
  rw [ofDigits?, if_pos (length_digits id), digits, hexNumber?_fixedDigits, hvalue,
    Option.map_some, BitVec.ofNat_toNat, BitVec.setWidth_eq]

theorem ofText_text (id : Uuid) : ofText id.text = .ok id := by
  have hsum : groupLengths.sum = id.digits.length := (length_digits id).symm
  have hlength : id.text.length = 36 := by
    rw [text, groupLengths, length_joinGroups hsum, length_digits]
    rfl
  have hdigits : ofDigits? id.text = none := by
    rw [ofDigits?, if_neg (by rw [hlength]; decide)]
  have hgrouped : grouped? id.text = some id := by
    rw [grouped?, text, groupLengths, splitGroups?_joinGroups hsum, Option.bind_some,
      ofDigits?_digits]
  simp only [ofText, hdigits, hgrouped]

end StackJournal.Uuid
