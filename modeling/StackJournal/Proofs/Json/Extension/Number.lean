import StackJournal.Json.Number
import StackJournal.Proofs.Outcome

/-! # Numbers before more text

A number that was read with text left over ends where it ends: whatever is written after that text,
the number is read the same, and so it is passed over.
-/
namespace StackJournal.Json.Number

theorem dropWhile_append_of_ne_nil {p : Char → Bool} {s : List Char} (h : s.dropWhile p ≠ [])
    (t : List Char) : (s ++ t).dropWhile p = s.dropWhile p ++ t := by
  have hempty : (s.dropWhile p).isEmpty = false := List.isEmpty_eq_false_iff.mpr h
  rw [List.dropWhile_append, hempty, if_neg Bool.false_ne_true]

theorem takeWhile_append_of_ne_nil {p : Char → Bool} {s : List Char} (h : s.dropWhile p ≠ [])
    (t : List Char) : (s ++ t).takeWhile p = s.takeWhile p := by
  have hparts : s.takeWhile p ++ s.dropWhile p = s := List.takeWhile_append_dropWhile
  have hlength := congrArg List.length hparts
  have hpos := List.length_pos_iff.mpr h
  rw [List.length_append] at hlength
  rw [List.takeWhile_append, if_neg (by omega)]

theorem startsWithDigit_append {s : List Char} (h : s ≠ []) (t : List Char) :
    startsWithDigit (s ++ t) = startsWithDigit s := by
  cases s with
  | nil => exact absurd rfl h
  | cons c s => rfl

theorem takeDigits_more {s rest : List Char} {value count value' count' : Nat}
    (h : takeDigits value count s = (value', count', rest)) (hrest : rest ≠ []) (t : List Char) :
    takeDigits value count (s ++ t) = (value', count', rest ++ t) := by
  induction s generalizing value count with
  | nil =>
    rw [takeDigits] at h
    cases h
    exact absurd rfl hrest
  | cons c s ih =>
    rw [takeDigits] at h
    rw [List.cons_append, takeDigits]
    refine ite_eq_of_ite_eq h ?_ ?_
    · intro _ h
      exact ih h
    · intro _ h
      cases h
      rfl

variable {negative : Bool} {significand : Nat} {exponent : Int} {n : Number} {s rest : List Char}

theorem ofScaled_more (h : ofScaled negative significand exponent s = .ok (n, rest))
    (t : List Char) :
    rest = s ∧ ofScaled negative significand exponent (s ++ t) = .ok (n, rest ++ t) := by
  unfold ofScaled at h ⊢
  split at h
  · cases h
    exact ⟨rfl, rfl⟩
  · cases h

/-- A sign that may stand before the digits of an exponent is passed over the same. -/
theorem skipSign_append (c : Char) (s t : List Char) :
    (if (some c == some '-' || some c == some '+') = true then s ++ t else c :: (s ++ t)) =
      (if (some c == some '-' || some c == some '+') = true then s else c :: s) ++ t := by
  split <;> rfl

theorem readExponent_more (h : readExponent negative significand exponent s = .ok (n, rest))
    (hrest : rest ≠ []) (t : List Char) :
    readExponent negative significand exponent (s ++ t) = .ok (n, rest ++ t) := by
  cases s with
  | nil => cases h
  | cons c s =>
    simp only [readExponent, List.cons_append, List.head?_cons, List.drop_one, List.tail_cons]
      at h ⊢
    rw [skipSign_append]
    generalize (if (some c == some '-' || some c == some '+') = true then s else c :: s) = s at h ⊢
    cases s with
    | nil => cases h
    | cons d s =>
      simp only at h ⊢
      rw [List.cons_append]
      simp only
      split at h
      · next hd =>
        have hwhole : (d :: s).dropWhile Char.isDigit ≠ [] := by
          intro hnil
          rw [hnil] at h
          split at h
          · exact hrest (ofScaled_more h []).1
          · split at h
            · cases h
              exact hrest rfl
            · cases h
        rw [if_pos hd, ← List.cons_append, takeWhile_append_of_ne_nil hwhole,
          dropWhile_append_of_ne_nil hwhole]
        refine ite_eq_of_ite_eq h ?_ ?_
        · intro _ h
          exact (ofScaled_more h t).2
        · intro _ h
          refine ite_eq_of_ite_eq h ?_ ?_
          · intro _ h
            cases h
            rfl
          · intro _ h
            cases h
      · cases h

theorem readScale_more (h : readScale negative significand exponent s = .ok (n, rest))
    (hrest : rest ≠ []) (t : List Char) :
    readScale negative significand exponent (s ++ t) = .ok (n, rest ++ t) := by
  cases s with
  | nil => exact absurd (ofScaled_more h []).1 hrest
  | cons c s =>
    rw [readScale] at h
    rw [List.cons_append, readScale]
    refine ite_eq_of_ite_eq h ?_ ?_
    · intro _ h
      exact readExponent_more h hrest t
    · intro _ h
      exact (ofScaled_more h t).2

theorem readFraction_more (h : readFraction negative significand exponent s = .ok (n, rest))
    (hrest : rest ≠ []) (t : List Char) :
    readFraction negative significand exponent (s ++ t) = .ok (n, rest ++ t) := by
  obtain ⟨value, count, after, htake⟩ :
      ∃ value count after, takeDigits significand 0 s = (value, count, after) := ⟨_, _, _, rfl⟩
  unfold readFraction at h ⊢
  rw [htake] at h
  simp only at h
  have hafter : after ≠ [] := by
    rintro rfl
    split at h
    · next hdigit => cases hdigit
    · split at h
      · cases h
      · exact hrest (ofScaled_more h []).1
  rw [takeDigits_more htake hafter t]
  simp only
  rw [startsWithDigit_append hafter]
  split at h
  · next hdigit =>
    have hdrop : after.dropWhile Char.isDigit ≠ [] := by
      intro hnil
      rw [hnil] at h
      exact hrest (ofScaled_more h []).1
    rw [if_pos hdigit, dropWhile_append_of_ne_nil hdrop]
    exact readScale_more h hrest t
  · next hdigit =>
    rw [if_neg hdigit]
    refine ite_eq_of_ite_eq h ?_ ?_
    · intro _ h
      cases h
    · intro _ h
      exact readScale_more h hrest t

theorem readWhole_more {value : Nat} (h : readWhole negative value s = .ok (n, rest))
    (hrest : rest ≠ []) (t : List Char) :
    readWhole negative value (s ++ t) = .ok (n, rest ++ t) := by
  cases s with
  | nil =>
    cases h
    exact absurd rfl hrest
  | cons c s =>
    rw [readWhole] at h
    rw [List.cons_append, readWhole]
    refine ite_eq_of_ite_eq h ?_ ?_
    · intro _ h
      exact readFraction_more h hrest t
    intro _ h
    refine ite_eq_of_ite_eq h ?_ ?_
    · intro _ h
      exact readExponent_more h hrest t
    · intro _ h
      cases h
      rfl

theorem readLong_more {value : Nat} (h : readLong negative value s = .ok (n, rest))
    (hrest : rest ≠ []) (t : List Char) :
    readLong negative value (s ++ t) = .ok (n, rest ++ t) := by
  unfold readLong at h ⊢
  have hdrop : s.dropWhile Char.isDigit ≠ [] := by
    intro hnil
    simp only [hnil] at h
    exact hrest (ofScaled_more h []).1
  rw [dropWhile_append_of_ne_nil hdrop, takeWhile_append_of_ne_nil hdrop]
  cases hs : s.dropWhile Char.isDigit with
  | nil => exact absurd hs hdrop
  | cons c after =>
    simp only [hs] at h
    simp only [List.cons_append]
    refine ite_eq_of_ite_eq h ?_ ?_
    · intro _ h
      exact readFraction_more h hrest t
    · intro _ h
      exact readScale_more h hrest t

theorem read_more (h : read negative s = .ok (n, rest)) (hrest : rest ≠ []) (t : List Char) :
    read negative (s ++ t) = .ok (n, rest ++ t) := by
  cases s with
  | nil => cases h
  | cons c s =>
    rw [read] at h
    rw [List.cons_append, read]
    refine ite_eq_of_ite_eq h ?_ ?_
    · intro _ h
      have hs : s ≠ [] := by
        rintro rfl
        cases h
        exact hrest rfl
      rw [startsWithDigit_append hs]
      refine ite_eq_of_ite_eq h ?_ ?_
      · intro _ h
        cases h
      · intro _ h
        exact readWhole_more h hrest t
    intro _ h
    refine ite_eq_of_ite_eq h ?_ ?_
    · intro _ h
      obtain ⟨value, count, after, htake⟩ :
          ∃ value count after, takeDigits 0 0 (c :: s) = (value, count, after) := ⟨_, _, _, rfl⟩
      rw [htake] at h
      simp only at h
      have hafter : after ≠ [] := by
        rintro rfl
        cases h
        exact hrest rfl
      rw [← List.cons_append, takeDigits_more htake hafter t]
      simp only
      rw [startsWithDigit_append hafter]
      refine ite_eq_of_ite_eq h ?_ ?_
      · intro _ h
        exact readLong_more h hrest t
      · intro _ h
        exact readWhole_more h hrest t
    · intro _ h
      cases h

theorem skipExponent_more (h : skipExponent s = .ok rest) (hrest : rest ≠ []) (t : List Char) :
    skipExponent (s ++ t) = .ok (rest ++ t) := by
  cases s with
  | nil => cases h
  | cons c s =>
    simp only [skipExponent, List.cons_append, List.head?_cons, List.drop_one, List.tail_cons]
      at h ⊢
    rw [skipSign_append]
    generalize (if (some c == some '-' || some c == some '+') = true then s else c :: s) = s at h ⊢
    split at h
    · next hdigit =>
      cases h
      have hs : s ≠ [] := by
        rintro rfl
        cases hdigit
      rw [startsWithDigit_append hs, if_pos hdigit, dropWhile_append_of_ne_nil hrest]
    · cases h

theorem skipFraction_more (h : skipFraction s = .ok rest) (hrest : rest ≠ []) (t : List Char) :
    skipFraction (s ++ t) = .ok (rest ++ t) := by
  cases s with
  | nil =>
    cases h
    exact absurd rfl hrest
  | cons c s =>
    simp only [skipFraction, List.cons_append, List.head?_cons, List.drop_one, List.tail_cons]
      at h ⊢
    refine ite_eq_of_ite_eq h ?_ ?_
    · intro _ h
      split at h
      · next hdigit =>
        cases h
        have hs : s ≠ [] := by
          rintro rfl
          cases hdigit
        rw [startsWithDigit_append hs, if_pos hdigit, dropWhile_append_of_ne_nil hrest]
      · cases h
    · intro _ h
      cases h
      rfl

theorem skipScale_more (h : skipScale s = .ok rest) (hrest : rest ≠ []) (t : List Char) :
    skipScale (s ++ t) = .ok (rest ++ t) := by
  cases s with
  | nil =>
    cases h
    exact absurd rfl hrest
  | cons c s =>
    simp only [skipScale, List.cons_append, List.head?_cons, List.drop_one, List.tail_cons] at h ⊢
    refine ite_eq_of_ite_eq h ?_ ?_
    · intro _ h
      exact skipExponent_more h hrest t
    · intro _ h
      cases h
      rfl

theorem skip_more (h : skip s = .ok rest) (hrest : rest ≠ []) (t : List Char) :
    skip (s ++ t) = .ok (rest ++ t) := by
  unfold skip at h ⊢
  split at h
  · cases h
  next hlead =>
  obtain ⟨middle, hfraction, hscale⟩ := bind_eq_ok_iff.mp h
  have hmiddle : middle ≠ [] := by
    rintro rfl
    cases hscale
    exact hrest rfl
  have hdrop : s.dropWhile Char.isDigit ≠ [] := by
    intro hnil
    rw [hnil] at hfraction
    cases hfraction
    exact hmiddle rfl
  have hsame : (!startsWithDigit (s ++ t) || (s ++ t).head? == some '0' &&
      startsWithDigit ((s ++ t).drop 1)) = (!startsWithDigit s || s.head? == some '0' &&
      startsWithDigit (s.drop 1)) := by
    match s with
    | [] => exact absurd rfl hdrop
    | [c] =>
      cases hc : c.isDigit with
      | false => simp [startsWithDigit, hc]
      | true => simp [List.dropWhile, hc] at hdrop
    | c :: d :: s => rfl
  rw [hsame, if_neg hlead, dropWhile_append_of_ne_nil hdrop]
  exact bind_eq_ok_iff.mpr
    ⟨middle ++ t, skipFraction_more hfraction hmiddle t, skipScale_more hscale hrest t⟩

end StackJournal.Json.Number
