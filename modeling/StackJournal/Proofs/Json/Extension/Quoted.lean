import StackJournal.Json.Text
import StackJournal.Proofs.Outcome

/-! # Quoted text before more text

A quoted text ends with its quote: whatever is written after it, it is read the same, and so it is
passed over.
-/
namespace StackJournal.Json

open Text

theorem utf8Size_of_isHex {c : Char} (h : isHex c = true) : c.utf8Size = 1 := by
  have hsmall : c.toNat < 128 := by
    unfold isHex hexValue? at h
    split at h
    · next hdigit => exact Nat.lt_of_le_of_lt (Char.isDigit_iff_toNat.mp hdigit).2 (by decide)
    · split at h
      · next hletter => exact Nat.lt_of_le_of_lt hletter.2 (by decide)
      · split at h
        · next hletter => exact Nat.lt_of_le_of_lt hletter.2 (by decide)
        · cases h
  unfold Char.utf8Size
  exact if_pos (Nat.le_of_lt_succ hsmall)

theorem isHex_of_hexNumber? {s : List Char} {n : Nat} (h : hexNumber? s = some n) :
    ∀ c ∈ s, isHex c = true := by
  suffices hfold : ∀ value,
      (s.foldlM (fun value c => (hexValue? c).map (16 * value + ·)) value).isSome →
      ∀ c ∈ s, isHex c = true by
    exact hfold 0 (by rw [hexNumber?] at h; rw [h]; rfl)
  clear h
  induction s with
  | nil => exact fun _ _ c hc => nomatch hc
  | cons d s ih =>
    intro value h c hc
    rw [List.foldlM_cons] at h
    cases hd : hexValue? d with
    | none =>
      rw [hd] at h
      cases h
    | some v =>
      rw [hd] at h
      rcases List.mem_cons.mp hc with rfl | hc
      · rw [isHex, hd]
        rfl
      · exact ih _ h c hc

theorem utf8Length_of_isHex {s : List Char} (h : ∀ c ∈ s, isHex c = true) :
    utf8Length s = s.length := by
  induction s with
  | nil => rfl
  | cons c s ih =>
    rw [utf8Length, utf8Size_of_isHex (h c List.mem_cons_self),
      ih fun d hd => h d (List.mem_cons_of_mem c hd), List.length_cons, Nat.add_comm]

theorem length_of_hexQuad {s : List Char} {n : Nat} (h : hexQuad s = .ok n) : 4 ≤ s.length := by
  unfold hexQuad at h
  split at h
  · cases h
  next hlong =>
  cases hn : hexNumber? (s.take 4) with
  | none =>
    rw [hn] at h
    cases h
  | some m =>
    rw [utf8Length_of_isHex (isHex_of_hexNumber? hn), List.length_take] at hlong
    omega

theorem hexQuad_append {s : List Char} {n : Nat} (h : hexQuad s = .ok n) (t : List Char) :
    hexQuad (s ++ t) = .ok n := by
  have hlong := length_of_hexQuad h
  rwa [hexQuad, List.take_append_of_le_length hlong]

theorem hexEscape_append {s : List Char} {c : Char} {used : Nat}
    (h : hexEscape s = .ok (c, used)) (t : List Char) : hexEscape (s ++ t) = .ok (c, used) := by
  obtain ⟨n, hn, h⟩ := bind_eq_ok_iff.mp h
  refine bind_eq_ok_iff.mpr ⟨n, hexQuad_append hn t, ?_⟩
  refine ite_eq_of_ite_eq h ?_ ?_
  · intro _ h
    cases h
  intro _ h
  refine ite_eq_of_ite_eq h ?_ ?_
  · intro _ h
    exact h
  intro _ h
  rw [List.drop_append_of_le_length (length_of_hexQuad hn)]
  cases hs : s.drop 4 with
  | nil =>
    rw [hs] at h
    cases h
  | cons b rest =>
    cases rest with
    | nil =>
      rw [hs] at h
      cases h
    | cons d rest =>
      simp only [hs] at h
      simp only [List.cons_append]
      refine ite_eq_of_ite_eq h ?_ ?_
      · intro _ h
        obtain ⟨m, hm, h⟩ := bind_eq_ok_iff.mp h
        exact bind_eq_ok_iff.mpr ⟨m, hexQuad_append hm t, h⟩
      · intro _ h
        cases h

theorem escaped_append {s : List Char} {c : Char} {used : Nat} (h : escaped s = .ok (c, used))
    (t : List Char) : escaped (s ++ t) = .ok (c, used) := by
  cases s with
  | nil => cases h
  | cons d s =>
    by_cases hu : d = 'u'
    · subst hu
      exact hexEscape_append h t
    · simp only [escaped, if_neg hu] at h
      simp only [List.cons_append, escaped, if_neg hu]
      exact h

theorem readString_append {skip : Nat} {s text rest : List Char}
    (h : readString skip s = .ok (text, rest)) (t : List Char) :
    readString skip (s ++ t) = .ok (text, rest ++ t) := by
  induction s generalizing skip text with
  | nil => cases skip <;> cases h
  | cons c s ih =>
    cases skip with
    | succ skip => exact ih h
    | zero =>
      rw [readString] at h
      rw [List.cons_append, readString]
      refine ite_eq_of_ite_eq h ?_ ?_
      · intro _ h
        cases h
        rfl
      intro _ h
      refine ite_eq_of_ite_eq h ?_ ?_
      · intro _ h
        obtain ⟨⟨d, used⟩, hd, h⟩ := bind_eq_ok_iff.mp h
        obtain ⟨⟨text, after⟩, htext, h⟩ := bind_eq_ok_iff.mp h
        cases h
        exact bind_eq_ok_iff.mpr
          ⟨(d, used), escaped_append hd t, bind_eq_ok_iff.mpr ⟨(text, rest ++ t), ih htext, rfl⟩⟩
      intro _ h
      refine ite_eq_of_ite_eq h ?_ ?_
      · intro _ h
        cases h
      · intro _ h
        obtain ⟨⟨text, after⟩, htext, h⟩ := bind_eq_ok_iff.mp h
        cases h
        exact bind_eq_ok_iff.mpr ⟨(text, rest ++ t), ih htext, rfl⟩

theorem escapeLength_append {s : List Char} {used : Nat} (h : escapeLength s = .ok used)
    (t : List Char) : escapeLength (s ++ t) = .ok used := by
  cases s with
  | nil => cases h
  | cons c s =>
    rw [escapeLength] at h
    rw [List.cons_append, escapeLength]
    refine ite_eq_of_ite_eq h ?_ ?_
    · intro _ h
      exact h
    intro _ h
    refine ite_eq_of_ite_eq h ?_ ?_
    · intro _ h
      obtain ⟨n, hn, h⟩ := bind_eq_ok_iff.mp h
      exact bind_eq_ok_iff.mpr ⟨n, hexQuad_append hn t, h⟩
    · intro _ h
      cases h

theorem skipString_append {skip : Nat} {s rest : List Char} (h : skipString skip s = .ok rest)
    (t : List Char) : skipString skip (s ++ t) = .ok (rest ++ t) := by
  induction s generalizing skip with
  | nil => cases skip <;> cases h
  | cons c s ih =>
    cases skip with
    | succ skip => exact ih h
    | zero =>
      rw [skipString] at h
      rw [List.cons_append, skipString]
      refine ite_eq_of_ite_eq h ?_ ?_
      · intro _ h
        cases h
        rfl
      intro _ h
      refine ite_eq_of_ite_eq h ?_ ?_
      · intro _ h
        obtain ⟨used, hused, h⟩ := bind_eq_ok_iff.mp h
        exact bind_eq_ok_iff.mpr ⟨used, escapeLength_append hused t, ih h⟩
      intro _ h
      refine ite_eq_of_ite_eq h ?_ ?_
      · intro _ h
        cases h
      · intro _ h
        exact ih h

end StackJournal.Json
