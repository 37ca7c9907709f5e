import StackJournal.Json.Text
import StackJournal.Proofs.Text.Digits

/-! # Quoted text read back

Whatever characters a text has, its quoted form holds no control character and is read back as the
text.
-/
namespace StackJournal.Json

open Text

theorem length_le_utf8Length (s : List Char) : s.length ≤ utf8Length s := by
  induction s with
  | nil => exact Nat.le_refl 0
  | cons c s ih =>
    have := c.utf8Size_pos
    simp only [List.length_cons, utf8Length]
    omega

theorem hexQuad_fixedDigits {n : Nat} (h : n < 0x10000) (rest : List Char) :
    hexQuad (fixedDigits 16 4 n ++ rest) = .ok n := by
  have htake : (fixedDigits 16 4 n ++ rest).take 4 = fixedDigits 16 4 n :=
    List.take_left' (length_fixedDigits 16 4 n)
  have hlong : 4 ≤ utf8Length (fixedDigits 16 4 n) := by
    have hle := length_le_utf8Length (fixedDigits 16 4 n)
    rwa [length_fixedDigits] at hle
  have hmod : n % Nat.pow 16 4 = n := Nat.mod_eq_of_lt h
  unfold hexQuad
  rw [htake, if_neg (by omega), hexNumber?_fixedDigits, hmod]

theorem hexEscape_fixedDigits {n : Nat} (h : n < 0xD800) (rest : List Char) :
    hexEscape (fixedDigits 16 4 n ++ rest) = .ok (Char.ofNat n, 5) := by
  have hlow : isLowSurrogate n = false := by
    simp only [isLowSurrogate, Bool.and_eq_false_iff, decide_eq_false_iff_not]
    omega
  have hhigh : isHighSurrogate n = false := by
    simp only [isHighSurrogate, Bool.and_eq_false_iff, decide_eq_false_iff_not]
    omega
  unfold hexEscape
  rw [hexQuad_fixedDigits (by omega)]
  simp [bind, Except.bind, hlow, hhigh]

theorem readString_skip (s rest : List Char) : readString s.length (s ++ rest) = readString 0 rest := by
  induction s with
  | nil => rfl
  | cons c s ih => exact ih

/-- An escape that takes the characters `s` stands for the character it is read as. -/
theorem readString_escaped {s rest text after : List Char} {c : Char}
    (hc : escaped (s ++ rest) = .ok (c, s.length)) (h : readString 0 rest = .ok (text, after)) :
    readString 0 ('\\' :: (s ++ rest)) = .ok (c :: text, after) := by
  rw [readString, if_neg (by decide), if_pos rfl, hc]
  simp only [bind, Except.bind]
  rw [readString_skip, h]

theorem readString_escapeChar {c : Char} {rest text after : List Char}
    (h : readString 0 rest = .ok (text, after)) :
    readString 0 (escapeChar c ++ rest) = .ok (c :: text, after) := by
  unfold escapeChar
  by_cases hq : c = '"'
  · subst hq
    exact readString_escaped (s := ['"']) rfl h
  by_cases hb : c = '\\'
  · subst hb
    exact readString_escaped (s := ['\\']) rfl h
  by_cases h8 : c = '\x08'
  · subst h8
    exact readString_escaped (s := ['b']) rfl h
  by_cases hf : c = '\x0c'
  · subst hf
    exact readString_escaped (s := ['f']) rfl h
  by_cases hn : c = '\n'
  · subst hn
    exact readString_escaped (s := ['n']) rfl h
  by_cases hr : c = '\r'
  · subst hr
    exact readString_escaped (s := ['r']) rfl h
  by_cases ht : c = '\t'
  · subst ht
    exact readString_escaped (s := ['t']) rfl h
  rw [if_neg hq, if_neg hb, if_neg h8, if_neg hf, if_neg hn, if_neg hr, if_neg ht]
  by_cases hctl : c.toNat < 0x20
  · rw [if_pos hctl]
    refine readString_escaped (s := 'u' :: fixedDigits 16 4 c.toNat) ?_ h
    have hesc : escaped ('u' :: (fixedDigits 16 4 c.toNat ++ rest)) =
        hexEscape (fixedDigits 16 4 c.toNat ++ rest) := rfl
    rw [List.cons_append, hesc, hexEscape_fixedDigits (by omega), Char.ofNat_toNat,
      List.length_cons, length_fixedDigits]
  · rw [if_neg hctl, List.singleton_append, readString, if_neg hq, if_neg hb, if_neg hctl, h]
    rfl

theorem readString_quote (s rest : List Char) :
    readString 0 (s.flatMap escapeChar ++ '"' :: rest) = .ok (s, rest) := by
  induction s with
  | nil => rfl
  | cons c s ih =>
    rw [List.flatMap_cons, List.append_assoc]
    exact readString_escapeChar ih

theorem quote_append (s rest : List Char) :
    quote s ++ rest = '"' :: (s.flatMap escapeChar ++ '"' :: rest) := by
  simp [quote]

theorem le_of_mem_escapeChar {c d : Char} (h : d ∈ escapeChar c) : 0x20 ≤ d.toNat := by
  by_cases hctl : c.toNat < 0x20
  · have hall : (List.range 0x20).all
        (fun n => (escapeChar (Char.ofNat n)).all (0x20 ≤ ·.toNat)) = true := by decide
    have hd := List.all_eq_true.mp hall c.toNat (List.mem_range.mpr hctl)
    rw [Char.ofNat_toNat] at hd
    exact of_decide_eq_true (List.all_eq_true.mp hd d h)
  by_cases hq : c = '"'
  · subst hq
    have hall : (escapeChar '"').all (0x20 ≤ ·.toNat) = true := by decide
    exact of_decide_eq_true (List.all_eq_true.mp hall d h)
  by_cases hb : c = '\\'
  · subst hb
    have hall : (escapeChar '\\').all (0x20 ≤ ·.toNat) = true := by decide
    exact of_decide_eq_true (List.all_eq_true.mp hall d h)
  have hne : ∀ ctl : Char, ctl.toNat < 0x20 → c ≠ ctl := by
    rintro ctl hsmall rfl
    exact hctl hsmall
  have hraw : escapeChar c = [c] := by
    unfold escapeChar
    rw [if_neg hq, if_neg hb, if_neg (hne _ (by decide)), if_neg (hne _ (by decide)),
      if_neg (hne _ (by decide)), if_neg (hne _ (by decide)), if_neg (hne _ (by decide)),
      if_neg hctl]
  rw [hraw, List.mem_singleton] at h
  subst h
  exact Nat.le_of_not_lt hctl

theorem le_of_mem_quote {s : List Char} {d : Char} (h : d ∈ quote s) : 0x20 ≤ d.toNat := by
  simp only [quote, List.mem_append, List.mem_cons, List.mem_flatMap, List.not_mem_nil,
    or_false] at h
  rcases h with (rfl | ⟨c, _, h⟩) | rfl
  · decide
  · exact le_of_mem_escapeChar h
  · decide

end StackJournal.Json
