import Mathlib.Data.List.Induction
import StackJournal.Text.Basic

/-! # Words of a text

The blanks of a text cut it into pieces, and the words are the pieces that are not empty. So what stands
between words does not count, nor what stands before the first and after the last.
-/
namespace StackJournal.Text

@[simp] theorem words_nil : words [] = [] := by
  rfl

theorem words_singleton (c : Char) : words [c] = if isBlank c then [] else [[c]] := by
  rfl

theorem words_cons_cons (c d : Char) (s : List Char) : words (c :: d :: s) =
    if isBlank c then words (d :: s)
    else if isBlank d then [c] :: words (d :: s)
    else
      match words (d :: s) with
      | [] => [[c]]
      | word :: others => (c :: word) :: others := by
  rfl

theorem words_eq (s : List Char) : words s = (s.splitOnP isBlank).filter (!·.isEmpty) := by
  induction s with
  | nil => rfl
  | cons c s ih =>
    rw [List.splitOnP_cons_eq_if_modifyHead]
    cases s with
    | nil => by_cases hc : isBlank c = true <;> simp [words_singleton, hc]
    | cons d s =>
      rw [List.splitOnP_cons_eq_if_modifyHead] at ih ⊢
      by_cases hc : isBlank c = true
      · simp [words_cons_cons, hc, ih]
      by_cases hd : isBlank d = true
      · simpa [words_cons_cons, hc, hd] using ih
      · -- the piece that `d` begins is not empty, so it is a word already
        obtain ⟨piece, pieces, hpieces⟩ :=
          List.exists_cons_of_ne_nil (List.splitOnP_ne_nil isBlank s)
        simp [words_cons_cons, hc, hd, ih, hpieces]

theorem words_append_blank {b : Char} (hb : isBlank b = true) (s t : List Char) :
    words (s ++ b :: t) = words s ++ words t := by
  simp only [words_eq, List.splitOnP_append_cons s t hb, List.filter_append]

theorem words_blank {b : Char} (hb : isBlank b = true) (s : List Char) :
    words (b :: s) = words s := words_append_blank hb [] s

theorem words_concat_blank {b : Char} (hb : isBlank b = true) (s : List Char) :
    words (s ++ [b]) = words s := by
  simpa using words_append_blank hb s []

def IsWord (word : List Char) : Prop := word ≠ [] ∧ ∀ c ∈ word, isBlank c = false

theorem words_of_isWord {word : List Char} (h : IsWord word) : words word = [word] := by
  rw [words_eq, List.splitOnP_eq_singleton h.2]
  simp [h.1]

theorem not_isBlank_of_mem_splitOnP {s piece : List Char} (h : piece ∈ s.splitOnP isBlank) :
    ∀ c ∈ piece, isBlank c = false := by
  induction s generalizing piece with
  | nil => simp_all
  | cons c s ih =>
    obtain ⟨first, pieces, hpieces⟩ :=
      List.exists_cons_of_ne_nil (List.splitOnP_ne_nil isBlank s)
    rw [hpieces] at ih
    rw [List.splitOnP_cons_eq_if_modifyHead, hpieces] at h
    by_cases hc : isBlank c = true
    · rw [if_pos hc] at h
      rcases List.mem_cons.mp h with rfl | h
      · simp
      · exact ih h
    · rw [if_neg hc, List.modifyHead_cons] at h
      rcases List.mem_cons.mp h with rfl | h
      · simpa [hc] using ih List.mem_cons_self
      · exact ih (List.mem_cons_of_mem first h)

theorem isWord_of_mem_words {s word : List Char} (h : word ∈ words s) : IsWord word := by
  rw [words_eq] at h
  obtain ⟨hpiece, hne⟩ := List.mem_filter.mp h
  exact ⟨by simpa using hne, not_isBlank_of_mem_splitOnP hpiece⟩

def spaced (words : List (List Char)) : List Char := [' '].intercalate words

theorem words_spaced {tokens : List (List Char)} (h : ∀ token ∈ tokens, IsWord token) :
    words (spaced tokens) = tokens := by
  induction tokens with
  | nil => rfl
  | cons token tokens ih =>
    obtain ⟨htoken, htokens⟩ := List.forall_mem_cons.mp h
    cases tokens with
    | nil => simpa [spaced] using words_of_isWord htoken
    | cons next rest =>
      have hspace : isBlank ' ' = true := by decide
      have hrest := words_append_blank hspace token (spaced (next :: rest))
      rw [words_of_isWord htoken, ih htokens] at hrest
      simpa [spaced] using hrest

/-- The only blank among words set apart is the space. -/
theorem eq_space_of_mem_spaced {tokens : List (List Char)} (h : ∀ token ∈ tokens, IsWord token)
    {c : Char} (hmem : c ∈ spaced tokens) (hc : isBlank c = true) : c = ' ' := by
  induction tokens with
  | nil => cases hmem
  | cons token tokens ih =>
    obtain ⟨⟨_, hplain⟩, htokens⟩ := List.forall_mem_cons.mp h
    have hnot : c ∉ token := fun hin => by simp [hplain c hin] at hc
    cases tokens with
    | nil => exact absurd (by simpa [spaced] using hmem) hnot
    | cons next rest =>
      rw [spaced, List.intercalate_cons_cons, List.append_assoc, List.mem_append] at hmem
      rcases hmem with hin | hin
      · exact absurd hin hnot
      rcases List.mem_cons.mp hin with rfl | hin
      · rfl
      · exact ih htokens hin

theorem words_trimStart (s : List Char) : words (trimStart s) = words s := by
  induction s with
  | nil => rfl
  | cons c s ih =>
    rw [trimStart, List.dropWhile_cons]
    by_cases hc : isBlank c = true
    · rw [if_pos hc, words_blank hc]
      exact ih
    · rw [if_neg hc]

theorem words_trimEnd (s : List Char) : words (trimEnd s) = words s := by
  induction s using List.reverseRecOn with
  | nil => rfl
  | append_singleton s c ih =>
    rw [trimEnd, List.reverse_concat, List.dropWhile_cons]
    by_cases hc : isBlank c = true
    · rw [if_pos hc, words_concat_blank hc]
      exact ih
    · rw [if_neg hc, List.reverse_cons, List.reverse_reverse]

theorem words_trim (s : List Char) : words (trim s) = words s := by
  rw [trim, words_trimEnd, words_trimStart]

theorem exists_words_cons {c : Char} (hc : isBlank c = false) (s : List Char) :
    ∃ word others, words (c :: s) = (c :: word) :: others := by
  obtain ⟨piece, pieces, hpieces⟩ :=
    List.exists_cons_of_ne_nil (List.splitOnP_ne_nil isBlank s)
  rw [words_eq, List.splitOnP_cons_eq_if_modifyHead, hpieces]
  simp [hc]

/-- What is left of a trimmed text does not begin with a blank. -/
theorem isBlank_of_trim {s rest : List Char} {c : Char} (h : trim s = c :: rest) :
    isBlank c = false := by
  have hprefix : trim s <+: trimStart s := by
    rw [trim, trimEnd, ← List.reverse_suffix, List.reverse_reverse]
    exact List.dropWhile_suffix isBlank
  obtain ⟨more, hmore⟩ := hprefix
  rw [h, List.cons_append] at hmore
  have hne : trimStart s ≠ [] := by simp [← hmore]
  have hhead : isBlank ((trimStart s).head hne) = false := List.head_dropWhile_not isBlank hne
  simpa [← hmore] using hhead

end StackJournal.Text
