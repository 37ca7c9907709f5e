import StackJournal.Proofs.Text.Encoding
import StackJournal.Proofs.Text.Lines
import StackJournal.Proofs.Text.Words

/-! # Scripts

A script is a text of lines, each of which holds the words of a command, or none, or a note. The bytes
of a script are cut into lines where its line feeds stand, and the ends of the lines leave no trace in
their words.
-/
namespace StackJournal.Text

def isCommand : List (List Char) → Bool
  | [] => false
  | word :: _ => word.head? != some '#'

def commands (script : List Char) : List (List (List Char)) :=
  ((script.splitOn '\n').map words).filter isCommand

@[simp] theorem commands_nil : commands [] = [] := rfl

theorem commands_append_lineFeed (s t : List Char) :
    commands (s ++ '\n' :: t) = commands s ++ commands t := by
  simp only [commands, List.splitOn_append_cons_self, List.map_append, List.filter_append]

theorem commands_line {line : List Char} (h : '\n' ∉ line) :
    commands line = [words line].filter isCommand := by
  simp [commands, List.splitOn_eq_singleton h]

def ofLines (lines : List (List Char)) : List Char := lines.flatMap (· ++ ['\n'])

theorem commands_ofLines_append {lines : List (List Char)} (h : ∀ line ∈ lines, '\n' ∉ line)
    (rest : List Char) : commands (ofLines lines ++ rest) =
      (lines.map words).filter isCommand ++ commands rest := by
  induction lines with
  | nil => rfl
  | cons line lines ih =>
    obtain ⟨hline, hlines⟩ := List.forall_mem_cons.mp h
    have hfeed := commands_append_lineFeed line (ofLines lines ++ rest)
    rw [commands_line hline, ih hlines, ← List.append_assoc, ← List.filter_append] at hfeed
    simpa [ofLines] using hfeed

/-- Bytes that are no line feed stay in one piece. -/
theorem splitOn_append_of_not_mem {piece : List UInt8} (h : lineFeed ∉ piece) (rest : List UInt8) :
    (piece ++ rest).splitOn lineFeed = (rest.splitOn lineFeed).modifyHead (piece ++ ·) := by
  induction piece with
  | nil => exact (modifyHead_nil_append _).symm
  | cons b piece ih =>
    rw [List.mem_cons, not_or] at h
    rw [List.cons_append, splitOn_cons, if_neg (Ne.symm h.1), ih h.2, List.modifyHead_modifyHead]
    rfl

/-- Only the line feed is written with the byte of a line feed. -/
theorem lineFeed_not_mem_utf8EncodeChar {c : Char} (hc : c ≠ '\n') :
    lineFeed ∉ String.utf8EncodeChar c := by
  intro h
  rcases toNat_of_mem_utf8EncodeChar h with hlarge | ⟨_, hsame⟩
  · exact absurd hlarge (by decide)
  · exact hc (Char.toNat_inj.mp hsame)

/-- The bytes of a text are cut where its line feeds stand. -/
theorem splitOn_encode (s : List Char) :
    (encode s).splitOn lineFeed = (s.splitOn '\n').map encode := by
  induction s with
  | nil => rfl
  | cons c s ih =>
    have hencode : encode (c :: s) = String.utf8EncodeChar c ++ encode s := rfl
    obtain ⟨piece, pieces, hpieces⟩ := List.exists_cons_of_ne_nil (List.splitOn_ne_nil '\n' s)
    rw [hencode, List.splitOn_cons_eq_if_modifyHead]
    by_cases hc : c = '\n'
    · have hbyte : String.utf8EncodeChar '\n' = [lineFeed] := by decide
      rw [hc, hbyte, List.singleton_append, splitOn_cons, if_pos rfl, ih]
      rfl
    · rw [splitOn_append_of_not_mem (lineFeed_not_mem_utf8EncodeChar hc), ih, hpieces]
      simp [hc, encode]

/-- A carriage return at the end of a line is a blank. -/
theorem exists_cutReturn (piece : List Char) :
    ∃ text, cutReturn (encode piece) = encode text ∧ words text = words piece := by
  by_cases hend : (encode piece).getLast? = some carriageReturn
  · rcases List.eq_nil_or_concat piece with rfl | ⟨front, c, rfl⟩
    · cases hend
    rw [List.concat_eq_append] at hend ⊢
    have hencode : encode (front ++ [c]) = encode front ++ String.utf8EncodeChar c := by
      simp [encode]
    have hlast : (String.utf8EncodeChar c).getLast? = some carriageReturn := by
      rwa [hencode, List.getLast?_append,
        List.getLast?_eq_some_getLast String.utf8EncodeChar_ne_nil, Option.some_or,
        ← List.getLast?_eq_some_getLast] at hend
    rcases toNat_of_mem_utf8EncodeChar (List.mem_of_getLast? hlast) with hlarge | ⟨hbytes, hsame⟩
    · exact absurd hlarge (by decide)
    have hc : c = '\r' := Char.toNat_inj.mp hsame
    refine ⟨front, ?_, ?_⟩
    · simp [cutReturn, hencode, hbytes]
    · rw [hc, words_concat_blank (by decide)]
  · exact ⟨piece, by rw [cutReturn, if_neg hend], rfl⟩

/-- The lines of pieces of text are lines of text, with the commands of the pieces. -/
theorem exists_ofPieces_map_encode (pieces : List (List Char)) :
    ∃ texts : List (List Char), ofPieces (pieces.map encode) = texts.map encode ∧
      (texts.map words).filter isCommand = (pieces.map words).filter isCommand := by
  induction pieces with
  | nil => exact ⟨[], rfl, rfl⟩
  | cons piece pieces ih =>
    cases pieces with
    | nil =>
      cases piece with
      | nil => exact ⟨[], rfl, rfl⟩
      | cons c piece => exact ⟨[c :: piece], by simp [ofPieces, encode], rfl⟩
    | cons next rest =>
      obtain ⟨text, hcut, hwords⟩ := exists_cutReturn piece
      obtain ⟨texts, hlines, hcommands⟩ := ih
      refine ⟨text :: texts, ?_, ?_⟩
      · rw [List.map_cons, ofPieces_cons _ (by simp), hcut, hlines]
        rfl
      · rw [List.map_cons, List.map_cons, List.filter_cons, List.filter_cons, hwords, hcommands]

/-- The lines of a script are lines of text, with its commands. -/
theorem exists_lines_toUTF8 (script : String) :
    ∃ texts : List (List Char), lines script.toUTF8 = texts.map encode ∧
      (texts.map words).filter isCommand = commands script.toList := by
  rw [lines_eq_ofPieces, toList_toUTF8, splitOn_encode]
  exact exists_ofPieces_map_encode (script.toList.splitOn '\n')

end StackJournal.Text
