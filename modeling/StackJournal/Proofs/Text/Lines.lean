import StackJournal.Text.Basic

/-! # Lines and the end of a file

The line feeds of some bytes cut them into pieces. Every piece but the last is a line, without a
carriage return at its end; the last piece, which no line feed ends, is a line as it is unless it is
empty.

Bytes are also whole lines followed by an open end, which holds no line feed. Bytes added later
continue the open end and leave the whole lines alone.
-/
namespace StackJournal.Text

def cutReturn (piece : List UInt8) : List UInt8 :=
  if piece.getLast? = some carriageReturn then piece.dropLast else piece

/-- The lines that pieces make, of which the last is not ended. -/
def ofPieces : List (List UInt8) → List (List UInt8)
  | [] => []
  | [last] => if last = [] then [] else [last]
  | piece :: next :: rest => cutReturn piece :: ofPieces (next :: rest)

theorem ofPieces_cons (piece : List UInt8) {rest : List (List UInt8)} (h : rest ≠ []) :
    ofPieces (piece :: rest) = cutReturn piece :: ofPieces rest := by
  obtain ⟨next, rest, rfl⟩ := List.exists_cons_of_ne_nil h
  rfl

theorem endLine_eq (line : List UInt8) : endLine line = cutReturn line.reverse := by
  cases line with
  | nil => rfl
  | cons b line => by_cases hb : b = carriageReturn <;> simp [endLine, cutReturn, hb]

theorem splitOn_cons (b : UInt8) (bytes : List UInt8) : (b :: bytes).splitOn lineFeed =
    if b = lineFeed then [] :: bytes.splitOn lineFeed
      else (bytes.splitOn lineFeed).modifyHead (b :: ·) := by
  simp [List.splitOn_eq_splitOnP, List.splitOnP_cons_eq_if_modifyHead]

theorem modifyHead_nil_append (pieces : List (List UInt8)) :
    pieces.modifyHead (([] : List UInt8) ++ ·) = pieces := by
  cases pieces <;> simp

/-- The line begun goes on in the first piece of the bytes that follow. -/
theorem linesFrom_eq (line bytes : List UInt8) : linesFrom line bytes =
    ofPieces ((bytes.splitOn lineFeed).modifyHead (line.reverse ++ ·)) := by
  induction bytes generalizing line with
  | nil => simp [linesFrom, ofPieces]
  | cons b bytes ih =>
    rw [linesFrom, splitOn_cons]
    by_cases hb : b = lineFeed
    · have hrest := ih []
      have hwhole := ofPieces_cons line.reverse (List.splitOn_ne_nil lineFeed bytes)
      rw [List.reverse_nil, modifyHead_nil_append] at hrest
      simp [hb, hrest, endLine_eq, hwhole]
    · simp [hb, ih, List.modifyHead_modifyHead, Function.comp_def]

theorem lines_eq_ofPieces (bytes : ByteArray) :
    lines bytes = ofPieces (bytes.data.toList.splitOn lineFeed) := by
  have hbytes := linesFrom_eq [] bytes.data.toList
  rwa [List.reverse_nil, modifyHead_nil_append] at hbytes

def openEnd (bytes : List UInt8) : List UInt8 :=
  (bytes.reverse.takeWhile (· != lineFeed)).reverse

def whole (bytes : List UInt8) : List UInt8 :=
  (bytes.reverse.dropWhile (· != lineFeed)).reverse

/-- No line is begun in the file, or only with white space. -/
def Fresh (file : ByteArray) : Prop :=
  ∀ b ∈ openEnd file.data.toList, b = 0x20 ∨ b = 0x09 ∨ b = 0x0D

instance : DecidablePred Fresh := fun file => List.decidableBAll _ (openEnd file.data.toList)

theorem whole_append_openEnd (bytes : List UInt8) : whole bytes ++ openEnd bytes = bytes := by
  rw [whole, openEnd, ← List.reverse_append, List.takeWhile_append_dropWhile, List.reverse_reverse]

theorem not_mem_openEnd (bytes : List UInt8) : lineFeed ∉ openEnd bytes := by
  intro h
  have hall : (bytes.reverse.takeWhile (· != lineFeed)).all (· != lineFeed) = true :=
    List.all_takeWhile
  rw [openEnd, List.mem_reverse] at h
  have hne := List.all_eq_true.mp hall _ h
  simp at hne

theorem ne_lineFeed_of_not_mem {t : List UInt8} (ht : lineFeed ∉ t) :
    ∀ b ∈ t.reverse, (b != lineFeed) = true := by
  intro b hb
  rw [List.mem_reverse] at hb
  rw [bne_iff_ne]
  rintro rfl
  exact ht hb

theorem openEnd_append {bytes t : List UInt8} (ht : lineFeed ∉ t) :
    openEnd (bytes ++ t) = openEnd bytes ++ t := by
  rw [openEnd, List.reverse_append, List.takeWhile_append_of_pos (ne_lineFeed_of_not_mem ht),
    List.reverse_append, List.reverse_reverse, openEnd]

@[simp] theorem openEnd_lineFeed (bytes : List UInt8) : openEnd (bytes ++ [lineFeed]) = [] := by
  simp [openEnd]

/-- The whole lines end in a line feed, if there are any. -/
theorem whole_eq (bytes : List UInt8) :
    whole bytes = [] ∨ ∃ front, whole bytes = front ++ [lineFeed] := by
  unfold whole
  cases h : bytes.reverse.dropWhile (· != lineFeed) with
  | nil => exact Or.inl rfl
  | cons b rest =>
    have hb := List.head_dropWhile_not (· != lineFeed) (l := bytes.reverse) (by rw [h]; simp)
    simp only [h, List.head_cons] at hb
    rw [bne_eq_false_iff_eq] at hb
    subst hb
    exact Or.inr ⟨rest.reverse, List.reverse_cons⟩

theorem linesFrom_lineFeed (line front rest : List UInt8) :
    linesFrom line (front ++ lineFeed :: rest) =
      linesFrom line (front ++ [lineFeed]) ++ linesFrom [] rest := by
  induction front generalizing line with
  | nil => simp [linesFrom]
  | cons b front ih =>
    simp only [List.cons_append, linesFrom]
    split
    · rw [ih, List.cons_append]
    · exact ih (b :: line)

theorem linesFrom_whole_append (bytes rest : List UInt8) :
    linesFrom [] (whole bytes ++ rest) = linesFrom [] (whole bytes) ++ linesFrom [] rest := by
  rcases whole_eq bytes with h | ⟨front, h⟩
  · rw [h]
    rfl
  · rw [h, List.append_assoc]
    exact linesFrom_lineFeed [] front rest

theorem linesFrom_open {line t : List UInt8} (ht : lineFeed ∉ t) :
    linesFrom line t = if line = [] ∧ t = [] then [] else [line.reverse ++ t] := by
  induction t generalizing line with
  | nil =>
    by_cases h : line = []
    · simp [linesFrom, h]
    · simp [linesFrom, h]
  | cons b t ih =>
    have hb : b ≠ lineFeed := fun h => ht (h ▸ List.mem_cons_self)
    have ht' : lineFeed ∉ t := fun h => ht (List.mem_cons_of_mem _ h)
    rw [linesFrom, if_neg hb, ih ht']
    simp

theorem linesFrom_ended {line t : List UInt8} (ht : lineFeed ∉ t) :
    linesFrom line (t ++ [lineFeed]) = [endLine (t.reverse ++ line)] := by
  induction t generalizing line with
  | nil => simp [linesFrom]
  | cons b t ih =>
    have hb : b ≠ lineFeed := fun h => ht (h ▸ List.mem_cons_self)
    have ht' : lineFeed ∉ t := fun h => ht (List.mem_cons_of_mem _ h)
    rw [List.cons_append, linesFrom, if_neg hb, ih ht', List.reverse_cons, List.append_assoc]
    rfl

theorem endLine_reverse {front : List UInt8} {b : UInt8} (hb : b ≠ carriageReturn) :
    endLine (front ++ [b]).reverse = front ++ [b] := by
  rw [List.reverse_append, List.reverse_singleton, List.singleton_append, endLine, if_neg hb,
    List.reverse_cons, List.reverse_reverse]

end StackJournal.Text
