import Mathlib.Logic.Relation
import StackJournal.Proofs.Console.Lines
import StackJournal.Proofs.Timestamp
import StackJournal.Store

/-! # The layout of scripts

A script can be laid out anew without another meaning: the words of a line are set apart by single
spaces, lines without a command are left out, lines are ended otherwise, the last one is ended or not.
Such changes lead from one script to another just if both have the words of the same commands, and then
the console does the same on both.
-/
namespace StackJournal.Console

open Text Relation

def WholeLines (text : List Char) : Prop := text = [] ∨ ∃ front, text = front ++ ['\n']

def LineEnded (text : List Char) : Prop := text = [] ∨ ∃ rest, text = '\n' :: rest

/-- A change to the layout of a script, in one line of it. -/
inductive Relaid : List Char → List Char → Prop where
  /-- The words of a line are set apart by single spaces. -/
  | spaced {earlier line later : List Char} (before : WholeLines earlier) (plain : '\n' ∉ line)
      (after : LineEnded later) :
      Relaid (earlier ++ line ++ later) (earlier ++ Text.spaced (words line) ++ later)
  /-- A blank line or a note is left out. -/
  | dropped {earlier line later : List Char} (before : WholeLines earlier) (plain : '\n' ∉ line)
      (idle : isCommand (words line) = false) :
      Relaid (earlier ++ line ++ '\n' :: later) (earlier ++ later)
  /-- So is a last line that is not ended. -/
  | lastDropped {earlier line : List Char} (before : WholeLines earlier) (plain : '\n' ∉ line)
      (idle : isCommand (words line) = false) : Relaid (earlier ++ line) earlier
  /-- A line ends with a carriage return and a line feed. -/
  | returned {earlier line later : List Char} (before : WholeLines earlier) (plain : '\n' ∉ line) :
      Relaid (earlier ++ line ++ '\n' :: later) (earlier ++ line ++ '\r' :: '\n' :: later)
  /-- The last line is ended. -/
  | ended (script : List Char) : Relaid script (script ++ ['\n'])

section Commands

variable {earlier line later : List Char}

theorem wholeLines_append (earlier line : List Char) : WholeLines (earlier ++ line ++ ['\n']) :=
  Or.inr ⟨earlier ++ line, rfl⟩

theorem WholeLines.commands_append (before : WholeLines earlier) (rest : List Char) :
    commands (earlier ++ rest) = commands earlier ++ commands rest := by
  rcases before with rfl | ⟨front, rfl⟩
  · simp
  · have hfront := commands_append_lineFeed front []
    have hrest := commands_append_lineFeed front rest
    simp_all

theorem commands_append_lineEnded (after : LineEnded later) :
    commands (line ++ later) = commands line ++ commands later := by
  rcases after with rfl | ⟨rest, rfl⟩
  · simp
  · have hrest := commands_append_lineFeed [] rest
    rw [commands_append_lineFeed]
    simp_all

theorem commands_line_congr {other : List Char} (plain : '\n' ∉ line) (plain' : '\n' ∉ other)
    (same : words line = words other) : commands line = commands other := by
  rw [commands_line plain, commands_line plain', same]

/-- The end of a line is a blank, and not the one that sets words apart. -/
theorem lineFeed_not_mem_spaced (line : List Char) : '\n' ∉ spaced (words line) := fun hmem =>
  absurd (eq_space_of_mem_spaced (fun _ => isWord_of_mem_words) hmem (by decide)) (by decide)

theorem words_spaced_words (line : List Char) : words (spaced (words line)) = words line :=
  words_spaced fun _ => isWord_of_mem_words

/-- No change touches the words of a command. -/
theorem Relaid.commands_eq {script relaid : List Char} (h : Relaid script relaid) :
    commands script = commands relaid := by
  cases h with
  | @spaced earlier line later before plain after =>
    have hline := commands_line_congr plain (lineFeed_not_mem_spaced line)
      (words_spaced_words line).symm
    simp only [List.append_assoc, before.commands_append, commands_append_lineEnded after, hline]
  | dropped before plain idle =>
    simp [before.commands_append, commands_append_lineFeed, commands_line plain, idle]
  | lastDropped before plain idle => simp [before.commands_append, commands_line plain, idle]
  | @returned earlier line later before plain =>
    have hreturn : words (line ++ ['\r']) = words line := words_concat_blank (by decide) line
    have hline := commands_line_congr plain (by simpa using plain) hreturn.symm
    have hrest := commands_append_lineFeed (line ++ ['\r']) later
    simp only [List.append_assoc, before.commands_append, commands_append_lineFeed, hline]
    simpa using hrest.symm
  | ended script => simpa using (commands_append_lineFeed script []).symm

/-- Each command on a line of its own, with its words set apart by single spaces. -/
def plainScript (commands : List (List (List Char))) : List Char :=
  commands.flatMap fun words => spaced words ++ ['\n']

/-- Line by line a script is laid out plainly; what stands before is laid out already. -/
theorem eqvGen_plainScript (before : WholeLines earlier) (script : List Char) :
    EqvGen Relaid (earlier ++ script) (earlier ++ plainScript (commands script)) := by
  induction hlength : script.length using Nat.strongRecOn generalizing script earlier with
  | ind length ih =>
    by_cases hplain : '\n' ∉ script
    · rw [commands_line hplain]
      cases hcommand : isCommand (words script) with
      | false => simpa [hcommand, plainScript] using EqvGen.rel _ _ (.lastDropped before hplain hcommand)
      | true =>
        have hspaced : Relaid (earlier ++ script ++ []) (earlier ++ spaced (words script) ++ []) :=
          .spaced before hplain (Or.inl rfl)
        have hended : Relaid (earlier ++ spaced (words script))
          (earlier ++ spaced (words script) ++ ['\n']) := .ended _
        simp only [List.append_nil] at hspaced
        simpa [hcommand, plainScript] using
          EqvGen.trans _ _ _ (.rel _ _ hspaced) (.rel _ _ hended)
    · obtain ⟨line, later, rfl, hline⟩ := List.eq_append_cons_of_mem (not_not.mp hplain)
      have hshorter : later.length < length := by
        rw [← hlength, List.length_append, List.length_cons]
        omega
      rw [commands_append_lineFeed, commands_line hline]
      cases hcommand : isCommand (words line) with
      | false =>
        have hdropped : Relaid (earlier ++ line ++ '\n' :: later) (earlier ++ later) :=
          .dropped before hline hcommand
        simpa [hcommand] using EqvGen.trans _ _ _ (.rel _ _ hdropped) (ih _ hshorter before later rfl)
      | true =>
        have hspaced : Relaid (earlier ++ line ++ '\n' :: later)
          (earlier ++ spaced (words line) ++ '\n' :: later) := .spaced before hline (Or.inr ⟨later, rfl⟩)
        have hrest := ih _ hshorter (wholeLines_append earlier (spaced (words line))) later rfl
        simp only [List.append_assoc, List.singleton_append] at hspaced hrest ⊢
        simpa [hcommand, plainScript] using EqvGen.trans _ _ _ (.rel _ _ hspaced) hrest

theorem eqvGen_relaid_iff {script relaid : List Char} :
    EqvGen Relaid script relaid ↔ commands script = commands relaid := by
  constructor
  · intro h
    induction h with
    | rel _ _ h => exact h.commands_eq
    | refl _ => rfl
    | symm _ _ _ ih => exact ih.symm
    | trans _ _ _ _ _ ih ih' => exact ih.trans ih'
  · intro h
    have hscript := eqvGen_plainScript (Or.inl rfl) script
    have hrelaid := eqvGen_plainScript (Or.inl rfl) relaid
    rw [← h] at hrelaid
    exact .trans _ _ _ hscript (.symm _ _ hrelaid)

end Commands

/-- What a console makes of a script depends on the words of its commands alone. Changes to the layout
lead from one script to another just if these are the same, and then any run comes to the same end on
both: to the same output and flushes, the same selection and the same store. -/
theorem layout_unseen (script relaid : String) :
    (EqvGen Relaid script.toList relaid.toList ↔
      commands script.toList = commands relaid.toList) ∧
    (EqvGen Relaid script.toList relaid.toList →
      ∀ (app : App) (ids : Nat → Uuid) (console : Console) {σ : Type} (answers : Answers σ)
        (state : σ), (console.run app ids (lines script.toUTF8)).run answers state =
          (console.run app ids (lines relaid.toUTF8)).run answers state) := by
  refine ⟨eqvGen_relaid_iff, fun laid app ids console σ answers state => ?_⟩
  have hsame := eqvGen_relaid_iff.mp laid
  simp only [run_eq_takeLines, takeLines_toUTF8, hsame]

def untidy : String := "new\n  zero\t\n# twice\n\n 2"

def tidy : String := "new\r\nzero\r\n2\r\n"

theorem untidy_as_tidy : EqvGen Relaid untidy.toList tidy.toList ∧
    ((start .unlimited).run .standard (fun _ => ⟨7⟩) (lines untidy.toUTF8)).run
        (Store.answers .epoch .sound) (Store.memory .empty) =
      ((start .unlimited).run .standard (fun _ => ⟨7⟩) (lines tidy.toUTF8)).run
        (Store.answers .epoch .sound) (Store.memory .empty) := by
  have hcommands : commands untidy.toList = commands tidy.toList := by decide
  obtain ⟨hlaid, hsame⟩ := layout_unseen untidy tidy
  have huntidy := hlaid.mpr hcommands
  exact ⟨huntidy, hsame huntidy .standard (fun _ => ⟨7⟩) (start .unlimited)
    (Store.answers .epoch .sound) (Store.memory .empty)⟩

end StackJournal.Console
