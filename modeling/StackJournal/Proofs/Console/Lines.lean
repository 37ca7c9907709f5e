import StackJournal.Console
import StackJournal.Proofs.Plan
import StackJournal.Proofs.Text.Script

/-! # Lines one after another

A run takes its lines one after another and then ends the input. Of a line of text only the words count:
a run on a script is one on the words of its commands.
-/
namespace StackJournal

namespace Command

/-- Trimming a line takes nothing from its words, and a note shows in the first of them. -/
theorem relevant?_eq (line : List Char) : relevant? (String.ofList line) =
    if Text.isCommand (Text.words line) then some ((Text.words line).map String.ofList)
    else none := by
  have htrim := Text.words_trim line
  rw [relevant?, String.toList_ofList]
  cases hline : Text.trim line with
  | nil =>
    rw [hline] at htrim
    simp [← htrim, Text.isCommand]
  | cons c rest =>
    obtain ⟨word, others, hwords⟩ := Text.exists_words_cons (Text.isBlank_of_trim hline) rest
    rw [hline, hwords] at htrim
    by_cases hc : c = '#'
    · simp [← htrim, hc, Text.isCommand]
    · simp [← htrim, hwords, hc, Text.isCommand]

end Command

namespace Console

def takeLines (app : App) (ids : Nat → Uuid) (console : Console) :
    List (List UInt8) → Plan (Option Breakdown × Console)
  | [] => return (none, console)
  | line :: rest => do
    match ← console.takeLine app (ids console.created) line with
    | (none, console) => console.takeLines app ids rest
    | (some breakdown, console) => return (some breakdown, console)

def goOnWith (next : Console → Plan (Option Breakdown × Console)) :
    Option Breakdown × Console → Plan (Option Breakdown × Console)
  | (none, console) => next console
  | (some breakdown, console) => .done (some breakdown, console)

def takeWords (app : App) (ids : Nat → Uuid) (console : Console) :
    List (List (List Char)) → Plan (Option Breakdown × Console)
  | [] => return (none, console)
  | words :: rest =>
    (console.answer app (ids console.created) (words.map String.ofList)).bind fun answered =>
      goOnWith (fun console => console.takeWords app ids rest)
        ((answered.2.sink.deliver answered.1).1,
          { answered.2 with sink := (answered.2.sink.deliver answered.1).2 })

section Lines

variable (app : App) (ids : Nat → Uuid) (console : Console)

theorem takeLines_cons (line : List UInt8) (rest : List (List UInt8)) :
    console.takeLines app ids (line :: rest) =
      (console.takeLine app (ids console.created) line).bind
        (goOnWith fun console => console.takeLines app ids rest) := by
  refine congrArg (Plan.bind _) (funext fun taken => ?_)
  obtain ⟨_ | _, _⟩ := taken <;> rfl

/-- A run takes its lines and ends the input. -/
theorem run_eq_takeLines (lines : List (List UInt8)) : console.run app ids lines =
    (console.takeLines app ids lines).bind (goOnWith fun console => .done console.finish) := by
  induction lines generalizing console with
  | nil => rfl
  | cons line rest ih =>
    rw [takeLines_cons, Plan.bind_assoc]
    refine congrArg (Plan.bind _) (funext fun taken => ?_)
    obtain ⟨_ | _, last⟩ := taken
    · exact ih last
    · rfl

theorem takeLines_append (earlier later : List (List UInt8)) :
    console.takeLines app ids (earlier ++ later) = (console.takeLines app ids earlier).bind
      (goOnWith fun console => console.takeLines app ids later) := by
  induction earlier generalizing console with
  | nil => rfl
  | cons line rest ih =>
    rw [List.cons_append, takeLines_cons, takeLines_cons, Plan.bind_assoc]
    refine congrArg (Plan.bind _) (funext fun taken => ?_)
    obtain ⟨_ | _, last⟩ := taken
    · exact ih last
    · rfl

/-- A line with a command is answered, and the answer is delivered. -/
theorem takeLine_words {line : List UInt8} {text : String} {words : List String}
    (decodes : Text.decodeLine line = some text) (relevant : Command.relevant? text = some words)
    (fresh : Uuid) : console.takeLine app fresh line =
      (console.answer app fresh words).bind fun answered =>
        .done ((answered.2.sink.deliver answered.1).1,
          { answered.2 with sink := (answered.2.sink.deliver answered.1).2 }) := by
  rw [takeLine, decodes]
  show console.takeText app fresh text = _
  rw [takeText, relevant]
  rfl

theorem takeLine_unreadable {line : List UInt8} (unreadable : Text.decodeLine line = none)
    (fresh : Uuid) : console.takeLine app fresh line = .done (some .unreadable, console) := by
  rw [takeLine, unreadable]
  rfl

theorem takeLine_note {line : List UInt8} {text : String}
    (decodes : Text.decodeLine line = some text) (irrelevant : Command.relevant? text = none)
    (fresh : Uuid) : console.takeLine app fresh line = .done (none, console) := by
  rw [takeLine, decodes]
  show console.takeText app fresh text = _
  rw [takeText, irrelevant]
  rfl

/-- Any line without a command leaves the console as it is. -/
theorem takeLine_idle {line : List UInt8}
    (idle : ∀ text, Text.decodeLine line = some text → Command.relevant? text = none)
    (fresh : Uuid) : ∃ breakdown, console.takeLine app fresh line = .done (breakdown, console) := by
  cases hdecode : Text.decodeLine line with
  | none => exact ⟨_, console.takeLine_unreadable app hdecode fresh⟩
  | some text => exact ⟨_, console.takeLine_note app hdecode (idle text hdecode) fresh⟩

/-- Lines of text do what the words of their commands do. -/
theorem takeLines_map_encode (texts : List (List Char)) :
    console.takeLines app ids (texts.map Text.encode) =
      console.takeWords app ids ((texts.map Text.words).filter Text.isCommand) := by
  induction texts generalizing console with
  | nil => rfl
  | cons text texts ih =>
    have hrelevant := Command.relevant?_eq text
    have hdecode := Text.decodeLine_encode text
    rw [List.map_cons, List.map_cons, List.filter_cons, takeLines_cons]
    by_cases hcommand : Text.isCommand (Text.words text) = true
    · rw [if_pos hcommand] at hrelevant ⊢
      rw [takeLine_words app console hdecode hrelevant, Plan.bind_assoc, takeWords]
      simp only [← ih]
      rfl
    · rw [if_neg hcommand] at hrelevant ⊢
      rw [takeLine_note app console hdecode hrelevant, ← ih]
      rfl

/-- A script does what the words of its commands do. -/
theorem takeLines_toUTF8 (script : String) :
    console.takeLines app ids (Text.lines script.toUTF8) =
      console.takeWords app ids (Text.commands script.toList) := by
  obtain ⟨texts, hlines, hcommands⟩ := Text.exists_lines_toUTF8 script
  rw [hlines, takeLines_map_encode, hcommands]

theorem takeWords_append (earlier later : List (List (List Char))) :
    console.takeWords app ids (earlier ++ later) = (console.takeWords app ids earlier).bind
      (goOnWith fun console => console.takeWords app ids later) := by
  induction earlier generalizing console with
  | nil => rfl
  | cons words rest ih =>
    rw [List.cons_append, takeWords, takeWords, Plan.bind_assoc]
    refine congrArg (Plan.bind _) (funext fun answered => ?_)
    obtain ⟨lines, last⟩ := answered
    cases last.sink.deliver lines with
    | mk breakdown sink =>
      cases breakdown with
      | none => exact ih _
      | some breakdown => rfl

end Lines

end Console

end StackJournal
