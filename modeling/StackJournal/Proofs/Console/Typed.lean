import StackJournal.Proofs.Clients.Push
import StackJournal.Proofs.Console.Breakdown
import StackJournal.Proofs.Json.Number
import StackJournal.Proofs.Text.Integer

/-! # Integers typed and shown

An integer that is typed is shown in its digits as the last of the items, however it was spelled, and
what was typed before is shown with it. That stays so for as long as nothing else is recorded of the
stack.
-/
namespace StackJournal

namespace Command

/-- No other command has the name of an integer. -/
theorem ofWords_spelled {v : Int64} {s : List Char} (h : Text.Spells v.toInt s) :
    ofWords [String.ofList s] = .ok (.push v) := by
  have hreads : Text.signed? s = some v := Text.signed?_eq_some_iff.mpr h
  have hne (name : String) (c : Char) (hc : c ∈ name.toList) (digit : c.isDigit = false)
      (plus : c ≠ '+') (minus : c ≠ '-') : String.ofList s ≠ name := by
    rintro rfl
    rw [String.toList_ofList] at hc
    exact h.not_mem digit plus minus hc
  have hnew := hne "new" 'n' (by decide) (by decide) (by decide) (by decide)
  have huse := hne "use" 'u' (by decide) (by decide) (by decide) (by decide)
  have hstack := hne "stack" 's' (by decide) (by decide) (by decide) (by decide)
  have hlog := hne "log" 'l' (by decide) (by decide) (by decide) (by decide)
  have hcounts := hne "counts" 'c' (by decide) (by decide) (by decide) (by decide)
  simp only [ofWords, ofWord, String.toList_ofList, hreads]

end Command

namespace Console

open Text Sink

variable {σ : Type} {answers : Answers σ} {sound : σ → Prop} {log : σ → Log} {state : σ}
variable {stack : Uuid} {values : List Int64} {console : Console}

theorem itemsLine_eq (values : List Int64) :
    itemsLine values = String.ofList (Json.arrayText values) := by
  rw [itemsLine, Json.toString, Json.text_array_ofInt64]

def Replays (log : Log) (stack : Uuid) (values : List Int64) : Prop :=
  ∃ history, Stack.ofHistory stack (log.load stack) = .ok history ∧ history.items = values

structure Holds (sound : σ → Prop) (log : σ → Log) (stack : Uuid) (values : List Int64)
    (state : σ) : Prop where
  sound : sound state
  ordered : (log state).Ordered
  replays : Replays (log state) stack values

section Commands

variable (h : Serves answers sound log)

include h

theorem run_showing_replays (hsound : sound state) (replays : Replays (log state) stack values)
    (selection : Option Uuid) : ∃ after, (showing stack selection).run.run answers state =
      (.ok ([itemsLine values], selection), after) ∧ log after = log state ∧ sound after := by
  obtain ⟨history, hhistory, rfl⟩ := replays
  obtain ⟨hlog, hanswer⟩ := run_showing h hsound stack selection
  rw [hhistory] at hanswer
  exact ⟨_, Prod.ext hanswer rfl, hlog, h.sound_run hsound _⟩

theorem run_carryOut_new (hsound : sound state) (ordered : (log state).Ordered)
    (unused : (log state).version stack = 0) (current : Option Uuid) : ∃ after,
      (carryOut .standard stack current .new).run.run answers state =
        (.ok ([stack.toString], some stack), after) ∧ Holds sound log stack [] after := by
  obtain ⟨now, after, hrun, hafter, hlog⟩ := h.run_createStack_unused hsound unused
  have hcarry : (carryOut .standard stack current .new).run = _ :=
    run_attempt (App.createStack stack) _
  have hordered := ordered.recorded now stack .create
  have hhistory := ordered.indexed.ofHistory_created unused now
  rw [← hlog] at hordered hhistory
  rw [hcarry, Plan.run_bind, hrun]
  exact ⟨after, rfl, hafter, hordered, _, hhistory, rfl⟩

theorem Holds.run_push (holds : Holds sound log stack values state) {v : Int64}
    (small : v.toInt.natAbs ≤ App.maxLiteral) (fresh : Uuid) : ∃ after,
      (carryOut .standard fresh (some stack) (.push v)).run.run answers state =
        (.ok ([itemsLine (values ++ [v])], some stack), after) ∧
      Holds sound log stack (values ++ [v]) after := by
  obtain ⟨history, haccepted, rfl⟩ := holds.replays
  obtain ⟨between, hrun, hbetween, hhistory⟩ :=
    h.run_push_small holds.sound holds.ordered haccepted small
  have hitems : (history.applyKapps (Kapp.literal v)).items = history.items ++ [v] := by
    rw [Stack.applyKapps_literal, Stack.items, Stack.items, List.reverse_cons]
  have hordered : (log between).Ordered := by
    obtain ⟨houtright, _⟩ := h.run_push holds.sound holds.ordered stack v
    rw [hrun] at houtright
    generalize log between = later at houtright ⊢
    cases houtright with
    | recorded _ gains _ => exact gains.ordered
  have hpushed : Replays (log between) stack (history.items ++ [v]) := ⟨_, hhistory, hitems⟩
  obtain ⟨after, hshow, hlog, hafter⟩ := run_showing_replays h hbetween hpushed (some stack)
  have hcarry : (carryOut .standard fresh (some stack) (.push v)).run = _ :=
    run_attempt (App.standard.push stack v) _
  rw [hcarry, Plan.run_bind, hrun]
  rw [← hlog] at hordered hpushed
  exact ⟨after, hshow, hafter, hordered, hpushed⟩

end Commands

section Words

variable {app : App} {ids : Nat → Uuid}

theorem run_takeWords_cons (unlimited : console.sink.Unlimited) {words : List (List Char)}
    {lines : List String} {last : Console} {between : σ}
    (answered : (console.answer app (ids console.created) (words.map String.ofList)).run answers
      state = ((lines, last), between)) (rest : List (List (List Char))) :
    (console.takeWords app ids (words :: rest)).run answers state =
      ((last.withSink (console.sink.taking lines)).takeWords app ids rest).run answers between := by
  have hsink :=
    sink_answer app (ids console.created) console (words.map String.ofList) answers state
  rw [answered] at hsink
  have hsink : last.sink = console.sink := hsink
  rw [takeWords, Plan.run_bind, answered]
  simp only
  rw [hsink, console.sink.deliver_unlimited unlimited]
  rfl

theorem run_takeWords_append {earlier : List (List (List Char))} {next : Console} {between : σ}
    (taken : (console.takeWords app ids earlier).run answers state = ((none, next), between))
    (later : List (List (List Char))) :
    (console.takeWords app ids (earlier ++ later)).run answers state =
      (next.takeWords app ids later).run answers between := by
  rw [takeWords_append, Plan.run_bind, taken]
  rfl

/-- Words are never unreadable. -/
theorem exists_run_takeWords (unlimited : console.sink.Unlimited)
    (commands : List (List (List Char))) (app : App) (ids : Nat → Uuid) (answers : Answers σ)
    (state : σ) : ∃ last after,
      (console.takeWords app ids commands).run answers state = ((none, last), after) ∧
      last.sink.Unlimited := by
  induction commands generalizing console state with
  | nil => exact ⟨console, state, rfl, unlimited⟩
  | cons words rest ih =>
    generalize hanswered : (console.answer app (ids console.created)
      (words.map String.ofList)).run answers state = ran
    obtain ⟨⟨lines, next⟩, between⟩ := ran
    have hnext : (next.withSink (console.sink.taking lines)).sink.Unlimited := unlimited
    rw [run_takeWords_cons unlimited hanswered]
    exact ih hnext between

/-- A command that is carried out is answered with its lines. -/
theorem run_takeWords_carried (unlimited : console.sink.Unlimited) {words : List (List Char)}
    {command : Command} (reads : Command.ofWords (words.map String.ofList) = .ok command)
    {lines : List String} {selection : Option Uuid} {between : σ}
    (carried : (carryOut app (ids console.created) console.current command).run.run answers state =
      (.ok (lines, selection), between)) : ∃ next : Console, next.current = selection ∧
        next.sink = console.sink.taking lines ∧ ∀ rest : List (List (List Char)),
          (console.takeWords app ids (words :: rest)).run answers state =
            (next.takeWords app ids rest).run answers between := by
  have hanswer :
      (console.answer app (ids console.created) (words.map String.ofList)).run answers state =
        (answerAfter console command (.ok (lines, selection)), between) := by
    rw [answer_eq reads, Plan.run_bind, carried]
    rfl
  exact ⟨_, rfl, rfl, run_takeWords_cons unlimited hanswer⟩

/-- A script runs as the words of its commands do. -/
theorem run_text {text : List Char} {last : Console} {after : σ}
    (taken : (console.takeWords app ids (commands text)).run answers state = ((none, last), after))
    (unlimited : last.sink.Unlimited) :
    (console.run app ids (lines (String.ofList text).toUTF8)).run answers state =
      ((none, last.withSink last.sink.flushed), after) := by
  have hlines := takeLines_toUTF8 app ids console (String.ofList text)
  rw [String.toList_ofList] at hlines
  rw [← hlines] at taken
  rw [run_ended taken, finish_unlimited unlimited]

end Words

def Typable (typed : List (Int64 × List Char)) : Prop :=
  ∀ entry ∈ typed, entry.1.toInt.natAbs ≤ App.maxLiteral ∧ Spells entry.1.toInt entry.2

section Typed

variable {typed : List (Int64 × List Char)}

/-- Each integer typed is pushed, and the items are shown up to it. -/
theorem Holds.run_typed (h : Serves answers sound log) (typable : Typable typed)
    (holds : Holds sound log stack values state) (selected : console.current = some stack)
    (unlimited : console.sink.Unlimited) (ids : Nat → Uuid) : ∃ last after,
      (console.takeWords .standard ids (typed.map fun entry => [entry.2])).run answers state =
        ((none, last), after) ∧
      Holds sound log stack (values ++ typed.map Prod.fst) after ∧ last.current = some stack ∧
      last.sink.Unlimited ∧ last.sink.written = console.sink.written ++ printed
        ((List.range typed.length).map fun k =>
          itemsLine (values ++ (typed.map Prod.fst).take (k + 1))) := by
  induction typed generalizing values console state with
  | nil =>
    refine ⟨console, state, rfl, ?_, selected, unlimited, ?_⟩
    · simpa using holds
    · simp [printed, bytesOf]
  | cons entry typed ih =>
    obtain ⟨v, spelling⟩ := entry
    obtain ⟨⟨hsmall, hspells⟩, htyped⟩ := List.forall_mem_cons.mp typable
    have hreads : Command.ofWords ([spelling].map String.ofList) = .ok (.push v) :=
      Command.ofWords_spelled hspells
    obtain ⟨between, hpush, hbetween⟩ := holds.run_push h hsmall (ids console.created)
    rw [← selected] at hpush
    obtain ⟨next, hcurrent, hsink, hnext⟩ := run_takeWords_carried unlimited hreads hpush
    have hunlimited : next.sink.Unlimited := by
      rw [hsink]
      exact unlimited.taking _
    obtain ⟨last, after, hrest, hholds, hlast, hfree, hwritten⟩ :=
      ih htyped hbetween (hcurrent.trans selected) hunlimited
    refine ⟨last, after, (hnext _).trans hrest, ?_, hlast, hfree, ?_⟩
    · simpa using hholds
    · have hshown : next.sink.written =
          console.sink.written ++ printed [itemsLine (values ++ [v])] := by
        rw [hsink]
        rfl
      rw [hwritten, hshown, ByteArray.append_assoc, ← printed_append]
      simp [List.range_succ_eq_map, Function.comp_def]

/-- What is typed after a new stack: its words in their lines. -/
theorem commands_typing_append (typable : Typable typed) (later : List Char) :
    commands (ofLines (['n', 'e', 'w'] :: typed.map Prod.snd) ++ later) =
      [['n', 'e', 'w']] :: typed.map (fun entry => [entry.2]) ++ commands later := by
  have hlines : ∀ line ∈ ['n', 'e', 'w'] :: typed.map Prod.snd, '\n' ∉ line := by
    refine List.forall_mem_cons.mpr ⟨by decide, List.forall_mem_map.mpr fun entry hentry => ?_⟩
    exact (typable entry hentry).2.not_mem (by decide) (by decide) (by decide)
  have hspellings : ((typed.map Prod.snd).map words).filter isCommand =
      typed.map fun entry => [entry.2] := by
    have hwords : typed.map (words ∘ Prod.snd) = typed.map fun entry => [entry.2] :=
      List.map_congr_left fun entry hentry => words_of_isWord (typable entry hentry).2.isWord
    rw [List.map_map, hwords]
    exact List.filter_eq_self.mpr (List.forall_mem_map.mpr fun entry hentry =>
      (typable entry hentry).2.isCommand)
  have hnew : words ['n', 'e', 'w'] = [['n', 'e', 'w']] := by decide
  rw [commands_ofLines_append hlines, List.map_cons, List.filter_cons, hspellings, hnew]
  rfl

end Typed

/-- A line that only looks: at the stack, at the log or at its counts. -/
def Looks (stack : Uuid) (words : List (List Char)) : Prop :=
  ∀ command, Command.ofWords (words.map String.ofList) = .ok command →
    command = .use stack ∨ command = .stack ∨ (∃ start, command = .log start) ∨
      ∃ start, command = .counts start

def Asks (stack : Uuid) (current : Option Uuid) (words : List (List Char)) : Prop :=
  Command.ofWords (words.map String.ofList) = .ok (.use stack) ∨
    Command.ofWords (words.map String.ofList) = .ok .stack ∧ current = some stack

/-- Whatever comes of looking, the log and the selection are as they were. -/
theorem Looks.answered {words : List (List Char)} (looks : Looks stack words) {fresh : Uuid}
    {last : Console} {before after : Log} {answer : List String}
    (h : Answered fresh (words.map String.ofList) console last before after answer)
    (selected : console.current = some stack) : after = before ∧ last.current = some stack := by
  by_cases herror : IsError answer
  · obtain ⟨hlog, hcurrent⟩ := h.1 herror
    exact ⟨hlog, hcurrent.trans selected⟩
  · obtain ⟨command, hreads, hdone⟩ := h.2 herror
    obtain rfl | rfl | ⟨start, rfl⟩ | ⟨start, rfl⟩ := looks command hreads
    · exact ⟨hdone.2.1, hdone.1⟩
    · exact ⟨hdone.2.1, hdone.1.trans selected⟩
    · exact ⟨hdone.2, hdone.1.trans selected⟩
    · exact ⟨hdone.2, hdone.1.trans selected⟩

section Later

variable (h : Serves answers sound log) {ids : Nat → Uuid}

include h

theorem run_takeWords_looking {commands : List (List (List Char))}
    (looks : ∀ words ∈ commands, Looks stack words) (hsound : sound state)
    (ordered : (log state).Ordered) (selected : console.current = some stack)
    (unlimited : console.sink.Unlimited) : ∃ last after,
      (console.takeWords .standard ids commands).run answers state = ((none, last), after) ∧
      log after = log state ∧ last.current = some stack := by
  induction commands generalizing console state with
  | nil => exact ⟨console, state, rfl, rfl, selected⟩
  | cons words rest ih =>
    obtain ⟨hwords, hrest⟩ := List.forall_mem_cons.mp looks
    obtain ⟨hanswered, _⟩ :=
      run_answer h hsound ordered (ids console.created) console (words.map String.ofList)
    have hafter := h.sound_run hsound
      (console.answer .standard (ids console.created) (words.map String.ofList))
    generalize hran : (console.answer .standard (ids console.created)
      (words.map String.ofList)).run answers state = ran at hanswered hafter
    obtain ⟨⟨lines, next⟩, between⟩ := ran
    obtain ⟨hsame, hcurrent⟩ := hwords.answered hanswered selected
    have hselected : (next.withSink (console.sink.taking lines)).current = some stack := hcurrent
    have hunlimited : (next.withSink (console.sink.taking lines)).sink.Unlimited := unlimited
    obtain ⟨last, after, hrun, hlog, hlast⟩ := ih hrest hafter (hsame ▸ ordered) hselected hunlimited
    rw [run_takeWords_cons unlimited hran]
    exact ⟨last, after, hrun, hlog.trans hsame, hlast⟩

theorem run_asked (hsound : sound state) (replays : Replays (log state) stack values)
    {words : List (List Char)} (asks : Asks stack console.current words)
    (unlimited : console.sink.Unlimited) : ∃ last after,
      (console.takeWords .standard ids [words]).run answers state = ((none, last), after) ∧
      last.sink = console.sink.taking [itemsLine values] := by
  obtain ⟨command, hreads, hcarry⟩ : ∃ command,
      Command.ofWords (words.map String.ofList) = .ok command ∧
        carryOut .standard (ids console.created) console.current command =
          showing stack (some stack) := by
    obtain huse | ⟨hstack, hselected⟩ := asks
    · exact ⟨_, huse, rfl⟩
    · exact ⟨_, hstack, by rw [hselected]; rfl⟩
  obtain ⟨after, hshow, _, _⟩ := run_showing_replays h hsound replays (some stack)
  rw [← hcarry] at hshow
  obtain ⟨next, _, hsink, hnext⟩ := run_takeWords_carried unlimited hreads hshow
  exact ⟨next, after, hnext [], hsink⟩

end Later

section Script

variable {ids : Nat → Uuid} {typed : List (Int64 × List Char)}

/-- Where a run stands when all integers are typed. -/
theorem exists_run_typing (h : Serves answers sound log) (hsound : sound state)
    (ordered : (log state).Ordered) (unused : (log state).version (ids 0) = 0)
    (typable : Typable typed) : ∃ (last : Console) (after : σ),
      (∀ later, ((start .unlimited).takeWords .standard ids (commands
          (ofLines (['n', 'e', 'w'] :: typed.map Prod.snd) ++ later))).run answers state =
        (last.takeWords .standard ids (commands later)).run answers after) ∧
      Holds sound log (ids 0) (typed.map Prod.fst) after ∧ last.current = some (ids 0) ∧
      last.sink.Unlimited ∧ last.sink.written = printed ((ids 0).toString ::
        (List.range typed.length).map fun k => itemsLine ((typed.map Prod.fst).take (k + 1))) := by
  have hstart : (start .unlimited).sink.Unlimited := ⟨rfl, rfl⟩
  have hreads : Command.ofWords ([['n', 'e', 'w']].map String.ofList) = .ok .new := by rfl
  obtain ⟨between, hcreate, hcreated⟩ := run_carryOut_new h hsound ordered unused none
  have hcarried : (carryOut .standard (ids (start .unlimited).created) (start .unlimited).current
      .new).run.run answers state = (.ok ([(ids 0).toString], some (ids 0)), between) := hcreate
  obtain ⟨first, hcurrent, hsink, hfirst⟩ := run_takeWords_carried hstart hreads hcarried
  have hunlimited : first.sink.Unlimited := by
    rw [hsink]
    exact hstart.taking _
  obtain ⟨last, after, htyped, hholds, hlast, hfree, hwritten⟩ :=
    hcreated.run_typed h typable hcurrent hunlimited ids
  refine ⟨last, after, fun later => ?_, ?_, hlast, hfree, ?_⟩
  · rw [commands_typing_append typable, List.cons_append, hfirst]
    exact run_takeWords_append htyped (commands later)
  · simpa using hholds
  · have hshown : first.sink.written = printed [(ids 0).toString] := by
      rw [hsink]
      exact ByteArray.empty_append
    rw [hwritten, hshown, ← printed_append]
    rfl

/-- Integers that are typed into a new stack, one a line, are shown in their digits up to each of them.
As long as no event of the stack is recorded after that, and to look records none, a line that asks for
the items of the stack is answered with all the integers. -/
theorem typed_integers_shown (h : Serves answers sound log) (hsound : sound state)
    (ordered : (log state).Ordered) (ids : Nat → Uuid) (unused : (log state).version (ids 0) = 0)
    (typable : Typable typed) :
    let ran (text : List Char) :=
      ((start .unlimited).run .standard ids (lines (String.ofList text).toUTF8)).run answers state
    let script := ofLines (['n', 'e', 'w'] :: typed.map Prod.snd)
    let values := typed.map Prod.fst
    ((ran script).1.1 = none ∧ (ran script).1.2.sink.written = printed ((ids 0).toString ::
      (List.range values.length).map fun k =>
        String.ofList (Json.arrayText (values.take (k + 1))))) ∧
    (∀ later, (∀ words ∈ commands later, Looks (ids 0) words) →
      log (ran (script ++ later)).2 = log (ran script).2 ∧
        (ran (script ++ later)).1.2.current = some (ids 0)) ∧
    ∀ later line words,
      (log (ran (script ++ later)).2).load (ids 0) = (log (ran script).2).load (ids 0) →
      commands line = [words] → Asks (ids 0) (ran (script ++ later)).1.2.current words →
      (ran (script ++ later ++ '\n' :: line)).1.2.sink.written =
        (ran (script ++ later)).1.2.sink.written ++
          printed [String.ofList (Json.arrayText values)] := by
  intro ran script values
  obtain ⟨last, after, hscript, hholds, hcurrent, hunlimited, hwritten⟩ :=
    exists_run_typing h hsound ordered unused typable
  have hran (later : List Char) : ∃ final halted,
      (last.takeWords .standard ids (commands later)).run answers after = ((none, final), halted) ∧
        final.sink.Unlimited ∧
        ran (script ++ later) = ((none, final.withSink final.sink.flushed), halted) := by
    obtain ⟨final, halted, hfinal, hfree⟩ :=
      exists_run_takeWords hunlimited (commands later) .standard ids answers after
    exact ⟨final, halted, hfinal, hfree, run_text ((hscript later).trans hfinal) hfree⟩
  have hended : ran script = ((none, last.withSink last.sink.flushed), after) := by
    refine run_text ?_ hunlimited
    have hnothing := hscript []
    rw [List.append_nil] at hnothing
    exact hnothing
  refine ⟨?_, fun later looks => ?_, fun later line words hload hline hasks => ?_⟩
  · rw [hended]
    refine ⟨rfl, hwritten.trans ?_⟩
    simp [values, itemsLine_eq]
  · obtain ⟨final, halted, hfinal, _, hlater⟩ := hran later
    obtain ⟨_, _, hlooking, hlog, hselected⟩ :=
      run_takeWords_looking h looks hholds.sound hholds.ordered hcurrent hunlimited
    rw [hfinal] at hlooking
    cases hlooking
    rw [hlater, hended]
    exact ⟨hlog, hselected⟩
  · obtain ⟨final, halted, hfinal, hfree, hlater⟩ := hran later
    have hhalted := h.sound_run hholds.sound (last.takeWords .standard ids (commands later))
    rw [hfinal] at hhalted
    rw [hlater, hended] at hload
    rw [hlater] at hasks ⊢
    have hasks : Asks (ids 0) final.current words := hasks
    have hreplays : Replays (log halted) (ids 0) values := by
      rw [Replays, hload]
      exact hholds.replays
    obtain ⟨shown, stopped, hasked, hsink⟩ := run_asked h hhalted hreplays hasks hfree
    have htext : ran (script ++ later ++ '\n' :: line) =
        ((none, shown.withSink shown.sink.flushed), stopped) := by
      refine run_text ?_ (hsink ▸ hfree)
      rw [List.append_assoc, hscript, commands_append_lineFeed, hline, run_takeWords_append hfinal]
      exact hasked
    rw [htext, ← itemsLine_eq]
    exact congrArg Sink.written hsink

end Script

def signedPair : List (Int64 × List Char) := [(-2, ['-', '0', '2']), (7, ['+', '7'])]

/-- A look at the log comes between the integers and the question for the items. -/
theorem signed_pair_shown : Serves (Store.answers .epoch .sound) Store.Sound Store.log ∧
    (Store.memory .empty).Sound ∧ (Store.memory .empty).log.Ordered ∧
    (Store.memory .empty).log.version ⟨7⟩ = 0 ∧ Typable signedPair ∧
    let ran (text : List Char) := ((start .unlimited).run .standard (fun _ => ⟨7⟩)
      (lines (String.ofList text).toUTF8)).run (Store.answers .epoch .sound) (Store.memory .empty)
    let script := "new\n-02\n+7\n".toList
    (ran script).1.2.sink.written =
      printed ["00000000-0000-0000-0000-000000000007", "[-2]", "[-2,7]"] ∧
    (ran (script ++ "log".toList ++ '\n' :: "stack".toList)).1.2.sink.written =
      (ran (script ++ "log".toList)).1.2.sink.written ++ printed ["[-2,7]"] := by
  have serves := Store.serves .epoch
  have sound : (Store.memory .empty).Sound := trivial
  have ordered : (Store.memory .empty).log.Ordered := Log.ordered_empty
  have unused : (Store.memory .empty).log.version ⟨7⟩ = 0 := by rfl
  have typable : Typable signedPair := by
    have htwo : IsNumeral ['0', '2'] := ⟨by simp, List.all_eq_true.mp (by decide)⟩
    have hseven : IsNumeral ['7'] := ⟨by simp, List.all_eq_true.mp (by decide)⟩
    have hminus : Spells (-2) ['-', '0', '2'] := .minus htwo
    have hplus : Spells 7 ['+', '7'] := .plus hseven
    refine List.forall_mem_cons.mpr ⟨⟨by decide, hminus⟩, ?_⟩
    exact List.forall_mem_singleton.mpr ⟨by decide, hplus⟩
  have hscript : ofLines (['n', 'e', 'w'] :: signedPair.map Prod.snd) =
      "new\n-02\n+7\n".toList := by decide
  have hfirst : (List.range (signedPair.map Prod.fst).length).map (fun k =>
      String.ofList (Json.arrayText ((signedPair.map Prod.fst).take (k + 1)))) =
        ["[-2]", "[-2,7]"] := by decide
  have hlast : String.ofList (Json.arrayText (signedPair.map Prod.fst)) = "[-2,7]" := by decide
  have hid : Uuid.toString ⟨7⟩ = "00000000-0000-0000-0000-000000000007" := by decide
  have hlooks : ∀ words ∈ commands "log".toList, Looks ⟨7⟩ words := by
    have hcommands : commands "log".toList = [["log".toList]] := by decide
    rw [hcommands, List.forall_mem_singleton]
    rintro _ ⟨⟩
    exact Or.inr (Or.inr (Or.inl ⟨1, rfl⟩))
  have hshown := typed_integers_shown serves sound ordered (fun _ => ⟨7⟩) unused typable
  simp only [hscript, hfirst, hlast, hid] at hshown
  obtain ⟨⟨_, hwritten⟩, hlooking, hasked⟩ := hshown
  obtain ⟨hsame, hselected⟩ := hlooking _ hlooks
  have hload := congrArg (Log.load · ⟨7⟩) hsame
  have hline : commands "stack".toList = [["stack".toList]] := by decide
  have hasks := hasked _ _ _ hload hline (Or.inr ⟨by rfl, hselected⟩)
  refine ⟨serves, sound, ordered, unused, typable, ?_⟩
  dsimp only
  exact ⟨hwritten, hasks⟩

end Console

end StackJournal
