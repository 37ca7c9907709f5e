import StackJournal.Console
import StackJournal.Proofs.Clients.Alone
import StackJournal.Proofs.Json.Extension.Quoted
import StackJournal.Proofs.Uuid

/-! # What a line does

A line of the console is carried out as a whole or not at all: if its answer is an error, the log and
the selection are as they were. Else the command decides what was recorded and what is selected.
-/
namespace StackJournal.Console

open Text

def IsError (answer : List String) : Prop := ∃ reason, answer = ["error:" ++ reason]

def Shows (log : Log) (stack : Uuid) (answer : List String) : Prop :=
  ∃ history, Stack.ofHistory stack (log.load stack) = .ok history ∧
    answer = [itemsLine history.items]

/-- What a command that was carried out has made of a log and of a selection, with its answer. -/
def Done (fresh : Uuid) (current : Option Uuid) (before after : Log) (answer : List String)
    (selection : Option Uuid) : Command → Prop
  | .new => selection = some fresh ∧ before.Gains fresh [.create] after ∧ answer = [fresh.toString]
  | .use stack => selection = some stack ∧ after = before ∧ Shows after stack answer
  | .stack => selection = current ∧ after = before ∧
      ∃ stack, current = some stack ∧ Shows after stack answer
  | .log _ | .counts _ => selection = current ∧ after = before
  | .push value => selection = current ∧ ∃ stack kinds, current = some stack ∧
      kinds = (Kapp.literal value).map .kapp ∧ kinds.length = value.toInt.natAbs + 1 ∧
      before.Gains stack kinds after ∧ Shows after stack answer
  | .kapp name => selection = current ∧ ∃ (stack : Uuid) (kapp : Kapp), current = some stack ∧
      name = kapp.name ∧ before.Gains stack [.kapp kapp] after ∧ Shows after stack answer

/-- An identity has no colon, but an error does. -/
theorem not_isError_toString (id : Uuid) : ¬IsError [id.toString] := by
  rintro ⟨reason, h⟩
  have htext : id.text = ['e', 'r', 'r', 'o', 'r', ':'] ++ reason.toList := by
    have hlist := congrArg String.toList (List.cons.inj h).1
    rwa [Uuid.toString, String.toList_ofList, String.toList_append] at hlist
  have hcolon : ':' ∈ id.text := by
    rw [htext]
    exact List.mem_append_left _ (by decide)
  rcases Uuid.mem_joinGroups hcolon with hdigit | hhyphen
  · have hhex := Json.isHex_of_hexNumber? (hexNumber?_fixedDigits 32 id.value.toNat) _ hdigit
    cases hhex
  · exact absurd hhyphen (by decide)

/-- Items are shown in brackets. -/
theorem not_isError_itemsLine (items : List Int64) : ¬IsError [itemsLine items] := by
  rintro ⟨reason, h⟩
  have htext : (Json.array (items.map Json.ofInt64)).text =
      'e' :: (['r', 'r', 'o', 'r', ':'] ++ reason.toList) := by
    have hlist := congrArg String.toList (List.cons.inj h).1
    rwa [itemsLine, Json.toString, String.toList_ofList, String.toList_append] at hlist
  cases items with
  | nil =>
    rw [List.map_nil, Json.text] at htext
    cases htext
  | cons item items =>
    rw [List.map_cons, Json.text] at htext
    cases htext

theorem not_isError_of_shows {log : Log} {stack : Uuid} {answer : List String}
    (h : Shows log stack answer) : ¬IsError answer := by
  obtain ⟨history, _, rfl⟩ := h
  exact not_isError_itemsLine history.items

def goOn {α β : Type} (f : α → Attempt β) : Except AppError α → Plan (Except Refusal β)
  | .ok a => (f a).run
  | .error error => .done (.error (.app error))

theorem run_attempt {α β : Type} (service : Service α) (f : α → Attempt β) :
    (attempt service >>= f).run = service.run.bind (goOn f) := by
  have hbind : (attempt service >>= f).run =
      (service.run.bind fun result => .done (result.mapError Refusal.app)).bind
        (ExceptT.bindCont f) := rfl
  rw [hbind, Plan.bind_assoc]
  refine congrArg (Plan.bind _) (funext fun result => ?_)
  cases result <;> rfl

section Serves

variable {σ : Type} {answers : Answers σ} {sound : σ → Prop} {log : σ → Log} {state : σ}

def showing (stack : Uuid) (selection : Option Uuid) : Attempt (List String × Option Uuid) := do
  return ([itemsLine (← attempt (App.items stack))], selection)

theorem run_showing (h : Serves answers sound log) (hsound : sound state) (stack : Uuid)
    (selection : Option Uuid) :
    log ((showing stack selection).run.run answers state).2 = log state ∧
      ((showing stack selection).run.run answers state).1 =
        ((Stack.ofHistory stack ((log state).load stack)).mapError fun error =>
          Refusal.app (AppError.ofHistory stack error)).map fun history =>
            ([itemsLine history.items], selection) := by
  obtain ⟨_, hlog, _⟩ := h.run_reads hsound (App.items_obeys stack)
  have hitems := h.run_items hsound stack
  have hrun : (showing stack selection).run = _ := run_attempt (App.items stack) _
  rw [hrun, Plan.run_bind]
  generalize (App.items stack).run.run answers state = ran at hlog hitems ⊢
  obtain ⟨outcome, after⟩ := ran
  simp only at hitems hlog
  subst hitems
  cases Stack.ofHistory stack ((log state).load stack) with
  | error error => exact ⟨hlog, rfl⟩
  | ok history => exact ⟨hlog, rfl⟩

inductive Changed (stack : Uuid) (allowed : List EventKind → Prop) (selection : Option Uuid)
    (before : Log) : Except Refusal (List String × Option Uuid) → Log → Prop where
  | refused {refusal : Refusal} : Changed stack allowed selection before (.error refusal) before
  | shown {answer : List String} {kinds : List EventKind} {after : Log} (allows : allowed kinds)
      (gains : before.Gains stack kinds after) (shows : Shows after stack answer) :
      Changed stack allowed selection before (.ok (answer, selection)) after

/-- What was recorded can be shown: no check fails once something is written. -/
theorem run_changed (h : Serves answers sound log) {service : Service Nat} {stack : Uuid}
    {allowed : List EventKind → Prop} (selection : Option Uuid)
    (outright : App.Outright stack allowed (log state) (service.run.run answers state).1
      (log (service.run.run answers state).2))
    (hsound : sound (service.run.run answers state).2) :
    let ran := (attempt service >>= fun _ => showing stack selection).run.run answers state
    Changed stack allowed selection (log state) ran.1 (log ran.2) := by
  intro ran
  have hran : ran = (goOn (fun _ => showing stack selection)
      (service.run.run answers state).1).run answers (service.run.run answers state).2 := by
    rw [← Plan.run_bind, ← run_attempt]
  rw [hran]
  generalize service.run.run answers state = called at outright hsound
  obtain ⟨outcome, after⟩ := called
  simp only at outright hsound
  obtain ⟨hlog, hanswer⟩ := run_showing h hsound stack selection
  generalize hlater : log after = later at outright
  cases outright with
  | @refused error =>
    show Changed stack allowed selection (log state) (.error (.app error)) (log after)
    rw [hlater]
    exact .refused
  | recorded allows gains lawful =>
    subst hlater
    obtain ⟨history, hhistory⟩ := Stack.exists_ofHistory_iff.mpr lawful
    rw [hhistory] at hanswer
    show Changed stack allowed selection (log state)
      ((showing stack selection).run.run answers after).1
      (log ((showing stack selection).run.run answers after).2)
    rw [hanswer, hlog]
    exact .shown allows gains ⟨history, hhistory, rfl⟩

def Carried (fresh : Uuid) (current : Option Uuid) (command : Command) (before after : Log) :
    Except Refusal (List String × Option Uuid) → Prop
  | .error _ => after = before
  | .ok (answer, selection) => Done fresh current before after answer selection command

variable {fresh : Uuid} {current : Option Uuid}

theorem carried_showing (h : Serves answers sound log) (hsound : sound state) {command : Command}
    {stack : Uuid} {selection : Option Uuid}
    (done : ∀ {answer}, Shows (log state) stack answer →
      Done fresh current (log state) (log state) answer selection command) :
    Carried fresh current command (log state)
      (log ((showing stack selection).run.run answers state).2)
      ((showing stack selection).run.run answers state).1 := by
  obtain ⟨hlog, hanswer⟩ := run_showing h hsound stack selection
  rw [hlog, hanswer]
  cases hhistory : Stack.ofHistory stack ((log state).load stack) with
  | error error => exact rfl
  | ok history => exact done ⟨history, hhistory, rfl⟩

/-- What is told of the log without a stack. -/
theorem carried_reading (h : Serves answers sound log) (hsound : sound state) {α : Type}
    {service : Service α} (obeys : service.run.Obeys Request.Reads (fun _ _ => True) fun _ => True)
    (lines : α → List String) {command : Command}
    (done : ∀ {answer}, Done fresh current (log state) (log state) answer current command) :
    Carried fresh current command (log state)
      (log ((do return (lines (← attempt service), current) : Attempt _).run.run answers state).2)
      ((do return (lines (← attempt service), current) : Attempt _).run.run answers state).1 := by
  obtain ⟨_, hlog, _⟩ := h.run_reads hsound obeys
  have hrun : (do return (lines (← attempt service), current) : Attempt _).run = _ :=
    run_attempt service _
  rw [hrun, Plan.run_bind]
  generalize service.run.run answers state = ran at hlog ⊢
  obtain ⟨outcome, after⟩ := ran
  cases outcome with
  | error error => exact hlog
  | ok value =>
    have hlog : log after = log state := hlog
    show Done fresh current (log state) (log after) (lines value) current command
    rw [hlog]
    exact done

theorem Changed.carried {stack : Uuid} {allowed : List EventKind → Prop} {selection : Option Uuid}
    {before after : Log} {outcome : Except Refusal (List String × Option Uuid)}
    (h : Changed stack allowed selection before outcome after) {command : Command}
    (done : ∀ {answer kinds}, allowed kinds → before.Gains stack kinds after →
      Shows after stack answer → Done fresh current before after answer selection command) :
    Carried fresh current command before after outcome := by
  cases h with
  | refused => exact rfl
  | shown allows gains shows => exact done allows gains shows

theorem run_carryOut (h : Serves answers sound log) (hsound : sound state)
    (ordered : (log state).Ordered) (fresh : Uuid) (current : Option Uuid) (command : Command) :
    Carried fresh current command (log state)
      (log ((carryOut .standard fresh current command).run.run answers state).2)
      ((carryOut .standard fresh current command).run.run answers state).1 := by
  cases command with
  | new =>
    obtain ⟨_, hcreated⟩ := h.run_createStack hsound ordered fresh
    have hrun : (carryOut .standard fresh current .new).run = _ :=
      run_attempt (App.createStack fresh) _
    rw [hrun, Plan.run_bind]
    generalize (App.createStack fresh).run.run answers state = ran at hcreated ⊢
    obtain ⟨outcome, after⟩ := ran
    obtain ⟨⟨error, houtcome⟩, hlog⟩ | ⟨houtcome, hgains⟩ := hcreated
    · simp only at houtcome
      subst houtcome
      exact hlog
    · simp only at houtcome
      subst houtcome
      exact ⟨rfl, hgains, rfl⟩
  | use stack => exact carried_showing h hsound fun hshows => ⟨rfl, rfl, hshows⟩
  | stack =>
    cases current with
    | none => exact rfl
    | some stack => exact carried_showing h hsound fun hshows => ⟨rfl, rfl, stack, rfl, hshows⟩
  | log start =>
    refine carried_reading h hsound ?_ (List.map entryLine) ⟨rfl, rfl⟩
    refine (App.eventsFrom_obeys start).bind ?_
    rintro (error | events) - <;> trivial
  | counts start =>
    refine carried_reading h hsound ?_ (fun counts => [countsLine counts]) ⟨rfl, rfl⟩
    refine (App.eventsFrom_obeys start).bind ?_
    rintro (error | events) - <;> trivial
  | push value =>
    cases current with
    | none => exact rfl
    | some stack =>
      obtain ⟨houtright, hafter⟩ := h.run_push hsound ordered stack value
      refine (run_changed h (some stack) houtright hafter).carried ?_
      rintro answer kinds rfl hgains hshows
      refine ⟨rfl, stack, _, rfl, rfl, ?_, hgains, hshows⟩
      rw [List.length_map, Kapp.length_literal]
  | kapp name =>
    cases current with
    | none => exact rfl
    | some stack =>
      obtain ⟨hdispatched, hafter⟩ := h.run_dispatch hsound ordered.indexed .standard stack name
      refine (run_changed h (some stack) (hdispatched.outright ordered) hafter).carried ?_
      rintro answer _ ⟨kapp, hname, rfl⟩ hgains hshows
      exact ⟨rfl, stack, kapp, rfl, hname, hgains, hshows⟩

/-- An error where a command was not carried out, and else what it has done. -/
def Answered (fresh : Uuid) (words : List String) (console last : Console) (before after : Log)
    (answer : List String) : Prop :=
  (IsError answer → after = before ∧ last.current = console.current) ∧
  (¬IsError answer → ∃ command, Command.ofWords words = .ok command ∧
    Done fresh console.current before after answer last.current command)

/-- What changes the log is no error. -/
theorem Answered.done {fresh : Uuid} {words : List String} {console last : Console}
    {before after : Log} {answer : List String}
    (h : Answered fresh words console last before after answer) (hchanged : after ≠ before) :
    ∃ command, Command.ofWords words = .ok command ∧
      Done fresh console.current before after answer last.current command :=
  h.2 fun herror => hchanged (h.1 herror).1

theorem answered_refuse (console : Console) (refusal : Refusal) (fresh : Uuid)
    (words : List String) (log : Log) :
    Answered fresh words console (answer.refuse console refusal).2 log log
      (answer.refuse console refusal).1 := by
  refine ⟨fun _ => ⟨rfl, rfl⟩, fun hnot => absurd ⟨" " ++ refusal.message, ?_⟩ hnot⟩
  rw [← String.append_assoc]
  rfl

theorem answered_done {console last : Console} {fresh : Uuid} {words : List String}
    {before after : Log} {answer : List String} {command : Command}
    (hwords : Command.ofWords words = .ok command)
    (hdone : Done fresh console.current before after answer last.current command) :
    Answered fresh words console last before after answer := by
  refine ⟨fun herror => ?_, fun _ => ⟨command, hwords, hdone⟩⟩
  cases command with
  | new =>
    obtain ⟨_, _, rfl⟩ := hdone
    exact absurd herror (not_isError_toString fresh)
  | use stack => exact absurd herror (not_isError_of_shows hdone.2.2)
  | stack => exact ⟨hdone.2.1, hdone.1⟩
  | log start => exact ⟨hdone.2, hdone.1⟩
  | counts start => exact ⟨hdone.2, hdone.1⟩
  | push value =>
    obtain ⟨_, _, _, _, _, _, _, hshows⟩ := hdone
    exact absurd herror (not_isError_of_shows hshows)
  | kapp name =>
    obtain ⟨_, _, _, _, _, _, hshows⟩ := hdone
    exact absurd herror (not_isError_of_shows hshows)

def answerAfter (console : Console) (command : Command) :
    Except Refusal (List String × Option Uuid) → List String × Console
  | .error refusal => answer.refuse console refusal
  | .ok (lines, current) =>
    let created := if command = .new then console.created + 1 else console.created
    (lines, { console with current, created })

theorem answer_eq {console : Console} {words : List String} {command : Command}
    (hwords : Command.ofWords words = .ok command) (app : App) (fresh : Uuid) :
    console.answer app fresh words =
      (carryOut app fresh console.current command).run.bind fun outcome =>
        .done (answerAfter console command outcome) := by
  rw [answer, hwords]
  refine congrArg (Plan.bind _) (funext fun outcome => ?_)
  cases outcome <;> rfl

theorem run_answer (h : Serves answers sound log) (hsound : sound state)
    (ordered : (log state).Ordered) (fresh : Uuid) (console : Console) (words : List String) :
    let ran := (console.answer .standard fresh words).run answers state
    Answered fresh words console ran.1.2 (log state) (log ran.2) ran.1.1 ∧
      ran.1.2.sink = console.sink := by
  intro ran
  cases hwords : Command.ofWords words with
  | error usage =>
    have hran : ran = (answer.refuse console (.usage usage), state) := by
      show (console.answer .standard fresh words).run answers state = _
      rw [answer, hwords]
      rfl
    rw [hran]
    exact ⟨answered_refuse console _ fresh words (log state), rfl⟩
  | ok command =>
    have hcarried := run_carryOut h hsound ordered fresh console.current command
    have hran : ran =
        (answerAfter console command
          ((carryOut .standard fresh console.current command).run.run answers state).1,
        ((carryOut .standard fresh console.current command).run.run answers state).2) := by
      show (console.answer .standard fresh words).run answers state = _
      rw [answer_eq hwords, Plan.run_bind]
      rfl
    rw [hran]
    generalize (carryOut .standard fresh console.current command).run.run answers state = carried
      at hcarried ⊢
    obtain ⟨outcome, after⟩ := carried
    cases outcome with
    | error refusal =>
      have hsame : log after = log state := hcarried
      rw [answerAfter, hsame]
      exact ⟨answered_refuse console refusal fresh words (log state), rfl⟩
    | ok carried => exact ⟨answered_done hwords hcarried, rfl⟩

/-- A line is carried out as a whole or not at all. A line without a command leaves all as it is. Any
other is answered once; where the answer is an error, the log and the selection are as they were, and
else the command of the line has done what it is for. -/
theorem line_answered (h : Serves answers sound log) (hsound : sound state)
    (ordered : (log state).Ordered) (fresh : Uuid) (console : Console) (line : String) :
    (Command.relevant? line = none →
      (console.takeText .standard fresh line).run answers state = ((none, console), state)) ∧
    ∀ words, Command.relevant? line = some words → ∃ answer breakdown last after,
      (console.takeText .standard fresh line).run answers state = ((breakdown, last), after) ∧
      console.sink.deliver answer = (breakdown, last.sink) ∧
      Answered fresh words console last (log state) (log after) answer := by
  refine ⟨fun hnone => ?_, fun words hwords => ?_⟩
  · rw [takeText, hnone]
    rfl
  have htake : console.takeText .standard fresh line =
      (console.answer .standard fresh words).bind fun answered =>
        .done ((answered.2.sink.deliver answered.1).1,
          { answered.2 with sink := (answered.2.sink.deliver answered.1).2 }) := by
    rw [takeText, hwords]
    rfl
  obtain ⟨hanswered, hsink⟩ := run_answer h hsound ordered fresh console words
  rw [htake, Plan.run_bind]
  generalize (console.answer .standard fresh words).run answers state = ran at hanswered hsink ⊢
  obtain ⟨⟨answer, last⟩, after⟩ := ran
  have hsink : last.sink = console.sink := hsink
  exact ⟨answer, _, _, after, rfl, by rw [← hsink], hanswered⟩

end Serves

def oneStack : Store := .memory (Log.empty.recorded .epoch ⟨0⟩ .create)

def selecting : Console := ⟨some ⟨0⟩, 1, .unlimited⟩

/-- An integer is a command too: the 2 is pushed by the kapps that make it. -/
theorem two_answered : Serves (Store.answers .epoch .sound) Store.Sound Store.log ∧
    oneStack.Sound ∧ oneStack.log.Ordered ∧ Command.relevant? " 2" = some ["2"] ∧
    let ran := (selecting.takeText .standard ⟨9⟩ " 2").run (Store.answers .epoch .sound) oneStack
    Answered ⟨9⟩ ["2"] selecting ran.1.2 oneStack.log ran.2.log ["[2]"] ∧
      selecting.sink.deliver ["[2]"] = (none, ran.1.2.sink) ∧
      oneStack.log.Gains ⟨0⟩ [.kapp .zero, .kapp .succ, .kapp .succ] ran.2.log ∧
      ran.1.1 = none ∧ ran.1.2.current = some ⟨0⟩ := by
  have serves := Store.serves .epoch
  have sound : oneStack.Sound := trivial
  have ordered : oneStack.log.Ordered := Log.ordered_empty.recorded .epoch ⟨0⟩ .create
  have hwords : Command.relevant? " 2" = some ["2"] := by rfl
  refine ⟨serves, sound, ordered, hwords, ?_⟩
  intro ran
  obtain ⟨answer, breakdown, last, after, hran, hdelivered, hanswered⟩ :=
    (line_answered serves sound ordered ⟨9⟩ selecting " 2").2 ["2"] hwords
  have hsize : ran.2.log.events.size = 4 := by decide +kernel
  have hitems : (Stack.ofHistory ⟨0⟩ (ran.2.log.load ⟨0⟩)).toOption.map (·.items) = some [2] := by
    decide +kernel
  have hwhole : ran.1.1 = none := by decide +kernel
  have hsame : ran = ((breakdown, last), after) := hran
  rw [hsame] at hsize hitems hwhole ⊢
  have hchanged : after.log ≠ oneStack.log := by
    intro hunchanged
    rw [hunchanged] at hsize
    cases hsize
  obtain ⟨_, ⟨⟩, hcurrent, _, _, ⟨⟩, rfl, _, hgains, history, hhistory, rfl⟩ :=
    hanswered.done hchanged
  have hshown : history.items = [2] := by
    rw [hhistory] at hitems
    exact Option.some.inj hitems
  have hline : itemsLine history.items = "[2]" := by
    rw [hshown]
    decide
  rw [hline] at hanswered hdelivered
  cases hwhole
  exact ⟨hanswered, hdelivered, hgains, rfl, hcurrent⟩

end StackJournal.Console
