import StackJournal.Proofs.Clients.Company
import StackJournal.Proofs.Console.Line
import StackJournal.Proofs.Console.Lines
import StackJournal.Proofs.Console.Refusals

/-! # The stack selected

A console selects a stack when it has created it or has shown its items, so that the stack has events.
They are never taken away, and other clients leave no history that cannot be replayed. So the stack
selected can be worked on for ever after, even where the calls of a line are broken off.
-/
namespace StackJournal

open Company

/-- On a stack that has a history no call ends in an error that says it has none. -/
theorem spares_brings (stack : Uuid) : Spares (Brings stack) AppError.Stackless stack where
  ofStore := AppError.not_stackless_ofStore
  ungrounded _ := not_false
  unimplemented _ := not_false
  outOfRange _ _ := not_false
  history events brings := by
    obtain ⟨history, hhistory⟩ := Stack.exists_ofHistory_iff.mpr (brings rfl)
    rw [hhistory]
    exact spared_ok history
  missing brings := absurd rfl (brings rfl)

namespace Command

def Opens : Command → Prop
  | .new | .use _ => True
  | _ => False

def Works : Command → Prop
  | .stack | .push _ | .kapp _ => True
  | _ => False

end Command

namespace Console

variable {app : App} {operations : Nat → Operation} {meetings : Nat → Meeting} {state : Company}
variable {fresh stack : Uuid} {current selection : Option Uuid}

inductive Shown (stack : Uuid) (selection : Option Uuid) (before : Log) :
    Except Refusal (List String × Option Uuid) → Log → Prop where
  | refused {error : AppError} (spared : before.version stack ≠ 0 → ¬error.Stackless) {after : Log} :
      Shown stack selection before (.error (.app error)) after
  | shown (items : List Int64) {after : Log} (existing : after.version stack ≠ 0) :
      Shown stack selection before (.ok ([itemsLine items], selection)) after

def Comes (app : App) (operations : Nat → Operation) (state : Company)
    (comes : Except Refusal (List String × Option Uuid) → Log → Prop)
    (ran : Except Refusal (List String × Option Uuid) × Company) : Prop :=
  Ran app operations state ran.2 ∧ comes ran.1 ran.2.log

theorem comes_showing (h : state.Kept app operations) (meetings : Nat → Meeting) (stack : Uuid)
    (selection : Option Uuid) : Comes app operations state (Shown stack selection state.log)
      ((showing stack selection).run.run (answers meetings) state) := by
  have hrun : (showing stack selection).run = _ := run_attempt (App.items stack) _
  have hplan : (Operation.items stack).plan app = _ := congrArg (Plan.bind · _) (App.items_eq stack)
  have hstage := Operation.stage_plan app state.log (.items stack)
  rw [hplan] at hstage
  have hasked := h.asked meetings hstage
  rw [hrun, Plan.run_bind, App.items_eq, Plan.run_ask]
  generalize answers meetings (.load stack) state = asked at hasked ⊢
  obtain ⟨reply, after⟩ := asked
  have hran : Ran app operations state after := ⟨hasked.kept, hasked.grows⟩
  rcases hasked.answered with ⟨error, rfl⟩ | ⟨met, now, hgrows, hordered, hreplays, rfl, hlog⟩
  · exact ⟨hran, .refused fun _ => AppError.not_stackless_ofStore error⟩
  · have hload : (met.answers now (.load stack)).1 = .ok (met.load stack) := rfl
    have hsame : after.log = met := hlog
    simp only [hload, App.reply, Plan.run]
    cases hhistory : Stack.ofHistory stack (met.load stack) with
    | error error =>
      -- no event is taken away, so the events loaded are a history
      refine ⟨hran, .refused fun existing => ?_⟩
      have hexisting := hgrows.version_ne_zero h.ordered hordered existing
      obtain ⟨history, hfound⟩ :=
        Stack.exists_ofHistory_iff.mpr ((hreplays stack).lawful hordered hexisting)
      rw [hhistory] at hfound
      cases hfound
    | ok history =>
      refine ⟨hran, .shown history.items ?_⟩
      show after.log.version stack ≠ 0
      rw [hsame]
      exact hordered.version_ne_zero hhistory

/-- A call that changes a stack, and then its items. -/
theorem comes_changing (h : state.Kept app operations) (meetings : Nat → Meeting)
    {operation : Operation} {service : Service Nat} {kind : Nat → Operation.Answer}
    (hplan : operation.plan app = Operation.answering kind service)
    (spares : service.run.Obeys (fun _ => True) (Brings stack) (Spared AppError.Stackless))
    (selection : Option Uuid) : Comes app operations state (Shown stack selection state.log)
      ((attempt service >>= fun _ => showing stack selection).run.run (answers meetings) state) := by
  have hstage := Operation.stage_plan app state.log operation
  rw [hplan] at hstage
  have hran := h.run meetings hstage
  have hspared := fun existing => h.run_obeys meetings hstage existing spares
  rw [run_attempt, Plan.run_bind]
  generalize service.run.run (answers meetings) state = called at hran hspared ⊢
  obtain ⟨outcome, middle⟩ := called
  cases outcome with
  | error error => exact ⟨hran, .refused fun existing => hspared existing error rfl⟩
  | ok version =>
    obtain ⟨hlater, hshown⟩ := comes_showing hran.kept meetings stack selection
    refine ⟨hran.trans hlater, ?_⟩
    show Shown stack selection state.log
      ((showing stack selection).run.run (answers meetings) middle).1
      ((showing stack selection).run.run (answers meetings) middle).2.log
    generalize (showing stack selection).run.run (answers meetings) middle = shown at hshown ⊢
    obtain ⟨outcome, after⟩ := shown
    generalize after.log = last at hshown ⊢
    cases hshown with
    | refused spared => exact .refused fun existing => spared (hran.existing h existing)
    | shown items existing => exact .shown items existing

/-- What comes of a command. It is refused, but not for want of a stack if it works on one with events;
or it is carried out, and a stack that it selects has events. -/
def Attempted (current : Option Uuid) (command : Command) (before : Log) :
    Except Refusal (List String × Option Uuid) → Log → Prop
  | .error refusal, _ =>
    command.Works → ∀ stack ∈ current, before.version stack ≠ 0 → ¬refusal.Stackless
  | .ok (answer, selection), after =>
    (command.Opens → ∃ stack, selection = some stack ∧ after.version stack ≠ 0) ∧
    (¬command.Opens → selection = current) ∧ (command.Opens ∨ command.Works → ¬IsError answer)

theorem Shown.attempted {before after : Log} {outcome : Except Refusal (List String × Option Uuid)}
    (h : Shown stack selection before outcome after) {command : Command}
    (opens : command.Opens → selection = some stack)
    (works : ¬command.Opens → selection = current ∧ current = some stack) :
    Attempted current command before outcome after := by
  cases h with
  | refused spared =>
    -- a command that works on a stack selects none, so the stack is the one selected before
    intro hworks other hother existing
    have hnot : ¬command.Opens := by cases command <;> first | exact not_false | cases hworks
    obtain ⟨_, rfl⟩ := works hnot
    cases hother
    exact spared existing
  | shown items existing =>
    exact ⟨fun hopens => ⟨stack, opens hopens, existing⟩, fun hnot => (works hnot).1,
      fun _ => not_isError_itemsLine items⟩

/-- A command that is refused because no stack is selected. -/
theorem comes_noStack (h : state.Kept app operations) (command : Command) :
    Comes app operations state (Attempted none command state.log) (.error .noStack, state) :=
  ⟨h.ran, fun _ _ hother => nomatch hother⟩

/-- A command that only tells of the log. -/
theorem comes_reading (h : state.Kept app operations) (meetings : Nat → Meeting)
    {operation : Operation} {α : Type} {service : Service α} {kind : α → Operation.Answer}
    (hplan : operation.plan app = Operation.answering kind service) (lines : α → List String)
    (current : Option Uuid) {command : Command} (opens : ¬command.Opens) (works : ¬command.Works) :
    Comes app operations state (Attempted current command state.log)
      ((do return (lines (← attempt service), current) : Attempt _).run.run (answers meetings)
        state) := by
  have hrun : (do return (lines (← attempt service), current) : Attempt _).run = _ :=
    run_attempt service _
  have hstage := Operation.stage_plan app state.log operation
  rw [hplan] at hstage
  have hran := h.run meetings hstage
  rw [hrun, Plan.run_bind]
  generalize service.run.run (answers meetings) state = called at hran ⊢
  obtain ⟨outcome, after⟩ := called
  cases outcome with
  | error error => exact ⟨hran, fun hworks => absurd hworks works⟩
  | ok value =>
    exact ⟨hran, fun hopens => absurd hopens opens, fun _ => rfl,
      fun heither => absurd heither (not_or.mpr ⟨opens, works⟩)⟩

theorem comes_new (h : state.Kept app operations) (meetings : Nat → Meeting) (fresh : Uuid)
    (current : Option Uuid) : Comes app operations state (Attempted current .new state.log)
      ((carryOut app fresh current .new).run.run (answers meetings) state) := by
  have hrun : (carryOut app fresh current .new).run = _ := run_attempt (App.createStack fresh) _
  have hstage := Operation.stage_plan app state.log (.createStack fresh)
  rw [Operation.plan_createStack] at hstage
  have hasked := h.asked meetings hstage
  rw [hrun, Plan.run_bind, App.createStack_eq, Plan.run_ask]
  generalize answers meetings (.append fresh 0 .create none) state = asked at hasked ⊢
  obtain ⟨reply, after⟩ := asked
  have hran : Ran app operations state after := ⟨hasked.kept, hasked.grows⟩
  cases reply with
  | error error => exact ⟨hran, fun hworks => hworks.elim⟩
  | ok appended =>
    have hexisting : after.log.version fresh ≠ 0 := by
      obtain ⟨error, heq⟩ | ⟨met, now, _, _, _, hreply, hlog⟩ := hasked.answered
      · cases heq
      · have hanswer : met.answers now (.append fresh 0 .create none) =
          met.append now fresh 0 .create none := rfl
        rw [hanswer] at hreply hlog
        by_cases hfresh : met.version fresh = 0
        · rw [Log.append_taken hfresh] at hlog
          have hinsert : after.log = met.insert ⟨fresh, 1, .create, none, _, now⟩ := hlog
          rw [hinsert, Log.version_insert, if_pos rfl]
          exact Nat.succ_ne_zero _
        · rw [Log.append_refused hfresh] at hreply
          cases hreply
    exact ⟨hran, fun _ => ⟨fresh, rfl, hexisting⟩, fun hnot => absurd trivial hnot,
      fun _ => not_isError_toString fresh⟩

theorem comes_carryOut (h : state.Kept app operations) (meetings : Nat → Meeting) (fresh : Uuid)
    (current : Option Uuid) (command : Command) :
    Comes app operations state (Attempted current command state.log)
      ((carryOut app fresh current command).run.run (answers meetings) state) := by
  cases command with
  | new => exact comes_new h meetings fresh current
  | use stack =>
    obtain ⟨hran, hshown⟩ := comes_showing h meetings stack (some stack)
    exact ⟨hran, hshown.attempted (fun _ => rfl) fun hnot => absurd trivial hnot⟩
  | stack =>
    cases current with
    | none => exact comes_noStack h .stack
    | some stack =>
      obtain ⟨hran, hshown⟩ := comes_showing h meetings stack (some stack)
      exact ⟨hran, hshown.attempted (fun _ => rfl) fun _ => ⟨rfl, rfl⟩⟩
  | log start =>
    have hplan : (Operation.eventLog start).plan app = _ := rfl
    exact comes_reading h meetings hplan (List.map entryLine) current not_false not_false
  | counts start =>
    have hplan : (Operation.counts start).plan app = _ := rfl
    exact comes_reading h meetings hplan (fun counts => [countsLine counts]) current not_false
      not_false
  | push value =>
    cases current with
    | none => exact comes_noStack h (.push value)
    | some stack =>
      have hplan : (Operation.push stack value).plan app = _ := rfl
      obtain ⟨hran, hshown⟩ := comes_changing h meetings hplan
        (App.push_spares (spares_brings stack) app value) (some stack)
      exact ⟨hran, hshown.attempted (fun _ => rfl) fun _ => ⟨rfl, rfl⟩⟩
  | kapp name =>
    cases current with
    | none => exact comes_noStack h (.kapp name)
    | some stack =>
      have hplan : (Operation.dispatch stack name).plan app = _ := rfl
      obtain ⟨hran, hshown⟩ := comes_changing h meetings hplan
        (App.dispatch_spares (spares_brings stack) app name) (some stack)
      exact ⟨hran, hshown.attempted (fun _ => rfl) fun _ => ⟨rfl, rfl⟩⟩

structure Replied (words : List String) (console : Console) (before after : Log)
    (lines : List String) (last : Console) : Prop where
  error : IsError lines → last.current = console.current
  selection : last.current = console.current ∨
    ∃ stack, last.current = some stack ∧ after.version stack ≠ 0
  opened : ∀ command, Command.ofWords words = .ok command → command.Opens → ¬IsError lines →
    last.current ≠ none
  spared : ∀ command, Command.ofWords words = .ok command → command.Works →
    ∀ stack ∈ console.current, before.version stack ≠ 0 → ∀ refusal : Refusal, refusal.Stackless →
      lines ≠ (answer.refuse console refusal).1

theorem refuse_injective {console : Console} {refusal other : Refusal}
    (h : (answer.refuse console refusal).1 = (answer.refuse console other).1) :
    refusal.message = other.message := by
  have htext : "error: " ++ refusal.message = "error: " ++ other.message := (List.cons.inj h).1
  exact String.append_right_inj _ |>.mp htext

theorem isError_refuse (console : Console) (refusal : Refusal) :
    IsError (answer.refuse console refusal).1 := by
  refine ⟨" " ++ refusal.message, ?_⟩
  rw [← String.append_assoc]
  rfl

theorem replied_refuse {words : List String} {console : Console} {before after : Log}
    {refusal : Refusal} (spared : ∀ command, Command.ofWords words = .ok command → command.Works →
      ∀ stack ∈ console.current, before.version stack ≠ 0 → ¬refusal.Stackless) :
    Replied words console before after (answer.refuse console refusal).1
      (answer.refuse console refusal).2 where
  error _ := rfl
  selection := Or.inl rfl
  opened _ _ _ hnot := absurd (isError_refuse console refusal) hnot
  spared command hwords hworks stack hstack existing _ hother hanswer :=
    hother.message_ne (spared command hwords hworks stack hstack existing)
      (refuse_injective hanswer).symm

theorem Attempted.replied {words : List String} {console : Console} {command : Command}
    (hwords : Command.ofWords words = .ok command) {before after : Log} {lines : List String}
    (h : Attempted console.current command before (.ok (lines, selection)) after) :
    Replied words console before after lines
      (answerAfter console command (.ok (lines, selection))).2 := by
  obtain ⟨hopened, hsame, hplain⟩ := h
  refine ⟨?_, ?_, ?_, ?_⟩
  · exact fun herror => hsame fun hopens => hplain (Or.inl hopens) herror
  · by_cases hopens : command.Opens
    · exact Or.inr (hopened hopens)
    · exact Or.inl (hsame hopens)
  · rw [hwords]
    rintro _ heq hopens _ hnone
    cases heq
    obtain ⟨stack, hsome, _⟩ := hopened hopens
    cases hsome.symm.trans hnone
  · rw [hwords]
    rintro _ heq hworks _ _ _ refusal _ hanswer
    cases heq
    have herror : IsError lines := hanswer ▸ isError_refuse console refusal
    exact hplain (Or.inr hworks) herror

/-- The answer to the words of a line. -/
theorem replied_answer (h : state.Kept app operations) (meetings : Nat → Meeting) (fresh : Uuid)
    (console : Console) (words : List String) :
    Ran app operations state ((console.answer app fresh words).run (answers meetings) state).2 ∧
      Replied words console state.log
        ((console.answer app fresh words).run (answers meetings) state).2.log
        ((console.answer app fresh words).run (answers meetings) state).1.1
        ((console.answer app fresh words).run (answers meetings) state).1.2 := by
  cases hwords : Command.ofWords words with
  | error usage =>
    have hplan : console.answer app fresh words = .done (answer.refuse console (.usage usage)) := by
      rw [answer, hwords]
      rfl
    rw [hplan]
    refine ⟨h.ran, replied_refuse fun _ hread => ?_⟩
    cases hwords.symm.trans hread
  | ok command =>
    obtain ⟨hran, hattempted⟩ := comes_carryOut h meetings fresh console.current command
    rw [answer_eq hwords, Plan.run_bind]
    generalize (carryOut app fresh console.current command).run.run (answers meetings) state = ran
      at hran hattempted ⊢
    obtain ⟨outcome, after⟩ := ran
    cases outcome with
    | error refusal =>
      refine ⟨hran, replied_refuse fun other hread => ?_⟩
      obtain rfl := Except.ok.inj (hwords.symm.trans hread)
      exact hattempted
    | ok carried => exact ⟨hran, Attempted.replied hwords hattempted⟩

structure Keeps (app : App) (operations : Nat → Operation) (console : Console) (state : Company)
    (last : Console) (after : Company) : Prop where
  ran : Ran app operations state after
  usable : ∀ stack ∈ last.current, after.log.version stack ≠ 0
  /-- Where a stack was selected one still is. -/
  selected : console.current ≠ none → last.current ≠ none

section Keeps

variable {console : Console}

theorem keeps_self (h : state.Kept app operations)
    (usable : ∀ stack ∈ console.current, state.log.version stack ≠ 0) :
    Keeps app operations console state console state :=
  ⟨h.ran, usable, id⟩

theorem Keeps.trans {middle last : Console} {between after : Company}
    (h : Keeps app operations console state middle between)
    (h' : Keeps app operations middle between last after) :
    Keeps app operations console state last after :=
  ⟨h.ran.trans h'.ran, h'.usable, h'.selected ∘ h.selected⟩

theorem Replied.keeps {words : List String} {lines : List String} {last : Console} {after : Company}
    (h : Replied words console state.log after.log lines last) (kept : state.Kept app operations)
    (ran : Ran app operations state after)
    (usable : ∀ stack ∈ console.current, state.log.version stack ≠ 0) :
    Keeps app operations console state last after := by
  rcases h.selection with hsame | ⟨stack, hsome, existing⟩
  · refine ⟨ran, ?_, ?_⟩ <;> rw [hsame]
    · exact fun stack hstack => ran.existing kept (usable stack hstack)
    · exact id
  · refine ⟨ran, ?_, ?_⟩ <;> rw [hsome]
    · intro other hother
      obtain rfl := Option.mem_some_iff.mp hother
      exact existing
    · exact fun _ => Option.some_ne_none stack

theorem keeps_takeLine (h : state.Kept app operations) (meetings : Nat → Meeting)
    (usable : ∀ stack ∈ console.current, state.log.version stack ≠ 0) (fresh : Uuid)
    (line : List UInt8) : Keeps app operations console state
      ((console.takeLine app fresh line).run (answers meetings) state).1.2
      ((console.takeLine app fresh line).run (answers meetings) state).2 := by
  by_cases hidle : ∀ text, Text.decodeLine line = some text → Command.relevant? text = none
  · obtain ⟨breakdown, htake⟩ := takeLine_idle app console hidle fresh
    rw [htake]
    exact keeps_self h usable
  · obtain ⟨text, hidle⟩ := not_forall.mp hidle
    obtain ⟨hdecode, hrelevant⟩ := Classical.not_imp.mp hidle
    obtain ⟨words, hwords⟩ := Option.ne_none_iff_exists'.mp hrelevant
    obtain ⟨hran, hreplied⟩ := replied_answer h meetings fresh console words
    have hkeeps := hreplied.keeps h hran usable
    rw [takeLine_words app console hdecode hwords, Plan.run_bind]
    exact ⟨hkeeps.ran, hkeeps.usable, hkeeps.selected⟩

theorem keeps_takeLines (h : state.Kept app operations) (meetings : Nat → Meeting)
    (usable : ∀ stack ∈ console.current, state.log.version stack ≠ 0) (ids : Nat → Uuid)
    (lines : List (List UInt8)) : Keeps app operations console state
      ((console.takeLines app ids lines).run (answers meetings) state).1.2
      ((console.takeLines app ids lines).run (answers meetings) state).2 := by
  induction lines generalizing console state with
  | nil => exact keeps_self h usable
  | cons line rest ih =>
    have hline := keeps_takeLine h meetings usable (ids console.created) line
    rw [takeLines_cons, Plan.run_bind]
    generalize (console.takeLine app (ids console.created) line).run (answers meetings) state =
      taken at hline ⊢
    obtain ⟨⟨_ | breakdown, middle⟩, between⟩ := taken
    · exact hline.trans (ih hline.ran.kept hline.usable)
    · exact hline

end Keeps

/-- Some line is a `new` or a `use` that is carried out. -/
def Selected {σ : Type} (app : App) (ids : Nat → Uuid) (answers : Answers σ) (console : Console)
    (state : σ) (lines : List (List UInt8)) : Prop :=
  ∃ earlier line later text words command, lines = earlier ++ line :: later ∧
    let before := (console.takeLines app ids earlier).run answers state
    before.1.1 = none ∧ Text.decodeLine line = some text ∧ Command.relevant? text = some words ∧
      Command.ofWords words = .ok command ∧ command.Opens ∧
      ¬IsError ((before.1.2.answer app (ids before.1.2.created) words).run answers before.2).1.1

theorem selected_takeLine (h : state.Kept app operations) (meetings : Nat → Meeting)
    {console : Console} {line : List UInt8} {text : String} {words : List String}
    {command : Command} (decodes : Text.decodeLine line = some text)
    (relevant : Command.relevant? text = some words) (reads : Command.ofWords words = .ok command)
    (opens : command.Opens)
    (plain : ¬IsError ((console.answer app fresh words).run (answers meetings) state).1.1) :
    ((console.takeLine app fresh line).run (answers meetings) state).1.2.current ≠ none := by
  rw [takeLine_words app console decodes relevant, Plan.run_bind]
  exact (replied_answer h meetings fresh console words).2.opened command reads opens plain

/-- Once a stack is selected one is selected ever after. -/
theorem selected_takeLines (h : state.Kept app operations) {console : Console}
    (usable : ∀ stack ∈ console.current, state.log.version stack ≠ 0) {ids : Nat → Uuid}
    {lines : List (List UInt8)} (selected : Selected app ids (answers meetings) console state lines) :
    ((console.takeLines app ids lines).run (answers meetings) state).1.2.current ≠ none := by
  obtain ⟨earlier, line, later, text, words, command, rfl, hbefore, hdecode, hrelevant, hwords, hopens,
    hplain⟩ := selected
  have hearlier := keeps_takeLines h meetings usable ids earlier
  rw [takeLines_append, Plan.run_bind]
  generalize (console.takeLines app ids earlier).run (answers meetings) state = before
    at hbefore hplain hearlier ⊢
  obtain ⟨⟨breakdown, middle⟩, between⟩ := before
  simp only at hbefore hplain hearlier
  subst hbefore
  have hline := keeps_takeLine hearlier.ran.kept meetings hearlier.usable (ids middle.created) line
  have hselected :=
    selected_takeLine hearlier.ran.kept meetings hdecode hrelevant hwords hopens hplain
  show ((middle.takeLines app ids (line :: later)).run (answers meetings) between).1.2.current ≠ none
  rw [takeLines_cons, Plan.run_bind]
  generalize (middle.takeLine app (ids middle.created) line).run (answers meetings) between = taken
    at hline hselected ⊢
  obtain ⟨⟨_ | breakdown, next⟩, after⟩ := taken
  · exact (keeps_takeLines hline.ran.kept meetings hline.usable ids later).selected hselected
  · exact hselected

/-- After every line of a script the stack selected has a history that can be replayed, if there is one,
whatever requests fail and whatever other clients of the application do meanwhile. A line that is
answered with an error leaves the selection as it is. Once a stack was selected, no line that works on
it is refused for want of a stack. -/
theorem selection_usable (app : App) (ids : Nat → Uuid) (sink : Sink) (meetings : Nat → Meeting)
    {store : Store} (sound : store.Sound) (written : store.log.Written)
    (operations : Nat → Operation) (lines : List (List UInt8)) :
    let begun := Company.start app store operations
    let ran := ((Console.start sink).takeLines app ids lines).run (answers meetings) begun
    (∀ stack ∈ ran.1.2.current, ran.2.log.load stack ≠ [] ∧
      ∃ history, Stack.ofHistory stack (ran.2.log.load stack) = .ok history) ∧
    ∀ words,
      let answered := (ran.1.2.answer app (ids ran.1.2.created) words).run (answers meetings) ran.2
      (IsError answered.1.1 → answered.1.2.current = ran.1.2.current) ∧
      (Selected app ids (answers meetings) (Console.start sink) begun lines →
        ∀ command, Command.ofWords words = .ok command → command.Works →
          ∀ refusal : Refusal, refusal.Stackless →
            answered.1.1 ≠ [s!"error: {refusal.message}"]) := by
  intro begun ran
  have hstart : begun.Kept app operations := kept_start app sound written operations
  have hnone : ∀ stack ∈ (Console.start sink).current, begun.log.version stack ≠ 0 :=
    fun _ hstack => nomatch hstack
  have hkeeps := keeps_takeLines hstart meetings hnone ids lines
  refine ⟨fun stack hstack => ?_, fun words => ?_⟩
  · have hlawful := (hkeeps.ran.kept.replays stack).lawful hkeeps.ran.kept.ordered
      (hkeeps.usable stack hstack)
    obtain ⟨first, rest, hload, _⟩ := hlawful.begun
    exact ⟨hload ▸ List.cons_ne_nil first rest, Stack.exists_ofHistory_iff.mpr hlawful⟩
  · intro answered
    obtain ⟨_, hreplied⟩ :=
      replied_answer hkeeps.ran.kept meetings (ids ran.1.2.created) ran.1.2 words
    refine ⟨hreplied.error, fun hselected command hwords hworks refusal hstackless => ?_⟩
    obtain ⟨stack, hsome⟩ := Option.ne_none_iff_exists'.mp
      (selected_takeLines hstart hnone hselected)
    exact hreplied.spared command hwords hworks stack hsome (hkeeps.usable stack hsome) refusal
      hstackless

/-- Before each request another client goes on, and all requests but the first fail. -/
def failing (number : Nat) : Meeting :=
  ⟨[⟨number, .epoch, none⟩], .epoch, if number = 0 then none else some .poisoned⟩

def crowd : Company := .start .standard (.memory .empty) fun _ => .createStack ⟨0⟩

def seventh (_ : Nat) : Uuid := ⟨7⟩

def newLine : List UInt8 := Text.encode "new".toList

/-- A stack is created and selected. No request succeeds after that, but the stack has its history. -/
theorem created_usable : (Store.memory .empty).Sound ∧ (Store.memory .empty).log.Written ∧
    Selected .standard seventh (answers failing) (.start .unlimited) crowd [newLine] ∧
    let ran := ((Console.start .unlimited).takeLines .standard seventh [newLine]).run
      (answers failing) crowd
    ran.1.2.current = some ⟨7⟩ ∧
    (∃ history, Stack.ofHistory ⟨7⟩ (ran.2.log.load ⟨7⟩) = .ok history) ∧
    ∀ refusal : Refusal, refusal.Stackless →
      ((ran.1.2.answer .standard (seventh ran.1.2.created) ["dup"]).run (answers failing) ran.2).1.1 ≠
        [s!"error: {refusal.message}"] := by
  have sound : (Store.memory .empty).Sound := trivial
  have written : (Store.memory .empty).log.Written := .empty
  have hdecode : Text.decodeLine newLine = some "new" := Text.decodeLine_eq_some_iff.mpr rfl
  have hrelevant : Command.relevant? "new" = some ["new"] := by rfl
  have hdup : Command.ofWords ["dup"] = .ok (.kapp "dup") := by rfl
  have hselected : Selected .standard seventh (answers failing) (.start .unlimited) crowd
      [newLine] := by
    refine ⟨[], _, [], _, _, .new, rfl, rfl, hdecode, hrelevant, rfl, trivial, ?_⟩
    exact not_isError_toString ⟨7⟩
  have hcurrent : (((Console.start .unlimited).takeLines .standard seventh [newLine]).run
      (answers failing) crowd).1.2.current = some ⟨7⟩ := by
    rw [takeLines_cons, takeLine_words _ _ hdecode hrelevant, Plan.bind_assoc]
    rfl
  obtain ⟨husable, hanswered⟩ := selection_usable .standard seventh .unlimited failing sound written
    (fun _ => .createStack ⟨0⟩) [newLine]
  exact ⟨sound, written, hselected, hcurrent, (husable ⟨7⟩ hcurrent).2,
    (hanswered ["dup"]).2 hselected (.kapp "dup") hdup trivial⟩

end Console

end StackJournal
