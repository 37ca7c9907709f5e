import StackJournal.App
import StackJournal.Proofs.Plan
import StackJournal.Proofs.Stack.History

/-! # The calls of the application, request by request

Each call of the application is opened once here: what it asks first, and how it goes on after every
reply. A dispatch loads, weighs the history it got, and writes at the version it found there.
-/
namespace StackJournal

inductive Operation where
  | createStack (id : Uuid)
  | dispatch (stack : Uuid) (name : String)
  | dispatchAll (stack : Uuid) (names : List String)
  | push (stack : Uuid) (value : Int64)
  | items (stack : Uuid)
  | eventLog (position : Nat)
  | counts (position : Nat)

namespace Operation

inductive Answer where
  | stack (id : Uuid)
  | version (number : Nat)
  | items (values : List Int64)
  | trail (entries : List LogEntry)
  | tally (counts : List (String × Nat))

abbrev Outcome := Except AppError Answer

def answering {α : Type} (kind : α → Answer) (service : Service α) : Plan Outcome :=
  service.run.bind fun result => .done (result.map kind)

def plan (app : App) : Operation → Plan Outcome
  | createStack id => answering .stack (App.createStack id)
  | dispatch stack name => answering .version (app.dispatch stack name)
  | dispatchAll stack names => answering .version (app.dispatchAll stack names)
  | push stack value => answering .version (app.push stack value)
  | items stack => answering .items (App.items stack)
  | eventLog position => answering .trail (App.eventLog position)
  | counts position => answering .tally (app.counts position)

/-- The calls that append one event each, of which a call is made. -/
def singles : Operation → List Operation
  | createStack id => [createStack id]
  | dispatch stack name => [dispatch stack name]
  | dispatchAll stack names => names.map (dispatch stack)
  | push stack value =>
    match App.literal value with
    | .ok kapps => kapps.map fun kapp => dispatch stack kapp.name
    | .error _ => []
  | items _ | eventLog _ | counts _ => []

end Operation

namespace App

def reply {α β : Type} (result : Except StoreError α) (next : α → Plan (Except AppError β)) :
    Plan (Except AppError β) :=
  match result with
  | .ok a => next a
  | .error error => .done (.error (.ofStore error))

/-- What a dispatch makes of a history: the version it found and the kapp to be recorded. -/
def weigh (app : App) (stack : Uuid) (name : String) (events : List Event) :
    Except AppError (Nat × Kapp) := do
  let history ← (Stack.ofHistory stack events).mapError (AppError.ofHistory stack)
  let kapp ← app.gate.resolve name
  return (history.version, kapp)

def write (stack : Uuid) (version : Nat) (kapp : Kapp) : Plan (Except AppError Nat) :=
  .ask (.append stack version (.kapp kapp) none) fun result =>
    reply result fun _ => .done (.ok (version + 1))

def writeWeighed (stack : Uuid) : Except AppError (Nat × Kapp) → Plan (Except AppError Nat)
  | .ok (version, kapp) => write stack version kapp
  | .error error => .done (.error error)

theorem createStack_eq (id : Uuid) : (createStack id).run =
    .ask (.append id 0 .create none) fun result => reply result fun _ => .done (.ok id) := by
  refine congrArg (Plan.ask _) (funext fun result => ?_)
  cases result <;> rfl

theorem save_eq {stack : Stack} {event : Pending} (h : stack.pending = #[event]) :
    (save stack).run = .ask (.append event.stack (event.sequence - 1) event.kind none) fun result =>
      reply result fun _ => .done (.ok { stack with pending := #[] }) := by
  obtain ⟨id, version, cells, pending⟩ := stack
  simp only at h
  subst h
  refine congrArg (Plan.ask _) (funext fun result => ?_)
  cases result <;> rfl

/-- Executing a kapp on a stack without pending events, and saving it. -/
theorem save_execute_eq {history : Stack} (h : history.pending = #[]) (kapp : Kapp) :
    (do return (← save (history.execute kapp)).version : Service Nat).run =
      write history.id history.version kapp := by
  have hpending : (history.execute kapp).pending = #[history.decide kapp] := by
    show history.pending.push _ = _
    rw [h]
    rfl
  have hrun : (do return (← save (history.execute kapp)).version : Service Nat).run =
      (save (history.execute kapp)).run.bind fun result =>
        .done (result.map (·.version)) := by
    refine congrArg (Plan.bind _) (funext fun result => ?_)
    cases result <;> rfl
  rw [hrun, save_eq hpending]
  refine congrArg (Plan.ask _) (funext fun result => ?_)
  cases result <;> rfl

theorem dispatch_eq (app : App) (stack : Uuid) (name : String) : (app.dispatch stack name).run =
    .ask (.load stack) fun result =>
      reply result fun events => writeWeighed stack (app.weigh stack name events) := by
  refine congrArg (Plan.ask _) (funext fun result => ?_)
  cases result with
  | error error => rfl
  | ok events =>
    show (Service.ofExcept ((Stack.ofHistory stack events).mapError (AppError.ofHistory stack)) >>=
      fun history => Service.ofExcept (app.gate.resolve name) >>= fun kapp =>
        (do return (← save (history.execute kapp)).version : Service Nat)).run =
      writeWeighed stack (app.weigh stack name events)
    rw [weigh]
    cases hhistory : Stack.ofHistory stack events with
    | error error => rfl
    | ok history =>
      cases app.gate.resolve name with
      | error error => rfl
      | ok kapp =>
        obtain ⟨_, hmade⟩ := Stack.ofHistory_eq_ok_iff.mp hhistory
        rw [Stack.applyAll_blank] at hmade
        subst hmade
        exact save_execute_eq rfl kapp

theorem weigh_eq_ok_iff {app : App} {stack : Uuid} {name : String} {events : List Event}
    {version : Nat} {kapp : Kapp} : app.weigh stack name events = .ok (version, kapp) ↔
      Stack.Lawful stack events ∧ version = events.length ∧ app.gate.resolve name = .ok kapp := by
  rw [weigh, bind_eq_ok_iff]
  simp only [bind_eq_ok_iff, mapError_eq_ok_iff, Stack.ofHistory_eq_ok_iff, Stack.applyAll_blank]
  constructor
  · rintro ⟨history, ⟨hlawful, rfl⟩, kapp', hkapp, heq⟩
    cases heq
    exact ⟨hlawful, rfl, hkapp⟩
  · rintro ⟨hlawful, rfl, hkapp⟩
    exact ⟨_, ⟨hlawful, rfl⟩, kapp, hkapp, rfl⟩

def each (app : App) (stack : Uuid) (names : List String) (version : Nat) : Service Nat :=
  names.foldlM (fun _ name => app.dispatch stack name) version

theorem dispatchAll_eq (app : App) (stack : Uuid) (names : List String) :
    (app.dispatchAll stack names).run = .ask (.version stack) fun result =>
      reply result fun version => if version = 0 then .done (.error (.notFound stack))
        else (app.each stack names version).run := by
  refine congrArg (Plan.ask _) (funext fun result => ?_)
  cases result with
  | error error => rfl
  | ok version =>
    cases version with
    | zero => rfl
    | succ version => rfl

def eachAfter (app : App) (stack : Uuid) (names : List String) :
    Except AppError Nat → Plan (Except AppError Nat)
  | .ok version => (app.each stack names version).run
  | .error error => .done (.error error)

theorem each_cons (app : App) (stack : Uuid) (name : String) (names : List String)
    (version : Nat) : (app.each stack (name :: names) version).run =
      (app.dispatch stack name).run.bind (app.eachAfter stack names) := by
  refine congrArg (Plan.bind _) (funext fun result => ?_)
  cases result <;> rfl

theorem each_single (app : App) (stack : Uuid) (name : String) (version : Nat) :
    (app.each stack [name] version).run = (app.dispatch stack name).run := by
  have hafter : app.eachAfter stack [] = .done := by
    funext outcome
    cases outcome <;> rfl
  rw [each_cons, hafter, Plan.bind_done]

theorem push_eq (app : App) (stack : Uuid) (value : Int64) : (app.push stack value).run =
    match literal value with
    | .ok kapps => (app.dispatchAll stack (kapps.map Kapp.name)).run
    | .error error => .done (.error error) := by
  rw [push]
  cases literal value <;> rfl

theorem items_eq (stack : Uuid) : (items stack).run = .ask (.load stack) fun result =>
    reply result fun events => .done (((Stack.ofHistory stack events).mapError
      (AppError.ofHistory stack)).map Stack.items) := by
  refine congrArg (Plan.ask _) (funext fun result => ?_)
  cases result with
  | error error => rfl
  | ok events =>
    show (Service.ofExcept ((Stack.ofHistory stack events).mapError (AppError.ofHistory stack)) >>=
      fun history => (pure history.items : Service (List Int64))).run =
      .done (((Stack.ofHistory stack events).mapError (AppError.ofHistory stack)).map Stack.items)
    cases Stack.ofHistory stack events <;> rfl

end App

end StackJournal
