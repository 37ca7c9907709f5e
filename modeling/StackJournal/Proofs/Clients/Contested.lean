import StackJournal.Proofs.Clients.Dispatch

/-! # A list of names among rivals

Each request of a client may fail without effect, and other writers may append before it. Whatever
happens, a list of names is applied up to the first that is refused: the client has recorded one event
for each name before, in their order, and none for the others.
-/
namespace StackJournal

structure Event.Records (stack : Uuid) (name : String) (event : Event) : Prop where
  own : event.stack = stack
  plain : event.payload = none
  named : ∃ kapp : Kapp, name = kapp.name ∧ event.kind = .kapp kapp

namespace Store

def yieldTo (store : Store) (rivals : List (Timestamp × Call)) : Store :=
  rivals.foldl (fun store (now, call) =>
    (store.answers now .sound (.append call.stack call.expected call.kind call.payload)).2) store

def addedTo (after before : Store) : List Event :=
  after.log.events.toList.drop before.log.lastPosition

end Store

/-- What a request meets: first the calls of other writers, then the error with which it fails, if
it does. -/
structure Encounter where
  now : Timestamp
  rivals : List (Timestamp × Call)
  failure : Option StoreError

structure Contested where
  store : Store
  /-- The number of the client's requests so far. -/
  asked : Nat
  /-- The events that they added. -/
  own : List Event

namespace Contested

def start (store : Store) : Contested := ⟨store, 0, []⟩

def answers (encounters : Nat → Encounter) : Answers Contested := fun request state =>
  let met := state.store.yieldTo (encounters state.asked).rivals
  match (encounters state.asked).failure with
  | some error => (.error error, ⟨met, state.asked + 1, state.own⟩)
  | none =>
    let served := met.answers (encounters state.asked).now .sound request
    (served.1, ⟨served.2, state.asked + 1, state.own ++ served.2.addedTo met⟩)

def call {α : Type} (state : Contested) (encounters : Nat → Encounter) (service : Service α) :
    Except AppError α × Contested :=
  service.run.run (answers encounters) state

end Contested

namespace Store

theorem Sound.append_cases {store : Store} (h : store.Sound) (now : Timestamp) (call : Call) :
    let answer := store.answers now .sound
      (.append call.stack call.expected call.kind call.payload)
    (∃ error, answer.1 = .error error) ∧ answer.2.log = store.log ∨
      answer.1 = .ok (store.log.numbers call) ∧
        answer.2.log = store.log.insert (call.event now (store.log.numbers call)) := by
  obtain ⟨hreply, hlog, _⟩ := h.answersAsLog now
    (.append call.stack call.expected call.kind call.payload)
  by_cases hcurrent : store.log.version call.stack = call.expected
  · have hanswer : store.log.answers now
        (.append call.stack call.expected call.kind call.payload) = _ :=
      Log.append_current hcurrent now
    rw [hanswer] at hreply hlog
    exact Or.inr ⟨hreply, hlog⟩
  · have hanswer : store.log.answers now
        (.append call.stack call.expected call.kind call.payload) = _ :=
      Log.append_behind hcurrent now
    rw [hanswer] at hreply hlog
    exact Or.inl ⟨⟨_, hreply⟩, hlog⟩

/-- An append is refused without a trace in the log, or it adds its event. -/
theorem append_cases (store : Store) (now : Timestamp) (call : Call) :
    let answer := store.answers now .sound
      (.append call.stack call.expected call.kind call.payload)
    (∃ error, answer.1 = .error error) ∧ answer.2.log = store.log ∨
      answer.1 = .ok (store.log.numbers call) ∧
        answer.2.log = store.log.insert (call.event now (store.log.numbers call)) := by
  cases store with
  | memory log =>
    have hsound : (memory log).Sound := trivial
    exact hsound.append_cases now call
  | journal journal =>
    cases hpoisoned : journal.poisoned with
    | false =>
      have hsound : (Store.journal journal).Sound := hpoisoned
      exact hsound.append_cases now call
    | true =>
      have htake := Journal.take_poisoned hpoisoned now .sound call
      exact Or.inl ⟨⟨.poisoned, congrArg Prod.fst htake⟩, congrArg (·.2.log) htake⟩

theorem answers_reads {request : Request} (h : request.Reads) (store : Store) (now : Timestamp)
    (disk : Disk) : (store.answers now disk request).2 = store := by
  cases request with
  | append => exact h.elim
  | load _ | version _ | read _ _ | last => cases store <;> rfl

theorem answers_extends (store : Store) (now : Timestamp) (request : Request) :
    (store.answers now .sound request).2.log.Extends store.log := by
  cases request with
  | append stack expected kind payload =>
    obtain ⟨_, hlog⟩ | ⟨_, hlog⟩ := store.append_cases now ⟨stack, expected, kind, payload⟩
    · rw [hlog]
      exact .refl _
    · rw [hlog]
      exact store.log.extends_insert _
  | load _ | version _ | read _ _ | last => cases store <;> exact .refl _

theorem yieldTo_extends (store : Store) (rivals : List (Timestamp × Call)) :
    (store.yieldTo rivals).log.Extends store.log := by
  induction rivals generalizing store with
  | nil => exact .refl _
  | cons rival rivals ih => exact (ih _).trans (store.answers_extends rival.1 _)

theorem addedTo_eq_nil {after before : Store} (h : after.log = before.log) :
    after.addedTo before = [] := by
  simp [addedTo, h, Log.lastPosition]

theorem addedTo_insert {after before : Store} {event : Event}
    (h : after.log = before.log.insert event) : after.addedTo before = [event] := by
  simp [addedTo, h, Log.insert, Log.lastPosition]

/-- A longer log has the events of the shorter one and those added. -/
theorem append_addedTo {after before : Store} (h : after.log.Extends before.log) :
    before.log.events.toList ++ after.addedTo before = after.log.events.toList := by
  obtain ⟨added, hadded⟩ := h
  simp [addedTo, ← hadded, Log.lastPosition]

end Store

namespace Contested

variable {encounters : Nat → Encounter} {state : Contested} {stack : Uuid}

/-- The events counted as the client's own are in the log, in their order. -/
def Accounted (state : Contested) : Prop := state.own.Sublist state.store.log.events.toList

theorem accounted_start (store : Store) : (start store).Accounted := List.nil_sublist _

theorem Accounted.answers (h : state.Accounted) (request : Request) :
    (answers encounters request state).2.Accounted := by
  have hmet : state.own.Sublist
      (state.store.yieldTo (encounters state.asked).rivals).log.events.toList :=
    List.Sublist.trans h (state.store.yieldTo_extends _).sublist
  rw [Contested.answers]
  cases (encounters state.asked).failure with
  | some error => exact hmet
  | none =>
    have hextends := (state.store.yieldTo (encounters state.asked).rivals).answers_extends
      (encounters state.asked).now request
    rw [Accounted]
    simp only [← Store.append_addedTo hextends]
    exact hmet.append (List.Sublist.refl _)

theorem Accounted.run {α : Type} (h : state.Accounted) (plan : Plan α) :
    (plan.run (Contested.answers encounters) state).2.Accounted := by
  induction plan generalizing state with
  | done value => exact h
  | ask request next ih => exact ih _ (h.answers request)

/-- A request that reads adds nothing. -/
theorem own_reads {request : Request} (h : request.Reads) :
    (answers encounters request state).2.own = state.own := by
  rw [answers]
  cases (encounters state.asked).failure with
  | some error => rfl
  | none => simp [Store.answers_reads h, Store.addedTo_eq_nil]

/-- An append fails and adds nothing, or it adds its event. -/
theorem own_append (encounters : Nat → Encounter) (state : Contested) (call : Call) :
    let answer := answers encounters
      (.append call.stack call.expected call.kind call.payload) state
    (∃ error, answer.1 = .error error) ∧ answer.2.own = state.own ∨
      ∃ now appended, answer.1 = .ok appended ∧ appended.version = call.expected + 1 ∧
        answer.2.own = state.own ++ [call.event now appended] := by
  simp only [answers]
  cases (encounters state.asked).failure with
  | some error => exact Or.inl ⟨⟨error, rfl⟩, rfl⟩
  | none =>
    obtain ⟨⟨error, hreply⟩, hlog⟩ | ⟨hreply, hlog⟩ :=
      (state.store.yieldTo (encounters state.asked).rivals).append_cases
        (encounters state.asked).now call
    · exact Or.inl ⟨⟨error, hreply⟩, by simp [Store.addedTo_eq_nil hlog]⟩
    · exact Or.inr ⟨(encounters state.asked).now, _, hreply, rfl, by simp [Store.addedTo_insert hlog]⟩

/-- A dispatch fails and adds nothing, or it adds the event that records its name. -/
theorem dispatch_cases (app : App) (encounters : Nat → Encounter) (state : Contested)
    (stack : Uuid) (name : String) :
    let ran := state.call encounters (app.dispatch stack name)
    (∃ error, ran.1 = .error error) ∧ ran.2.own = state.own ∨
      ∃ event, event.Records stack name ∧ ran.1 = .ok event.sequence ∧
        ran.2.own = state.own ++ [event] := by
  have hload : (answers encounters (.load stack) state).2.own = state.own := own_reads trivial
  simp only [call, App.dispatch_eq, Plan.run_ask]
  generalize answers encounters (.load stack) state = loaded at hload ⊢
  obtain ⟨reply, loaded⟩ := loaded
  cases reply with
  | error failure => exact Or.inl ⟨⟨_, rfl⟩, hload⟩
  | ok events =>
    simp only [App.reply]
    cases hweighed : app.weigh stack name events with
    | error error => exact Or.inl ⟨⟨_, rfl⟩, hload⟩
    | ok weighed =>
      obtain ⟨version, kapp⟩ := weighed
      obtain ⟨history, hgrants, _⟩ := App.weigh_eq_ok_iff_grants.mp hweighed
      have happend := own_append encounters loaded ⟨stack, version, .kapp kapp, none⟩
      simp only [App.writeWeighed, App.write, Plan.run_ask] at happend ⊢
      generalize answers encounters (.append stack version (.kapp kapp) none) loaded = written
        at happend ⊢
      obtain ⟨reply, written⟩ := written
      obtain ⟨⟨failure, rfl⟩, hown⟩ | ⟨now, appended, rfl, hversion, hown⟩ := happend
      · exact Or.inl ⟨⟨_, rfl⟩, hown.trans hload⟩
      · have hown : written.own = _ := hown
        have hload : loaded.own = state.own := hload
        refine Or.inr ⟨_, ⟨rfl, rfl, kapp, hgrants.named, rfl⟩, ?_, hown.trans (by rw [hload])⟩
        simp [App.reply, Plan.run, Call.event, hversion]

/-- The version after some events: that of the last, or the one before if there are none. -/
def versionAfter (version : Nat) (events : List Event) : Nat :=
  (events.getLast?.map (·.sequence)).getD version

@[simp] theorem versionAfter_cons (version : Nat) (event : Event) (events : List Event) :
    versionAfter version (event :: events) = versionAfter event.sequence events := by
  simp only [versionAfter, List.getLast?_cons, Option.map_some, Option.getD_some]
  cases events.getLast? <;> rfl

/-- What a run over names comes to, where `runs` are the runs over any names. All are applied, and
the answer is the version after the last; or those before some name are, and the error is the one
with which that name is refused where they have led. -/
inductive Applied (app : App) (encounters : Nat → Encounter) (stack : Uuid) (version : Nat)
    (own : List Event) (runs : List String → Except AppError Nat × Contested)
    (names : List String) : Except AppError Nat × Contested → Prop where
  | all {events : List Event} {after : Contested}
      (records : List.Forall₂ (Event.Records stack) names events)
      (adds : after.own = own ++ events) :
      Applied app encounters stack version own runs names
        (.ok (versionAfter version events), after)
  | upTo {before rest : List String} {name : String} {events : List Event} {reached after : Contested}
      {number : Nat} {error : AppError} (split : names = before ++ name :: rest)
      (ran : runs before = (.ok number, reached))
      (records : List.Forall₂ (Event.Records stack) before events)
      (adds : reached.own = own ++ events)
      (fails : reached.call encounters (app.dispatch stack name) = (.error error, after))
      (nothing : after.own = reached.own) :
      Applied app encounters stack version own runs names (.error error, after)

section Each

variable {app : App} {name : String} {after : Contested}

theorem call_each_ok {next : Nat}
    (h : state.call encounters (app.dispatch stack name) = (.ok next, after)) (names : List String)
    (version : Nat) : state.call encounters (app.each stack (name :: names) version) =
      after.call encounters (app.each stack names next) := by
  rw [call] at h
  rw [call, App.each_cons, Plan.run_bind, h]
  rfl

theorem call_each_error {error : AppError}
    (h : state.call encounters (app.dispatch stack name) = (.error error, after))
    (names : List String) (version : Nat) :
    state.call encounters (app.each stack (name :: names) version) = (.error error, after) := by
  rw [call] at h
  rw [call, App.each_cons, Plan.run_bind, h]
  rfl

end Each

theorem each_applied (app : App) (encounters : Nat → Encounter) (stack : Uuid)
    (names : List String) (state : Contested) (version : Nat) :
    Applied app encounters stack version state.own
      (fun names => state.call encounters (app.each stack names version)) names
      (state.call encounters (app.each stack names version)) := by
  induction names generalizing state version with
  | nil => exact .all .nil (List.append_nil _).symm
  | cons name names ih =>
    have hdispatch := dispatch_cases app encounters state stack name
    generalize hran : state.call encounters (app.dispatch stack name) = ran at hdispatch
    obtain ⟨outcome, after⟩ := ran
    obtain ⟨⟨error, rfl⟩, hown⟩ | ⟨event, hrecords, rfl, hown⟩ := hdispatch
    · rw [call_each_error hran]
      exact .upTo (List.nil_append _).symm rfl .nil (List.append_nil _).symm hran hown
    · have hown : after.own = state.own ++ [event] := hown
      have hrest := ih after event.sequence
      rw [call_each_ok hran]
      generalize after.call encounters (app.each stack names event.sequence) = rest at hrest ⊢
      cases hrest with
      | all records adds =>
        rw [← versionAfter_cons version]
        exact .all (.cons hrecords records) (by simp [adds, hown])
      | upTo split ran records adds fails nothing =>
        have hran := (call_each_ok hran _ version).trans ran
        exact .upTo (by rw [split, List.cons_append]) hran (.cons hrecords records)
          (by simp [adds, hown]) fails nothing

/-- Whatever requests fail and whoever comes before them, dispatching a list of names looks up the
version of the stack, and ends there if that fails or the stack has no events. Else it applies all
names, or those up to the first that is refused: one event each, in their order. -/
theorem dispatchAll_applies_prefix (app : App) (encounters : Nat → Encounter) (store : Store)
    (stack : Uuid) (names : List String) :
    let runs := fun names => (start store).call encounters (app.dispatchAll stack names)
    let lookup := answers encounters (.version stack) (start store)
    lookup.2.own = [] ∧
      (∀ failure, lookup.1 = .error failure → runs names = (.error (.ofStore failure), lookup.2)) ∧
      (lookup.1 = .ok 0 → runs names = (.error (.notFound stack), lookup.2)) ∧
      (∀ found, lookup.1 = .ok found → found ≠ 0 →
        Applied app encounters stack found [] runs names (runs names)) ∧
      (runs names).2.Accounted := by
  intro runs lookup
  have hown : lookup.2.own = [] := own_reads trivial
  have hruns : ∀ names, runs names = (App.reply lookup.1 fun version =>
      if version = 0 then .done (.error (.notFound stack))
      else (app.each stack names version).run).run (answers encounters) lookup.2 := by
    intro names
    simp only [runs, call, App.dispatchAll_eq, Plan.run_ask]
    rfl
  refine ⟨hown, ?_, ?_, ?_, (accounted_start store).run _⟩
  · intro failure hfailure
    rw [hruns, hfailure]
    rfl
  · intro hnone
    rw [hruns, hnone]
    rfl
  · intro found hfound hsome
    have heach : runs = fun names => lookup.2.call encounters (app.each stack names found) := by
      funext names
      rw [hruns, hfound]
      simp only [App.reply, if_neg hsome]
      rfl
    rw [heach, ← hown]
    exact each_applied app encounters stack names lookup.2 found

/-- A rival is faster with the second event, and the client has recorded the first. -/
example :
    let rival (n : Nat) : Encounter :=
      ⟨.epoch, if n = 4 then [(.epoch, ⟨⟨0⟩, 2, .kapp .dup, none⟩)] else [], none⟩
    let ran := (start Store.begun).call rival (App.standard.dispatchAll ⟨0⟩ ["zero", "succ"])
    ran.1 = .error (.conflict ⟨0⟩ 2 3) ∧
      ran.2.own = [⟨⟨0⟩, 2, .kapp .zero, none, 2, .epoch⟩] := ⟨rfl, rfl⟩

end Contested

end StackJournal
