import StackJournal.Proofs.Clients.Progress

/-! # A client that is alone

A store serves if it answers every request as its log does at some moment. On such a store, with no one
else to write to it, a call does what its weighing of the history says: it records one event, or none.
-/
namespace StackJournal

namespace Log

def recorded (log : Log) (now : Timestamp) (stack : Uuid) (kind : EventKind) : Log :=
  log.insert ⟨stack, log.version stack + 1, kind, none, log.lastPosition + 1, now⟩

variable {log : Log}

theorem Ordered.recorded (h : log.Ordered) (now : Timestamp) (stack : Uuid) (kind : EventKind) :
    (log.recorded now stack kind).Ordered := h.insert rfl rfl

theorem Indexed.load_recorded (h : log.Indexed) (now : Timestamp) (stack : Uuid)
    (kind : EventKind) : (log.recorded now stack kind).load stack = log.load stack ++
      [⟨stack, log.version stack + 1, kind, none, log.lastPosition + 1, now⟩] :=
  h.load_insert ⟨stack, log.version stack + 1, kind, none, log.lastPosition + 1, now⟩

theorem append_recorded (log : Log) (now : Timestamp) (stack : Uuid) (kind : EventKind) :
    log.append now stack (log.version stack) kind none =
      (.ok ⟨log.version stack + 1, log.lastPosition + 1⟩, log.recorded now stack kind) :=
  append_taken rfl now kind none

structure Gains (before : Log) (stack : Uuid) (kinds : List EventKind) (after : Log) : Prop where
  ordered : after.Ordered
  added : ∃ events, after.events.toList = before.events.toList ++ events ∧
    (∀ event ∈ events, event.stack = stack) ∧ events.map (·.kind) = kinds

theorem Ordered.gains_nil (h : log.Ordered) (stack : Uuid) : log.Gains stack [] log :=
  ⟨h, [], (List.append_nil _).symm, fun _ he => absurd he List.not_mem_nil, rfl⟩

theorem Ordered.gains_recorded (h : log.Ordered) (now : Timestamp) (stack : Uuid)
    (kind : EventKind) : log.Gains stack [kind] (log.recorded now stack kind) := by
  refine ⟨h.recorded now stack kind, [⟨stack, _, kind, none, _, now⟩], Array.toList_push, ?_, rfl⟩
  intro event hevent
  rw [List.mem_singleton.mp hevent]

theorem Gains.trans {longer longest : Log} {stack : Uuid} {kinds more : List EventKind}
    (h : log.Gains stack kinds longer) (h' : longer.Gains stack more longest) :
    log.Gains stack (kinds ++ more) longest := by
  obtain ⟨_, events, hlonger, hown, hkinds⟩ := h
  obtain ⟨ordered, later, hlongest, hown', hmore⟩ := h'
  refine ⟨ordered, events ++ later, ?_, ?_, ?_⟩
  · rw [hlongest, hlonger, List.append_assoc]
  · intro event hevent
    rcases List.mem_append.mp hevent with hevent | hevent
    · exact hown event hevent
    · exact hown' event hevent
  · rw [List.map_append, hkinds, hmore]

/-- A history that can be replayed can be replayed with one more kapp. -/
theorem Ordered.lawful_recorded (h : log.Ordered) {stack : Uuid}
    (lawful : Stack.Lawful stack (log.load stack)) (now : Timestamp) (kapp : Kapp) :
    Stack.Lawful stack ((log.recorded now stack (.kapp kapp)).load stack) := by
  rw [h.indexed.load_recorded]
  exact lawful.append rfl (congrArg (· + 1) (h.indexed.length_load stack).symm) fun hkind =>
    nomatch hkind

section Accepted

variable {stack : Uuid} {history : Stack}

theorem Ordered.version_accepted (h : log.Ordered)
    (accepted : Stack.ofHistory stack (log.load stack) = .ok history) :
    history.version = log.version stack := by
  obtain ⟨_, rfl⟩ := Stack.ofHistory_eq_ok_iff.mp accepted
  rw [Stack.applyAll_blank, h.indexed.length_load]

/-- A history that is replayed is replayed with one more kapp, to the items it makes of the old ones. -/
theorem Ordered.ofHistory_recorded (h : log.Ordered)
    (accepted : Stack.ofHistory stack (log.load stack) = .ok history) (now : Timestamp)
    (kapp : Kapp) : Stack.ofHistory stack ((log.recorded now stack (.kapp kapp)).load stack) =
      .ok (history.apply (.kapp kapp)) := by
  obtain ⟨hlawful, rfl⟩ := Stack.ofHistory_eq_ok_iff.mp accepted
  refine Stack.ofHistory_eq_ok_iff.mpr ⟨h.lawful_recorded hlawful now kapp, ?_⟩
  simp [h.indexed.load_recorded, Stack.applyAll]

/-- The history of a stack that was just created is replayed to no items. -/
theorem Indexed.ofHistory_created (h : log.Indexed) (unused : log.version stack = 0)
    (now : Timestamp) : Stack.ofHistory stack ((log.recorded now stack .create).load stack) =
      .ok ⟨stack, 1, [], #[]⟩ := by
  have hnone : log.load stack = [] := by
    apply List.eq_nil_of_length_eq_zero
    rw [h.length_load, unused]
  rw [h.load_recorded, hnone, unused]
  exact Stack.ofHistory_eq_ok_iff.mpr ⟨Stack.lawful_create rfl rfl rfl, rfl⟩

end Accepted

end Log

/-- A store in a sound state answers a request as its log does at some moment, and stays sound. -/
def Serves {σ : Type} (answers : Answers σ) (sound : σ → Prop) (log : σ → Log) : Prop :=
  ∀ state, sound state → ∀ request, ∃ now,
    (answers request state).1 = ((log state).answers now request).1 ∧
      log (answers request state).2 = ((log state).answers now request).2 ∧
      sound (answers request state).2

namespace Store

def answersBy (clock : Store → Timestamp) : Answers Store := fun request store =>
  answers (clock store) .sound request store

theorem serves_by (clock : Store → Timestamp) : Serves (answersBy clock) Sound log := by
  intro store hsound request
  have hanswers := hsound.answersAsLog (clock store) request
  exact ⟨clock store, hanswers.reply, hanswers.log, hanswers.sound⟩

theorem serves (now : Timestamp) : Serves (answers now .sound) Sound log := serves_by fun _ => now

end Store

namespace App

inductive Dispatched (app : App) (stack : Uuid) (name : String) (log : Log) :
    Except AppError Nat → Log → Prop where
  | refused {error : AppError} (weighed : app.weigh stack name (log.load stack) = .error error) :
      Dispatched app stack name log (.error error) log
  | recorded {kapp : Kapp} {now : Timestamp}
      (weighed : app.weigh stack name (log.load stack) = .ok (log.version stack, kapp)) :
      Dispatched app stack name log (.ok (log.version stack + 1))
        (log.recorded now stack (.kapp kapp))

/-- A call changes nothing, or it records events of allowed kinds of a stack and leaves it with a
history that can be replayed. -/
inductive Outright (stack : Uuid) (allowed : List EventKind → Prop) (before : Log) :
    Except AppError Nat → Log → Prop where
  | refused {error : AppError} : Outright stack allowed before (.error error) before
  | recorded {version : Nat} {kinds : List EventKind} {after : Log} (allows : allowed kinds)
      (gains : before.Gains stack kinds after) (lawful : Stack.Lawful stack (after.load stack)) :
      Outright stack allowed before (.ok version) after

variable {app : App} {stack : Uuid} {name : String} {log after : Log}
variable {outcome : Except AppError Nat}

theorem Dispatched.ordered (h : app.Dispatched stack name log outcome after)
    (ordered : log.Ordered) : after.Ordered := by
  cases h with
  | refused _ => exact ordered
  | recorded _ => exact ordered.recorded _ _ _

theorem Dispatched.outright (h : app.Dispatched stack name log outcome after)
    (ordered : log.Ordered) :
    Outright stack (fun kinds => ∃ kapp : Kapp, name = kapp.name ∧ kinds = [.kapp kapp]) log outcome
      after := by
  cases h with
  | refused _ => exact .refused
  | @recorded kapp now weighed =>
    obtain ⟨hlawful, _, hresolve⟩ := weigh_eq_ok_iff.mp weighed
    exact .recorded ⟨kapp, (Gate.resolve_eq_ok_iff.mp hresolve).2, rfl⟩
      (ordered.gains_recorded now stack _) (ordered.lawful_recorded hlawful now kapp)

theorem resolve_standard (kapp : Kapp) : standard.gate.resolve kapp.name = .ok kapp :=
  Gate.resolve_eq_ok_iff.mpr
    ⟨Gate.isGrounded_standard_iff.mpr (List.mem_map_of_mem kapp.mem_all), rfl⟩

/-- In the standard application just the history decides whether a kapp is recorded. -/
theorem Dispatched.standard_cases {kapp : Kapp}
    (h : standard.Dispatched stack kapp.name log outcome after) :
    (¬Stack.Lawful stack (log.load stack) ∧ (∃ error, outcome = .error error) ∧ after = log) ∨
      Stack.Lawful stack (log.load stack) ∧ ∃ now, outcome = .ok (log.version stack + 1) ∧
        after = log.recorded now stack (.kapp kapp) := by
  cases h with
  | @refused error weighed =>
    refine Or.inl ⟨fun hlawful => ?_, ⟨error, rfl⟩, rfl⟩
    have hweigh := weigh_eq_ok_iff.mpr ⟨hlawful, rfl, resolve_standard kapp⟩
    rw [weighed] at hweigh
    cases hweigh
  | @recorded recorded now weighed =>
    obtain ⟨hlawful, _, hresolve⟩ := weigh_eq_ok_iff.mp weighed
    rw [resolve_standard] at hresolve
    cases hresolve
    exact Or.inr ⟨hlawful, now, rfl, rfl⟩

end App

namespace Serves

variable {σ α : Type} {answers : Answers σ} {sound : σ → Prop} {log : σ → Log} {state : σ}

/-- A plan goes on with what the log answers to its first request. -/
theorem run_ask (h : Serves answers sound log) (hsound : sound state) (request : Request)
    (next : request.Reply → Plan α) : ∃ now after, sound after ∧
      log after = ((log state).answers now request).2 ∧
      (Plan.ask request next).run answers state =
        (next ((log state).answers now request).1).run answers after := by
  obtain ⟨now, hreply, hlog, hafter⟩ := h state hsound request
  exact ⟨now, _, hafter, hlog, by rw [Plan.run_ask, hreply]⟩

theorem sound_run (h : Serves answers sound log) (hsound : sound state) (plan : Plan α) :
    sound (plan.run answers state).2 := by
  induction plan generalizing state with
  | done value => exact hsound
  | ask request next ih =>
    obtain ⟨_, _, _, hafter⟩ := h state hsound request
    exact ih _ hafter

/-- A plan that only reads leaves the log alone. -/
theorem run_reads (h : Serves answers sound log) (hsound : sound state) {plan : Plan α}
    {ends : α → Prop} (obeys : plan.Obeys Request.Reads (fun _ _ => True) ends) :
    ends (plan.run answers state).1 ∧ log (plan.run answers state).2 = log state ∧
      sound (plan.run answers state).2 := by
  induction plan generalizing state with
  | done value => exact ⟨obeys, rfl, hsound⟩
  | ask request next ih =>
    obtain ⟨hreads, hnext⟩ := obeys
    obtain ⟨now, after, hafter, hlog, hrun⟩ := h.run_ask hsound request next
    rw [hreads.answers_log] at hlog
    rw [hrun, ← hlog]
    exact ih _ hafter (hnext _ trivial)

theorem run_dispatch (h : Serves answers sound log) (hsound : sound state)
    (indexed : (log state).Indexed) (app : App) (stack : Uuid) (name : String) :
    app.Dispatched stack name (log state) ((app.dispatch stack name).run.run answers state).1
        (log ((app.dispatch stack name).run.run answers state).2) ∧
      sound ((app.dispatch stack name).run.run answers state).2 := by
  obtain ⟨now, loaded, hloaded, hlog, hrun⟩ := h.run_ask hsound (.load stack) fun result =>
    App.reply result fun events => App.writeWeighed stack (app.weigh stack name events)
  have hsame : log loaded = log state := hlog
  have hdispatch : (app.dispatch stack name).run.run answers state =
      (App.writeWeighed stack (app.weigh stack name ((log state).load stack))).run answers
        loaded := by
    rw [App.dispatch_eq, hrun]
    rfl
  rw [hdispatch]
  cases hweighed : app.weigh stack name ((log state).load stack) with
  | error error => exact ⟨hsame.symm ▸ .refused hweighed, hloaded⟩
  | ok weighed =>
    obtain ⟨version, kapp⟩ := weighed
    -- the version found is the one the log is still at, so the append is taken
    obtain ⟨_, hversion, _⟩ := App.weigh_eq_ok_iff.mp hweighed
    rw [indexed.length_load] at hversion
    subst hversion
    obtain ⟨now, after, hafter, hlog, hrun⟩ := h.run_ask hloaded
      (.append stack ((log state).version stack) (.kapp kapp) none) fun result =>
        App.reply result fun _ => .done (.ok ((log state).version stack + 1))
    have hanswer : (log state).answers now
        (.append stack ((log state).version stack) (.kapp kapp) none) = _ :=
      (log state).append_recorded now stack (.kapp kapp)
    rw [hsame, hanswer] at hlog hrun
    rw [App.writeWeighed, App.write, hrun]
    exact ⟨hlog ▸ .recorded hweighed, hafter⟩

theorem run_items (h : Serves answers sound log) (hsound : sound state) (stack : Uuid) :
    ((App.items stack).run.run answers state).1 =
      ((Stack.ofHistory stack ((log state).load stack)).mapError
        (AppError.ofHistory stack)).map Stack.items := by
  obtain ⟨now, loaded, _, _, hrun⟩ := h.run_ask hsound (.load stack) fun result =>
    App.reply result fun events => .done (((Stack.ofHistory stack events).mapError
      (AppError.ofHistory stack)).map Stack.items)
  rw [App.items_eq, hrun]
  rfl

/-- The first of several kapps is refused with the history, or it is recorded and the others follow. -/
theorem run_each_cons (h : Serves answers sound log) (hsound : sound state)
    (indexed : (log state).Indexed) (stack : Uuid) (kapp : Kapp) (kapps : List Kapp)
    (version : Nat) :
    let ran :=
      (App.standard.each stack ((kapp :: kapps).map Kapp.name) version).run.run answers state
    (¬Stack.Lawful stack ((log state).load stack) ∧ ∃ error after, ran = (.error error, after) ∧
        sound after ∧ log after = log state) ∨
      Stack.Lawful stack ((log state).load stack) ∧ ∃ now after,
        ran = (App.standard.each stack (kapps.map Kapp.name)
          ((log state).version stack + 1)).run.run answers after ∧
        sound after ∧ log after = (log state).recorded now stack (.kapp kapp) := by
  obtain ⟨hdispatched, hafter⟩ := h.run_dispatch hsound indexed App.standard stack kapp.name
  rw [List.map_cons, App.each_cons, Plan.run_bind]
  generalize (App.standard.dispatch stack kapp.name).run.run answers state = dispatched
    at hdispatched hafter ⊢
  obtain ⟨outcome, after⟩ := dispatched
  simp only at hdispatched hafter ⊢
  obtain ⟨hrefused, ⟨error, rfl⟩, hlog⟩ | ⟨hlawful, now, rfl, hlog⟩ := hdispatched.standard_cases
  · exact Or.inl ⟨hrefused, error, after, rfl, hafter, hlog⟩
  · exact Or.inr ⟨hlawful, now, after, rfl, hafter, hlog⟩

/-- Where a history is replayed, all kapps are recorded, and it is then replayed to what they make of
the stack. -/
theorem run_each (h : Serves answers sound log) (hsound : sound state)
    (ordered : (log state).Ordered) {stack : Uuid} {history : Stack}
    (accepted : Stack.ofHistory stack ((log state).load stack) = .ok history) (kapps : List Kapp) :
    ∃ after, (App.standard.each stack (kapps.map Kapp.name) history.version).run.run answers
        state = (.ok (history.version + kapps.length), after) ∧ sound after ∧
      (log state).Gains stack (kapps.map .kapp) (log after) ∧
      Stack.ofHistory stack ((log after).load stack) = .ok (history.applyKapps kapps) := by
  induction kapps generalizing state history with
  | nil => exact ⟨state, rfl, hsound, ordered.gains_nil stack, accepted⟩
  | cons kapp kapps ih =>
    obtain ⟨hrefused, _⟩ | ⟨_, now, after, hrun, hafter, hlog⟩ :=
      h.run_each_cons hsound ordered.indexed stack kapp kapps history.version
    · exact absurd (Stack.exists_ofHistory_iff.mp ⟨history, accepted⟩) hrefused
    have hgains := ordered.gains_recorded now stack (.kapp kapp)
    have hhistory := ordered.ofHistory_recorded accepted now kapp
    rw [← hlog] at hgains hhistory
    obtain ⟨final, hrest, hfinal, hmore, hlast⟩ := ih hafter hgains.ordered hhistory
    rw [← ordered.version_accepted accepted] at hrun
    refine ⟨final, ?_, hfinal, hgains.trans hmore, hlast⟩
    rw [List.length_cons, Nat.add_comm kapps.length, ← Nat.add_assoc]
    exact hrun.trans hrest

/-- Dispatching names looks up the version first. -/
theorem run_dispatchAll (h : Serves answers sound log) (hsound : sound state) (app : App)
    (stack : Uuid) (names : List String) : ∃ asked, sound asked ∧ log asked = log state ∧
      (app.dispatchAll stack names).run.run answers state =
        (if (log state).version stack = 0 then .done (.error (.notFound stack))
          else (app.each stack names ((log state).version stack)).run).run answers asked := by
  obtain ⟨now, asked, hasked, hlog, hrun⟩ := h.run_ask hsound (.version stack) fun result =>
    App.reply result fun version => if version = 0 then .done (.error (.notFound stack))
      else (app.each stack names version).run
  refine ⟨asked, hasked, hlog, ?_⟩
  rw [App.dispatchAll_eq, hrun]
  rfl

/-- A push records all its kapps or none. -/
theorem run_push (h : Serves answers sound log) (hsound : sound state)
    (ordered : (log state).Ordered) (stack : Uuid) (value : Int64) :
    App.Outright stack (· = (Kapp.literal value).map .kapp) (log state)
        ((App.standard.push stack value).run.run answers state).1
        (log ((App.standard.push stack value).run.run answers state).2) ∧
      sound ((App.standard.push stack value).run.run answers state).2 := by
  rw [App.push_eq, App.literal]
  by_cases hlarge : App.maxLiteral < value.toInt.natAbs
  · rw [if_pos hlarge]
    exact ⟨.refused, hsound⟩
  rw [if_neg hlarge]
  simp only
  obtain ⟨asked, hasked, hsame, hpush⟩ :=
    h.run_dispatchAll hsound .standard stack ((Kapp.literal value).map Kapp.name)
  rw [hpush, ← hsame]
  by_cases hnone : (log asked).version stack = 0
  · rw [if_pos hnone]
    exact ⟨.refused, hasked⟩
  rw [if_neg hnone]
  rw [← hsame] at ordered
  -- a literal has a first kapp, and with it the history is refused before anything is written
  obtain ⟨_, error, after, hrun, hafter, hlog⟩ | ⟨hlawful, _⟩ :=
    h.run_each_cons hasked ordered.indexed stack .zero
      (List.replicate value.toInt.natAbs (Kapp.literalStep value)) ((log asked).version stack)
  · rw [Kapp.literal, hrun, ← hlog]
    exact ⟨.refused, hafter⟩
  · obtain ⟨history, accepted⟩ := Stack.exists_ofHistory_iff.mpr hlawful
    obtain ⟨after, hrun, hafter, hgains, hlast⟩ :=
      h.run_each hasked ordered accepted (Kapp.literal value)
    rw [← ordered.version_accepted accepted, hrun]
    exact ⟨.recorded rfl hgains (Stack.exists_ofHistory_iff.mp ⟨_, hlast⟩), hafter⟩

theorem run_createStack_unused (h : Serves answers sound log) (hsound : sound state) {id : Uuid}
    (unused : (log state).version id = 0) : ∃ now after,
      (App.createStack id).run.run answers state = (.ok id, after) ∧ sound after ∧
        log after = (log state).recorded now id .create := by
  obtain ⟨now, after, hafter, hlog, hrun⟩ := h.run_ask hsound (.append id 0 .create none)
    fun result => App.reply result fun _ => .done (.ok id)
  have hanswer : (log state).answers now (.append id 0 .create none) =
      (.ok ⟨(log state).version id + 1, (log state).lastPosition + 1⟩,
        (log state).recorded now id .create) := by
    rw [← (log state).append_recorded now id .create, unused]
    rfl
  rw [hanswer] at hlog hrun
  rw [App.createStack_eq, hrun]
  exact ⟨now, after, rfl, hafter, hlog⟩

/-- A stack is created under an id without events, or nothing happens. -/
theorem run_createStack (h : Serves answers sound log) (hsound : sound state)
    (ordered : (log state).Ordered) (id : Uuid) :
    sound ((App.createStack id).run.run answers state).2 ∧
      ((∃ error, ((App.createStack id).run.run answers state).1 = .error error) ∧
          log ((App.createStack id).run.run answers state).2 = log state ∨
        ((App.createStack id).run.run answers state).1 = .ok id ∧
          (log state).Gains id [.create] (log ((App.createStack id).run.run answers state).2)) := by
  by_cases hfresh : (log state).version id = 0
  · obtain ⟨now, after, hrun, hafter, hlog⟩ := h.run_createStack_unused hsound hfresh
    have hgains := ordered.gains_recorded now id .create
    rw [← hlog] at hgains
    rw [hrun]
    exact ⟨hafter, Or.inr ⟨rfl, hgains⟩⟩
  · obtain ⟨now, after, hafter, hlog, hrun⟩ := h.run_ask hsound (.append id 0 .create none)
      fun result => App.reply result fun _ => .done (.ok id)
    have hanswer : (log state).answers now (.append id 0 .create none) = _ :=
      Log.append_refused hfresh now .create none
    rw [App.createStack_eq, hrun]
    rw [hanswer] at hlog ⊢
    exact ⟨hafter, Or.inl ⟨⟨_, rfl⟩, hlog⟩⟩

end Serves

end StackJournal
