import StackJournal.Proofs.Clients.Alone
import StackJournal.Proofs.Stack.Verdict

/-! # What a dispatch comes to

On a store that answers, a dispatch is granted just if the history of its stack is replayed and its
name is grounded and names a kapp. Then one event is recorded, and the stack has the items that the
kapp makes of the old ones. Else the first of four causes is its error, and the store stays as it is.
-/
namespace StackJournal

namespace Store

/-- What calls to append leave, whatever the disk did, if the store still takes events. -/
inductive Built : Store → Prop where
  | memory (calls : List (Timestamp × Call)) : Built (.memory (Log.empty.run calls).2)
  | journal {file : ByteArray} {steps : List Journal.Step} {answered : List Answered}
      {last : Journal} (ran : Journal.session file steps = .ok (answered, last))
      (sound : last.poisoned = false) : Built (.journal last)

variable {store : Store}

theorem Built.sound (h : store.Built) : store.Sound := by
  cases h with
  | memory _ => trivial
  | journal _ sound => exact sound

theorem Built.ordered (h : store.Built) : store.log.Ordered := by
  cases h with
  | memory calls => exact Log.ordered_empty.run calls
  | journal ran _ => exact Journal.session_ordered ran

theorem answers_load (store : Store) (now : Timestamp) (disk : Disk) (stack : Uuid) :
    store.answers now disk (.load stack) = (.ok (store.log.load stack), store) := by
  cases store <;> rfl

end Store

theorem Gate.resolve_eq_error_iff {gate : Gate} {name : String} {error : AppError} :
    gate.resolve name = .error error ↔ name ∉ gate.vocabulary ∧ error = .ungrounded name ∨
      name ∈ gate.vocabulary ∧ (∀ kapp : Kapp, name ≠ kapp.name) ∧ error = .unimplemented name := by
  by_cases hgrounded : name ∈ gate.vocabulary
  · cases hnamed : Kapp.ofName? name with
    | none =>
      have hnone : ∀ kapp : Kapp, name ≠ kapp.name := by
        rintro kapp rfl
        simp [Kapp.ofName?_name] at hnamed
      simp [resolve, isGrounded, hgrounded, hnamed, hnone, eq_comm]
    | some kapp =>
      obtain rfl := Kapp.ofName?_eq_some_iff.mp hnamed
      constructor
      · intro h
        simp [resolve, isGrounded, hgrounded, Kapp.ofName?_name] at h
      · rintro (⟨hunlisted, _⟩ | ⟨_, hunnamed, _⟩)
        · exact absurd hgrounded hunlisted
        · exact absurd rfl (hunnamed kapp)
  · simp [resolve, isGrounded, hgrounded, eq_comm]

namespace App

structure Grants (app : App) (stack : Uuid) (name : String) (events : List Event) (history : Stack)
    (kapp : Kapp) : Prop where
  accepted : Stack.ofHistory stack events = .ok history
  grounded : name ∈ app.gate.vocabulary
  named : name = kapp.name

/-- What a dispatch is refused with, the first cause first. -/
inductive Refused (app : App) (stack : Uuid) (name : String) (events : List Event) :
    AppError → Prop where
  | notFound (none : events = []) : Refused app stack name events (.notFound stack)
  | corruptHistory {fault : Corruption}
      (corrupt : Stack.ofHistory stack events = .error (.corrupt fault)) :
      Refused app stack name events (.corruptHistory stack fault)
  | ungrounded {history : Stack} (accepted : Stack.ofHistory stack events = .ok history)
      (unlisted : name ∉ app.gate.vocabulary) : Refused app stack name events (.ungrounded name)
  | unimplemented {history : Stack} (accepted : Stack.ofHistory stack events = .ok history)
      (grounded : name ∈ app.gate.vocabulary) (unnamed : ∀ kapp : Kapp, name ≠ kapp.name) :
      Refused app stack name events (.unimplemented name)

variable {app : App} {stack : Uuid} {name : String} {events : List Event}

theorem weigh_eq_error_iff {error : AppError} :
    app.weigh stack name events = .error error ↔ app.Refused stack name events error := by
  rw [weigh]
  simp only [bind_eq_error_iff, mapError_eq_error_iff, mapError_eq_ok_iff]
  constructor
  · rintro (⟨cause, hrefused, rfl⟩ | ⟨history, accepted, hresolve | ⟨kapp, _, heq⟩⟩)
    · cases cause with
      | empty => exact .notFound (Stack.ofHistory_eq_empty_iff.mp hrefused)
      | corrupt fault => exact .corruptHistory hrefused
    · rcases Gate.resolve_eq_error_iff.mp hresolve with ⟨unlisted, rfl⟩ | ⟨grounded, unnamed, rfl⟩
      · exact .ungrounded accepted unlisted
      · exact .unimplemented accepted grounded unnamed
    · cases heq
  · intro h
    cases h with
    | notFound none => exact Or.inl ⟨_, Stack.ofHistory_eq_empty_iff.mpr none, rfl⟩
    | corruptHistory corrupt => exact Or.inl ⟨_, corrupt, rfl⟩
    | ungrounded accepted unlisted =>
      have hresolve := Gate.resolve_eq_error_iff.mpr (Or.inl ⟨unlisted, rfl⟩)
      exact Or.inr ⟨_, accepted, Or.inl hresolve⟩
    | unimplemented accepted grounded unnamed =>
      have hresolve := Gate.resolve_eq_error_iff.mpr (Or.inr ⟨grounded, unnamed, rfl⟩)
      exact Or.inr ⟨_, accepted, Or.inl hresolve⟩

theorem weigh_eq_ok_iff_grants {version : Nat} {kapp : Kapp} :
    app.weigh stack name events = .ok (version, kapp) ↔
      ∃ history, app.Grants stack name events history kapp ∧ version = history.version := by
  rw [weigh, bind_eq_ok_iff]
  simp only [bind_eq_ok_iff, mapError_eq_ok_iff, Gate.resolve_eq_ok_iff]
  constructor
  · rintro ⟨history, accepted, _, ⟨grounded, named⟩, heq⟩
    cases heq
    exact ⟨history, ⟨accepted, List.contains_iff_mem.mp grounded, named⟩, rfl⟩
  · rintro ⟨history, ⟨accepted, grounded, named⟩, rfl⟩
    exact ⟨history, accepted, kapp, ⟨List.contains_iff_mem.mpr grounded, named⟩, rfl⟩

variable {history : Stack} {kapp : Kapp}

theorem Grants.not_refused (h : app.Grants stack name events history kapp) {error : AppError} :
    ¬app.Refused stack name events error := by
  rw [← weigh_eq_error_iff, weigh_eq_ok_iff_grants.mpr ⟨history, h, rfl⟩]
  simp

theorem Grants.unique (h : app.Grants stack name events history kapp) {other : Stack}
    {kapp' : Kapp} (h' : app.Grants stack name events other kapp') :
    history = other ∧ kapp = kapp' := by
  have hhistory := h.accepted.symm.trans h'.accepted
  exact ⟨by simpa using hhistory, Kapp.name_injective (h.named.symm.trans h'.named)⟩

theorem Refused.unique {error other : AppError} (h : app.Refused stack name events error)
    (h' : app.Refused stack name events other) : error = other := by
  rw [← weigh_eq_error_iff] at h h'
  simpa [h] using h'

theorem granted_or_refused (app : App) (stack : Uuid) (name : String) (events : List Event) :
    (∃ history kapp, app.Grants stack name events history kapp) ∨
      ∃ error, app.Refused stack name events error := by
  cases hweighed : app.weigh stack name events with
  | error error => exact Or.inr ⟨error, weigh_eq_error_iff.mp hweighed⟩
  | ok weighed =>
    obtain ⟨history, hgrants, _⟩ := weigh_eq_ok_iff_grants.mp hweighed
    exact Or.inl ⟨history, weighed.2, hgrants⟩

end App

namespace Store

variable {store : Store}

section Dispatch

variable {app : App} {stack : Uuid} {name : String}

theorem run_dispatch_eq (store : Store) (app : App) (now : Timestamp) (stack : Uuid)
    (name : String) : (app.dispatch stack name).run.run (answers now .sound) store =
      (App.writeWeighed stack (app.weigh stack name (store.log.load stack))).run
        (answers now .sound) store := by
  rw [App.dispatch_eq, Plan.run_ask, answers_load]
  rfl

theorem run_refused {error : AppError}
    (refused : app.Refused stack name (store.log.load stack) error) (now : Timestamp) :
    (app.dispatch stack name).run.run (answers now .sound) store = (.error error, store) := by
  rw [run_dispatch_eq, App.weigh_eq_error_iff.mpr refused]
  rfl

theorem Sound.run_write (h : store.Sound) (now : Timestamp) (stack : Uuid) (kapp : Kapp) :
    ∃ after, (App.write stack (store.log.version stack) kapp).run (answers now .sound) store =
        (.ok (store.log.version stack + 1), after) ∧
      after.Sound ∧ after.log = store.log.recorded now stack (.kapp kapp) := by
  obtain ⟨hreply, hlog, hsound⟩ :=
    h.answersAsLog now (.append stack (store.log.version stack) (.kapp kapp) none)
  have hanswer : store.log.answers now
      (.append stack (store.log.version stack) (.kapp kapp) none) = _ :=
    store.log.append_recorded now stack (.kapp kapp)
  rw [hanswer] at hreply hlog
  refine ⟨_, ?_, hsound, hlog⟩
  rw [App.write, Plan.run_ask, hreply]
  rfl

theorem Sound.run_items (h : store.Sound) (now : Timestamp) {history : Stack}
    (accepted : Stack.ofHistory stack (store.log.load stack) = .ok history) :
    ((App.items stack).run.run (answers now .sound) store).1 = .ok history.items := by
  simp [(serves now).run_items h, accepted, Except.map]

/-- The version of the history is the one that the store is at, so the event is taken. -/
theorem Sound.run_granted (h : store.Sound) (ordered : store.log.Ordered) {history : Stack}
    {kapp : Kapp} (grants : app.Grants stack name (store.log.load stack) history kapp)
    (now : Timestamp) : history.version = store.log.version stack ∧ ∃ after,
      (app.dispatch stack name).run.run (answers now .sound) store =
        (.ok (store.log.version stack + 1), after) ∧
      after.Sound ∧ after.log = store.log.recorded now stack (.kapp kapp) := by
  have hversion := ordered.version_accepted grants.accepted
  have hweighed := App.weigh_eq_ok_iff_grants.mpr ⟨history, grants, rfl⟩
  rw [run_dispatch_eq, hweighed, App.writeWeighed, hversion]
  exact ⟨rfl, h.run_write now stack kapp⟩

/-- Whatever was appended before, a dispatch comes to just what the history of the stack and the
vocabulary say. It is granted with the next version, and then the log has one event more, with no
payload and the next position, and the stack the items that the kapp makes of the old ones; or it
is refused for the first cause there is, and the store is as it was. -/
theorem dispatch_exact (built : store.Built) (app : App) (now : Timestamp) (stack : Uuid)
    (name : String) : ∃ outcome after,
    (app.dispatch stack name).run.run (answers now .sound) store = (outcome, after) ∧
      (∀ version, outcome = .ok version ↔ ∃ history kapp,
        app.Grants stack name (store.log.load stack) history kapp ∧
          version = store.log.version stack + 1) ∧
      (∀ error, outcome = .error error ↔ app.Refused stack name (store.log.load stack) error) ∧
      (∀ error, outcome = .error error → after = store) ∧
      ∀ history kapp, app.Grants stack name (store.log.load stack) history kapp →
        history.version = store.log.version stack ∧
        after.log.events.toList = store.log.events.toList ++ [⟨stack, store.log.version stack + 1,
          .kapp kapp, none, store.log.lastPosition + 1, now⟩] ∧
        ∀ moment,
          ((App.items stack).run.run (answers moment .sound) store).1 = .ok history.items ∧
          ((App.items stack).run.run (answers moment .sound) after).1 =
            .ok (history.apply (.kapp kapp)).items := by
  have hordered := built.ordered
  rcases app.granted_or_refused stack name (store.log.load stack) with
    ⟨history, kapp, hgrants⟩ | ⟨error, hrefused⟩
  · obtain ⟨hversion, after, hrun, hsound, hlog⟩ := built.sound.run_granted hordered hgrants now
    refine ⟨_, after, hrun, ?_, ?_, by simp, ?_⟩
    · intro version
      constructor
      · rintro ⟨⟩
        exact ⟨history, kapp, hgrants, rfl⟩
      · rintro ⟨_, _, _, rfl⟩
        rfl
    · simp [hgrants.not_refused]
    · intro history' kapp' hgrants'
      obtain ⟨rfl, rfl⟩ := hgrants.unique hgrants'
      have hafter := hordered.ofHistory_recorded hgrants.accepted now kapp
      rw [← hlog] at hafter
      refine ⟨hversion, ?_, fun moment => ⟨?_, hsound.run_items moment hafter⟩⟩
      · simp [hlog, Log.recorded, Log.insert]
      · exact built.sound.run_items moment hgrants.accepted
  · have hnone : ∀ {history kapp}, ¬app.Grants stack name (store.log.load stack) history kapp :=
      fun hgrants => hgrants.not_refused hrefused
    refine ⟨_, store, run_refused hrefused now, by simp [hnone], ?_, fun _ _ => rfl, ?_⟩
    · intro other
      constructor
      · rintro ⟨⟩
        exact hrefused
      · intro hother
        rw [hrefused.unique hother]
    · exact fun _ _ hgrants => absurd hgrants hnone

def begun : Store := .memory (Log.empty.run [(.epoch, Journal.creation ⟨0⟩)]).2

/-- On a stack without items, dropping the top one changes no item and is recorded. -/
theorem idle_dispatch_exact : begun.Built ∧ ∃ outcome after,
    (App.standard.dispatch ⟨0⟩ "pop").run.run (answers .epoch .sound) begun = (outcome, after) ∧
      outcome = .ok 2 ∧
      after.log.events.toList = begun.log.events.toList ++
        [⟨⟨0⟩, 2, .kapp .pop, none, 2, .epoch⟩] ∧
      ((App.items ⟨0⟩).run.run (answers .epoch .sound) after).1 = .ok [] := by
  have hbuilt : begun.Built := .memory [(.epoch, Journal.creation ⟨0⟩)]
  have hgrants : App.standard.Grants ⟨0⟩ "pop" (begun.log.load ⟨0⟩)
      ⟨⟨0⟩, 1, [], #[]⟩ .pop := ⟨rfl, by decide, rfl⟩
  obtain ⟨outcome, after, hrun, hok, _, _, hgranted⟩ :=
    dispatch_exact hbuilt App.standard .epoch ⟨0⟩ "pop"
  obtain ⟨_, hevents, hitems⟩ := hgranted _ _ hgrants
  exact ⟨hbuilt, outcome, after, hrun, (hok 2).mpr ⟨_, _, hgrants, rfl⟩, hevents,
    (hitems .epoch).2⟩

end Dispatch

end Store

end StackJournal
