import StackJournal.Proofs.App.Operation

/-! # Calls that only read

Items, the audit trail and the counts are told without an append, whatever the store replies. The trail
and the counts fail only where the store does.
-/
namespace StackJournal

def Request.Reads : Request → Prop
  | append .. => False
  | load _ | version _ | read .. | last => True

def FailsWithStore {α : Type} (result : Except AppError α) : Prop :=
  ∀ error, result = .error error → ∃ failure, error = .ofStore failure

theorem failsWithStore_ok {α : Type} (a : α) : FailsWithStore (.ok a) := by
  intro _ h
  cases h

theorem failsWithStore_ofStore {α : Type} (failure : StoreError) :
    FailsWithStore (.error (.ofStore failure) : Except AppError α) := by
  intro error h
  cases h
  exact ⟨failure, rfl⟩

theorem FailsWithStore.map {α β : Type} {result : Except AppError α} (h : FailsWithStore result)
    (f : α → β) : FailsWithStore (result.map f) := by
  cases result with
  | error error =>
    obtain ⟨failure, rfl⟩ := h error rfl
    exact failsWithStore_ofStore failure
  | ok a => exact failsWithStore_ok (f a)

section Readers

variable {relies : (request : Request) → request.Reply → Prop}

namespace Feed

theorem start_obeys (size position : Nat) :
    (start size position).Obeys Request.Reads relies fun _ => True := by
  refine ⟨trivial, fun reply _ => ?_⟩
  cases reply <;> trivial

theorem pull_obeys (feed : Feed) : feed.pull.Obeys Request.Reads relies fun _ => True := by
  rw [pull]
  split
  · trivial
  split
  · trivial
  · refine ⟨trivial, fun reply _ => ?_⟩
    cases reply <;> trivial

theorem collect_obeys (fuel : Nat) (feed : Feed) (events : List Event) :
    (feed.collect fuel events).Obeys Request.Reads relies fun _ => True := by
  induction fuel generalizing feed events with
  | zero => trivial
  | succ fuel ih =>
    refine feed.pull_obeys.bind ?_
    rintro ⟨_ | _ | event, next⟩ -
    · trivial
    · trivial
    · exact ih next (event :: events)

theorem drain_obeys (feed : Feed) : feed.drain.Obeys Request.Reads relies fun _ => True := by
  refine (collect_obeys _ feed []).bind ?_
  rintro (_ | _) - <;> trivial

end Feed

namespace App

theorem eventsFrom_obeys (position : Nat) :
    (eventsFrom position).run.Obeys Request.Reads relies FailsWithStore := by
  refine (Feed.start_obeys _ position).bind ?_
  rintro (failure | feed) -
  · exact failsWithStore_ofStore failure
  · refine feed.drain_obeys.bind ?_
    rintro (failure | events) -
    · exact failsWithStore_ofStore failure
    · exact failsWithStore_ok events

theorem items_obeys (stack : Uuid) :
    (items stack).run.Obeys Request.Reads relies fun _ => True := by
  rw [items_eq]
  refine ⟨trivial, fun reply _ => ?_⟩
  cases reply <;> trivial

end App

namespace Operation

theorem answering_obeys {α : Type} {asks : Request → Prop} {service : Service α}
    {ends : Except AppError α → Prop} {ends' : Outcome → Prop}
    (h : service.run.Obeys asks relies ends) {kind : α → Answer}
    (hmap : ∀ result, ends result → ends' (result.map kind)) :
    (answering kind service).Obeys asks relies ends' :=
  h.bind hmap

theorem eventLog_obeys (app : App) (position : Nat) :
    ((eventLog position).plan app).Obeys Request.Reads relies FailsWithStore := by
  refine answering_obeys ?_ fun _ (h : FailsWithStore _) => h.map _
  refine (App.eventsFrom_obeys position).bind ?_
  rintro (error | events) h
  · obtain ⟨failure, rfl⟩ := h error rfl
    exact failsWithStore_ofStore failure
  · exact failsWithStore_ok _

theorem counts_obeys (app : App) (position : Nat) :
    ((counts position).plan app).Obeys Request.Reads relies FailsWithStore := by
  refine answering_obeys ?_ fun _ (h : FailsWithStore _) => h.map _
  refine (App.eventsFrom_obeys position).bind ?_
  rintro (error | events) h
  · obtain ⟨failure, rfl⟩ := h error rfl
    exact failsWithStore_ofStore failure
  · exact failsWithStore_ok _

end Operation

end Readers

end StackJournal
