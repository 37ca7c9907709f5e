import StackJournal.Proofs.App.Spared

/-! # Calls over histories that can be replayed

As long as the store loads only histories that can be replayed, no call finds a corrupt one, whatever
else the store replies.
-/
namespace StackJournal

def Replayed : (request : Request) → request.Reply → Prop
  | .load stack, .ok events => Stack.Replayable stack events
  | _, _ => True

def Uncorrupted {α : Type} (result : Except AppError α) : Prop :=
  ∀ stack fault, result ≠ .error (.corruptHistory stack fault)

def AppError.Corrupt (error : AppError) : Prop := ∃ stack fault, error = .corruptHistory stack fault

theorem AppError.not_corrupt_ofStore (failure : StoreError) : ¬(ofStore failure).Corrupt := by
  rintro ⟨stack, fault, h⟩
  cases failure <;> cases h

theorem Spared.uncorrupted {α : Type} {result : Except AppError α}
    (h : Spared AppError.Corrupt result) : Uncorrupted result :=
  fun stack fault heq => h _ heq ⟨stack, fault, rfl⟩

theorem FailsWithStore.uncorrupted {α : Type} {result : Except AppError α}
    (h : FailsWithStore result) : Uncorrupted result := by
  rintro stack fault rfl
  obtain ⟨failure, hfailure⟩ := h _ rfl
  exact AppError.not_corrupt_ofStore failure ⟨stack, fault, hfailure.symm⟩

/-- A history that can be replayed is not corrupt. -/
theorem spares_replayed (stack : Uuid) : Spares Replayed AppError.Corrupt stack where
  ofStore := AppError.not_corrupt_ofStore
  ungrounded _ := by rintro ⟨_, _, h⟩; cases h
  unimplemented _ := by rintro ⟨_, _, h⟩; cases h
  outOfRange _ _ := by rintro ⟨_, _, h⟩; cases h
  history events replayed := by
    have hreplayed : Stack.Replayable stack events := replayed
    rcases hreplayed with rfl | hlawful
    · exact spared_error (by rintro ⟨_, _, h⟩; cases h)
    · obtain ⟨history, hhistory⟩ := Stack.exists_ofHistory_iff.mpr hlawful
      rw [hhistory]
      exact spared_ok history
  missing _ := by rintro ⟨_, _, h⟩; cases h

/-- A plan whose requests are any and whose end is no corrupt history, over replayed histories. -/
abbrev App.Safe {α : Type} (plan : Plan (Except AppError α)) : Prop :=
  plan.Obeys (fun _ => True) Replayed Uncorrupted

namespace Operation

theorem answering_safe {α : Type} {service : Service α} (kind : α → Answer)
    (h : service.run.Obeys (fun _ => True) Replayed (Spared AppError.Corrupt)) :
    App.Safe (answering kind service) :=
  answering_obeys h fun _ spared => (spared.map kind).uncorrupted

/-- No call ends in a corrupt history, as long as all histories that it loads can be replayed. -/
theorem plan_safe (app : App) (operation : Operation) : App.Safe (operation.plan app) := by
  cases operation with
  | createStack id => exact answering_safe _ (App.createStack_spares (spares_replayed id))
  | dispatch stack name => exact answering_safe _ (App.dispatch_spares (spares_replayed stack) app name)
  | dispatchAll stack names =>
    exact answering_safe _ (App.dispatchAll_spares (spares_replayed stack) app names)
  | push stack value => exact answering_safe _ (App.push_spares (spares_replayed stack) app value)
  | items stack => exact answering_safe _ (App.items_spares (spares_replayed stack))
  | eventLog position =>
    exact (eventLog_obeys app position).imp (fun _ _ => trivial) (fun _ _ h => h)
      fun _ h => h.uncorrupted
  | counts position =>
    exact (counts_obeys app position).imp (fun _ _ => trivial) (fun _ _ h => h)
      fun _ h => h.uncorrupted

end Operation

end StackJournal
