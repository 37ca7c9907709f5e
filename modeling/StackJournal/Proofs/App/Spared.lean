import StackJournal.Proofs.App.Readers

/-! # Errors that are spared

A call on a stack has few errors of its own: a history that is not replayed, a stack that is missing, a
name or a literal that is refused. Where the replies of the store rule some of them out, no call ends in
them, whatever else the store replies.
-/
namespace StackJournal

def Spared {α : Type} (blames : AppError → Prop) (result : Except AppError α) : Prop :=
  ∀ error, result = .error error → ¬blames error

section Spared

variable {α β : Type} {blames : AppError → Prop}

theorem spared_ok (a : α) : Spared blames (.ok a) := by
  intro _ h
  cases h

theorem spared_error {error : AppError} (h : ¬blames error) :
    Spared blames (.error error : Except AppError α) := by
  intro _ heq
  cases heq
  exact h

theorem Spared.map {result : Except AppError α} (h : Spared blames result) (f : α → β) :
    Spared blames (result.map f) := by
  cases result with
  | error error => exact spared_error (h error rfl)
  | ok a => exact spared_ok (f a)

end Spared

/-- Certain errors are ruled out for a stack by the replies that can be relied on. -/
structure Spares (relies : (request : Request) → request.Reply → Prop) (blames : AppError → Prop)
    (stack : Uuid) : Prop where
  ofStore : ∀ failure, ¬blames (.ofStore failure)
  ungrounded : ∀ name, ¬blames (.ungrounded name)
  unimplemented : ∀ name, ¬blames (.unimplemented name)
  outOfRange : ∀ value most, ¬blames (.literalOutOfRange value most)
  history : ∀ events, relies (.load stack) (.ok events) →
    Spared blames ((Stack.ofHistory stack events).mapError (AppError.ofHistory stack))
  missing : relies (.version stack) (.ok 0) → ¬blames (.notFound stack)

namespace App

variable {relies : (request : Request) → request.Reply → Prop} {blames : AppError → Prop}
variable {stack : Uuid}

theorem reply_spares (h : Spares relies blames stack) {α β : Type} {result : Except StoreError α}
    {next : α → Plan (Except AppError β)} (hnext : ∀ a, result = .ok a →
      (next a).Obeys (fun _ => True) relies (Spared blames)) :
    (reply result next).Obeys (fun _ => True) relies (Spared blames) := by
  cases result with
  | error failure => exact spared_error (h.ofStore failure)
  | ok a => exact hnext a rfl

theorem createStack_spares (h : Spares relies blames stack) :
    (createStack stack).run.Obeys (fun _ => True) relies (Spared blames) := by
  rw [createStack_eq]
  exact ⟨trivial, fun _ _ => reply_spares h fun _ _ => spared_ok stack⟩

theorem resolve_spared (h : Spares relies blames stack) (gate : Gate) (name : String) :
    Spared blames (gate.resolve name) := by
  rw [Gate.resolve]
  split
  · split
    · exact spared_ok _
    · exact spared_error (h.unimplemented name)
  · exact spared_error (h.ungrounded name)

theorem weigh_spared (h : Spares relies blames stack) (app : App) (name : String)
    {events : List Event} (replied : relies (.load stack) (.ok events)) :
    Spared blames (app.weigh stack name events) := by
  intro error heq
  rw [weigh, bind_eq_error_iff] at heq
  rcases heq with hhistory | ⟨_, _, hrest⟩
  · exact h.history events replied error hhistory
  · rw [bind_eq_error_iff] at hrest
    rcases hrest with hresolve | ⟨_, _, hpure⟩
    · exact resolve_spared h app.gate name error hresolve
    · cases hpure

theorem dispatch_spares (h : Spares relies blames stack) (app : App) (name : String) :
    (app.dispatch stack name).run.Obeys (fun _ => True) relies (Spared blames) := by
  rw [dispatch_eq]
  refine ⟨trivial, fun result replied => reply_spares h ?_⟩
  rintro events rfl
  have hweigh := weigh_spared h app name replied
  cases hw : app.weigh stack name events with
  | error error => exact spared_error (hweigh error hw)
  | ok weighed => exact ⟨trivial, fun _ _ => reply_spares h fun _ _ => spared_ok _⟩

theorem each_spares (h : Spares relies blames stack) (app : App) (names : List String)
    (version : Nat) :
    (app.each stack names version).run.Obeys (fun _ => True) relies (Spared blames) := by
  induction names generalizing version with
  | nil => exact spared_ok version
  | cons name names ih =>
    rw [each_cons]
    refine (dispatch_spares h app name).bind ?_
    rintro (error | version) hspared
    · exact spared_error (hspared error rfl)
    · exact ih version

theorem dispatchAll_spares (h : Spares relies blames stack) (app : App) (names : List String) :
    (app.dispatchAll stack names).run.Obeys (fun _ => True) relies (Spared blames) := by
  rw [dispatchAll_eq]
  refine ⟨trivial, fun result replied => reply_spares h ?_⟩
  rintro version rfl
  split
  next hmissing =>
    subst hmissing
    exact spared_error (h.missing replied)
  · exact each_spares h app names version

theorem push_spares (h : Spares relies blames stack) (app : App) (value : Int64) :
    (app.push stack value).run.Obeys (fun _ => True) relies (Spared blames) := by
  rw [push_eq, literal]
  split
  · exact dispatchAll_spares h app _
  next error heq =>
    split at heq
    · cases heq
      exact spared_error (h.outOfRange value maxLiteral)
    · cases heq

theorem items_spares (h : Spares relies blames stack) :
    (items stack).run.Obeys (fun _ => True) relies (Spared blames) := by
  rw [items_eq]
  refine ⟨trivial, fun result replied => reply_spares h ?_⟩
  rintro events rfl
  exact (h.history events replied).map Stack.items

end App

end StackJournal
