import StackJournal.Plan

/-! # What plans ask

A plan that is run asks the store one request after another, each chosen by the replies so far. What
holds of all its requests and all its ends, whatever the replies that can be relied on, can be told
from the plan alone.
-/
namespace StackJournal.Plan

variable {σ α β : Type}

theorem run_ask (answers : Answers σ) (request : Request) (next : request.Reply → Plan α)
    (state : σ) : (ask request next).run answers state =
      (next (answers request state).1).run answers (answers request state).2 := rfl

theorem bind_done (plan : Plan α) : plan.bind done = plan := by
  induction plan with
  | done value => rfl
  | ask request next ih => exact congrArg (ask request) (funext ih)

theorem bind_assoc {γ : Type} (plan : Plan α) (f : α → Plan β) (g : β → Plan γ) :
    (plan.bind f).bind g = plan.bind fun a => (f a).bind g := by
  induction plan with
  | done value => rfl
  | ask request next ih => exact congrArg (ask request) (funext ih)

def asked (answers : Answers σ) : Plan α → σ → List Request
  | done _, _ => []
  | ask request next, state =>
    request :: (next (answers request state).1).asked answers (answers request state).2

theorem asked_bind (answers : Answers σ) (plan : Plan α) (f : α → Plan β) (state : σ) :
    (plan.bind f).asked answers state = plan.asked answers state ++
      (f (plan.run answers state).1).asked answers (plan.run answers state).2 := by
  induction plan generalizing state with
  | done value => rfl
  | ask request next ih => exact congrArg (request :: ·) (ih _ _)

/-- A plan asks only certain requests and comes only to certain ends, if it can rely on the replies. -/
def Obeys (asks : Request → Prop) (relies : (request : Request) → request.Reply → Prop)
    (ends : α → Prop) : Plan α → Prop
  | done value => ends value
  | ask request next =>
    asks request ∧ ∀ reply, relies request reply → (next reply).Obeys asks relies ends

section Obeys

variable {asks : Request → Prop} {relies : (request : Request) → request.Reply → Prop}
variable {plan : Plan α} {middle : α → Prop} {ends : β → Prop}

theorem Obeys.bind (h : plan.Obeys asks relies middle) {f : α → Plan β}
    (hf : ∀ a, middle a → (f a).Obeys asks relies ends) : (plan.bind f).Obeys asks relies ends := by
  induction plan with
  | done value => exact hf value h
  | ask request next ih => exact ⟨h.1, fun reply hreply => ih reply (h.2 reply hreply)⟩

theorem Obeys.imp {ends ends' : α → Prop} (h : plan.Obeys asks relies ends) {asks' : Request → Prop}
    {relies' : (request : Request) → request.Reply → Prop}
    (hasks : ∀ request, asks request → asks' request)
    (hrelies : ∀ request reply, relies' request reply → relies request reply)
    (hends : ∀ a, ends a → ends' a) : plan.Obeys asks' relies' ends' := by
  induction plan with
  | done value => exact hends value h
  | ask request next ih =>
    exact ⟨hasks request h.1, fun reply hreply => ih reply (h.2 reply (hrelies request reply hreply))⟩

end Obeys

end StackJournal.Plan
