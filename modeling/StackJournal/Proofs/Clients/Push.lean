import StackJournal.Proofs.Clients.Dispatch
import StackJournal.Proofs.Kapp.Literal

/-! # Pushing integers

An integer that is not too large is pushed kapp by kapp, each dispatched by itself, and comes to lie on
the items. Any other is refused before the store is asked for anything.
-/
namespace StackJournal

namespace App

variable {value : Int64}

theorem literal_eq_ok_iff {kapps : List Kapp} : literal value = .ok kapps ↔
    value.toInt.natAbs ≤ maxLiteral ∧ kapps = Kapp.literal value := by
  rw [literal]
  by_cases hlarge : maxLiteral < value.toInt.natAbs
  · simp [hlarge, Nat.not_le_of_lt hlarge]
  · simp [hlarge, Nat.le_of_not_lt hlarge, eq_comm]

theorem map_name_literal_eq_ok_iff {names : List String} :
    (literal value).map (List.map Kapp.name) = .ok names ↔
      value.toInt.natAbs ≤ maxLiteral ∧ names = (Kapp.literal value).map Kapp.name := by
  simp only [map_eq_ok_iff, literal_eq_ok_iff]
  constructor
  · rintro ⟨_, ⟨hsmall, rfl⟩, rfl⟩
    exact ⟨hsmall, rfl⟩
  · rintro ⟨hsmall, rfl⟩
    exact ⟨_, ⟨hsmall, rfl⟩, rfl⟩

/-- Nothing is asked of the store to refuse an integer. -/
theorem push_large (large : maxLiteral < value.toInt.natAbs) (app : App) (stack : Uuid) :
    (app.push stack value).run = .done (.error (.literalOutOfRange value maxLiteral)) := by
  rw [push_eq, literal, if_pos large]

end App

namespace Serves

variable {σ : Type} {answers : Answers σ} {sound : σ → Prop} {log : σ → Log} {state : σ}

theorem run_push_small (h : Serves answers sound log) (hsound : sound state)
    (ordered : (log state).Ordered) {stack : Uuid} {history : Stack}
    (accepted : Stack.ofHistory stack ((log state).load stack) = .ok history) {value : Int64}
    (small : value.toInt.natAbs ≤ App.maxLiteral) : ∃ after,
      (App.standard.push stack value).run.run answers state =
        (.ok (history.version + value.toInt.natAbs + 1), after) ∧ sound after ∧
      Stack.ofHistory stack ((log after).load stack) =
        .ok (history.applyKapps (Kapp.literal value)) := by
  obtain ⟨asked, hasked, hsame, hpush⟩ :=
    h.run_dispatchAll hsound .standard stack ((Kapp.literal value).map Kapp.name)
  rw [← hsame] at ordered accepted hpush
  obtain ⟨after, hrun, hafter, _, hlast⟩ := h.run_each hasked ordered accepted (Kapp.literal value)
  refine ⟨after, ?_, hafter, hlast⟩
  rw [App.push_eq, App.literal_eq_ok_iff.mpr ⟨small, rfl⟩]
  simp only
  rw [hpush, if_neg (ordered.version_ne_zero accepted), ← ordered.version_accepted accepted, hrun,
    Kapp.length_literal, Nat.add_assoc]

end Serves

namespace Store

variable {store : Store}

/-- A literal puts its integer on the items of a stack, one step at a time and each within range; and
the integers that are not too large are pushed by the names of their literals, all of them grounded.
On a store that answers, whatever the clock shows meanwhile, such a push ends with the integer on the
items that the history had. A push of any other is refused and leaves the store as it is. -/
theorem literal_pushed (built : store.Built) (clock : Store → Timestamp) (value : Int64) :
    (∀ stack : Stack,
      (stack.applyKapps (Kapp.literal value)).items = stack.items ++ [value] ∧
      (stack.applyKapps (Kapp.literal value)).version = stack.version + value.toInt.natAbs + 1 ∧
      ∀ steps ≤ value.toInt.natAbs, ∃ top : Int64,
        (stack.applyKapps ((Kapp.literal value).take (steps + 1))).items = stack.items ++ [top] ∧
        top.toInt = value.toInt.sign * steps) ∧
    (∀ names, (App.literal value).map (List.map Kapp.name) = .ok names ↔
      value.toInt.natAbs ≤ App.maxLiteral ∧ names = (Kapp.literal value).map Kapp.name) ∧
    (∀ kapp ∈ Kapp.literal value, Gate.standard.resolve kapp.name = .ok kapp) ∧
    (∀ stack history, Stack.ofHistory stack (store.log.load stack) = .ok history →
      value.toInt.natAbs ≤ App.maxLiteral → ∃ after,
        (App.standard.push stack value).run.run (answersBy clock) store =
          (.ok (history.version + value.toInt.natAbs + 1), after) ∧
        ((App.items stack).run.run (answersBy clock) after).1 = .ok (history.items ++ [value])) ∧
    ∀ stack, App.maxLiteral < value.toInt.natAbs →
      (App.standard.push stack value).run.run (answersBy clock) store =
        (.error (.literalOutOfRange value App.maxLiteral), store) := by
  have hitems (stack : Stack) :
      (stack.applyKapps (Kapp.literal value)).items = stack.items ++ [value] := by
    rw [Stack.applyKapps_literal, Stack.items, Stack.items, List.reverse_cons]
  refine ⟨fun stack => ⟨hitems stack, by rw [Stack.applyKapps_literal], ?_⟩,
    fun names => App.map_name_literal_eq_ok_iff, fun kapp _ => App.resolve_standard kapp, ?_, ?_⟩
  · intro steps hsteps
    refine ⟨_, ?_, Kapp.toInt_ofInt_steps hsteps⟩
    rw [stack.applyKapps_literal_take hsteps, Stack.items, Stack.items, List.reverse_cons]
  · intro stack history accepted small
    obtain ⟨after, hrun, hafter, hlast⟩ :=
      (serves_by clock).run_push_small built.sound built.ordered accepted small
    refine ⟨after, hrun, ?_⟩
    rw [(serves_by clock).run_items hafter, hlast, ← hitems]
    rfl
  · intro stack large
    rw [App.push_large large]
    rfl

/-- The integer -2 is pushed by three events on a stack that was just created. The least integer is
pushed by its literal too, but no store is asked to record that. -/
theorem minus_two_pushed : begun.Built ∧
    (∃ after,
      (App.standard.push ⟨0⟩ (-2)).run.run (answersBy fun _ => .epoch) begun = (.ok 4, after) ∧
      ((App.items ⟨0⟩).run.run (answersBy fun _ => .epoch) after).1 = .ok [-2]) ∧
    ((Stack.blank ⟨0⟩).applyKapps (Kapp.literal Int64.minValue)).items = [Int64.minValue] ∧
    (App.standard.push ⟨0⟩ Int64.minValue).run.run (answersBy fun _ => .epoch) begun =
      (.error (.literalOutOfRange Int64.minValue App.maxLiteral), begun) := by
  have hbuilt : begun.Built := .memory [(.epoch, Journal.creation ⟨0⟩)]
  obtain ⟨_, _, _, hpush, _⟩ := literal_pushed hbuilt (fun _ => .epoch) (-2)
  obtain ⟨hleast, _, _, _, hlarge⟩ := literal_pushed hbuilt (fun _ => .epoch) Int64.minValue
  exact ⟨hbuilt, hpush ⟨0⟩ ⟨⟨0⟩, 1, [], #[]⟩ rfl (by decide), (hleast (Stack.blank ⟨0⟩)).1,
    hlarge ⟨0⟩ (by decide)⟩

end Store

end StackJournal
