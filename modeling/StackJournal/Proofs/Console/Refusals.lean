import StackJournal.Console
import StackJournal.Proofs.App.Spared

/-! # The wording of refusals

Whether a refusal says that there is no stack to work on can be told from how its message begins. So
the answer to a command tells it too.
-/
namespace StackJournal

def AppError.Stackless : AppError → Prop
  | .notFound _ | .corruptHistory _ _ => True
  | _ => False

theorem AppError.not_stackless_ofStore (failure : StoreError) : ¬(ofStore failure).Stackless := by
  cases failure <;> exact not_false

namespace Refusal

def Stackless : Refusal → Prop
  | .noStack => True
  | .app error => error.Stackless
  | .usage _ => False

/-- How the messages of such refusals begin, and those of all others. -/
def stacklessStarts : List String :=
  ["no stack selected (use `new` or `use <id>`)", "stack ", "corrupt history for stack "]

def otherStarts : List String :=
  ["kapp ", "literal ", "concurrency conflict on stack ", "IO error", "JSON error: ", "aggregate ",
    "invalid event at line ", "event log refused further appends after a failed write", "usage: "]

theorem starts_apart : ∀ start ∈ stacklessStarts, ∀ other ∈ otherStarts,
    ¬start.toList <+: other.toList ∧ ¬other.toList <+: start.toList := by decide

end Refusal

def Begins (start text : String) : Prop := ∃ rest, text = start ++ rest

theorem begins_self (start : String) : Begins start start := ⟨"", String.append_empty.symm⟩

theorem Begins.append {start text : String} (h : Begins start text) (more : String) :
    Begins start (text ++ more) := by
  obtain ⟨rest, rfl⟩ := h
  exact ⟨rest ++ more, String.append_assoc⟩

theorem Begins.toList_prefix {start text : String} (h : Begins start text) :
    start.toList <+: text.toList := by
  obtain ⟨rest, rfl⟩ := h
  rw [String.toList_append]
  exact List.prefix_append _ _

open Refusal

theorem StoreError.begins (error : StoreError) :
    ∃ start ∈ otherStarts, Begins start error.message := by
  cases error with
  | io detail =>
    cases detail with
    | none => exact ⟨"IO error", by decide, begins_self _⟩
    | some text =>
      have htext : ioText (some text) = "IO error" ++ (": " ++ text) := by
        rw [← String.append_assoc]
        rfl
      exact ⟨"IO error", by decide, ": " ++ text, htext⟩
  | json fault => exact ⟨"JSON error: ", by decide, (begins_self _).append _⟩
  | conflict stack expected actual =>
    exact ⟨"aggregate ", by decide,
      (((((begins_self _).append _).append _).append _).append _).append _⟩
  | invalidEvent line fault =>
    exact ⟨"invalid event at line ", by decide, (((begins_self _).append _).append _).append _⟩
  | poisoned => exact ⟨_, by decide, begins_self _⟩

theorem AppError.begins {error : AppError} (h : ¬error.Stackless) :
    ∃ start ∈ otherStarts, Begins start error.message := by
  cases error with
  | ungrounded name => exact ⟨"kapp ", by decide, ((begins_self _).append _).append _⟩
  | unimplemented name => exact ⟨"kapp ", by decide, ((begins_self _).append _).append _⟩
  | literalOutOfRange value most =>
    exact ⟨"literal ", by decide, ((((begins_self _).append _).append _).append _).append _⟩
  | conflict stack expected actual =>
    exact ⟨"concurrency conflict on stack ", by decide,
      (((((begins_self _).append _).append _).append _).append _).append _⟩
  | store error => exact error.begins
  | notFound _ | corruptHistory _ _ => exact absurd trivial h

theorem AppError.Stackless.begins {error : AppError} (h : error.Stackless) :
    ∃ start ∈ stacklessStarts, Begins start error.message := by
  cases error with
  | notFound stack => exact ⟨"stack ", by decide, ((begins_self _).append _).append _⟩
  | corruptHistory stack fault =>
    exact ⟨"corrupt history for stack ", by decide,
      (((begins_self _).append _).append _).append _⟩
  | _ => exact h.elim

/-- A stackless refusal reads unlike any other. -/
theorem Refusal.Stackless.message_ne {refusal other : Refusal} (h : refusal.Stackless)
    (hother : ¬other.Stackless) : refusal.message ≠ other.message := by
  intro heq
  obtain ⟨start, hstart, hbegins⟩ : ∃ start ∈ stacklessStarts, Begins start refusal.message := by
    cases refusal with
    | app error => exact AppError.Stackless.begins h
    | noStack => exact ⟨_, by decide, begins_self _⟩
    | usage _ => exact h.elim
  obtain ⟨start', hstart', hbegins'⟩ : ∃ start ∈ otherStarts, Begins start other.message := by
    cases other with
    | app error => exact AppError.begins hother
    | noStack => exact absurd trivial hother
    | usage _ => exact ⟨"usage: ", by decide, (begins_self _).append _⟩
  -- beginnings of one text are prefixes of each other, and of these none is
  obtain ⟨hnot, hnot'⟩ := starts_apart start hstart start' hstart'
  rw [← heq] at hbegins'
  exact (List.prefix_or_prefix_of_prefix hbegins.toList_prefix hbegins'.toList_prefix).elim hnot hnot'

end StackJournal
