import StackJournal.Error

/-! # The dispatch gate

Every name passes the gate before its kapp is decided on: it must be in the vocabulary, and it must
name a kapp.
-/
namespace StackJournal

structure Gate where
  vocabulary : List String

namespace Gate

def standard : Gate := ⟨Kapp.names⟩

def isGrounded (gate : Gate) (name : String) : Bool := gate.vocabulary.contains name

def resolve (gate : Gate) (name : String) : Except AppError Kapp :=
  if gate.isGrounded name then
    match Kapp.ofName? name with
    | some kapp => .ok kapp
    | none => .error (.unimplemented name)
  else .error (.ungrounded name)

/-- In the standard application every grounded name is implemented. -/
theorem isGrounded_standard_iff {name : String} :
    standard.isGrounded name = true ↔ name ∈ Kapp.names := List.contains_iff_mem

theorem resolve_eq_ok_iff {gate : Gate} {name : String} {kapp : Kapp} :
    gate.resolve name = .ok kapp ↔ gate.isGrounded name = true ∧ name = kapp.name := by
  rw [resolve]
  constructor
  · intro h
    split at h
    next grounded =>
      split at h
      next found =>
        cases h
        exact ⟨grounded, Kapp.ofName?_eq_some_iff.mp found⟩
      · cases h
    · cases h
  · rintro ⟨grounded, rfl⟩
    rw [if_pos grounded, Kapp.ofName?_name]

end Gate

end StackJournal
