import Mathlib.Data.List.Basic
import StackJournal.Proofs.Log.Run
import StackJournal.Proofs.Outcome
import StackJournal.Stack

/-! # Which histories are replayed

A history is replayed just if it keeps the rules, and then the stack is what its kinds make of a blank
one. The moments of the events play no part.
-/
namespace StackJournal.Stack

structure Lawful (id : Uuid) (events : List Event) : Prop where
  begun : ∃ first rest, events = first :: rest ∧ first.kind = .create ∧
    ∀ event ∈ rest, event.kind ≠ .create
  own : ∀ event ∈ events, event.stack = id
  sequences : events.map (·.sequence) = List.range' 1 events.length

def Replayable (id : Uuid) (events : List Event) : Prop := events = [] ∨ Lawful id events

def applyAll (stack : Stack) (events : List Event) : Stack :=
  events.foldl (fun stack event => stack.apply event.kind) stack

def applyKapps (stack : Stack) (kapps : List Kapp) : Stack :=
  kapps.foldl (fun stack kapp => stack.apply (.kapp kapp)) stack

theorem foldl_apply (stack : Stack) (kinds : List EventKind) : kinds.foldl apply stack =
    { stack with
      version := stack.version + kinds.length
      cells := kinds.foldl (fun cells kind => kind.act cells) stack.cells } := by
  induction kinds generalizing stack with
  | nil => rfl
  | cons kind kinds ih =>
    rw [List.foldl_cons, ih]
    simp [apply, Nat.add_assoc, Nat.add_comm 1]

/-- The stack that a history makes. -/
theorem applyAll_blank (id : Uuid) (events : List Event) : (blank id).applyAll events =
    ⟨id, events.length, (events.map (·.kind)).foldl (fun cells kind => kind.act cells) [], #[]⟩ := by
  have hfold := foldl_apply (blank id) (events.map (·.kind))
  rw [List.foldl_map, List.length_map] at hfold
  rw [applyAll, hfold, blank, Nat.zero_add]

theorem applyKapps_eq (stack : Stack) (kapps : List Kapp) : stack.applyKapps kapps =
    { stack with
      version := stack.version + kapps.length
      cells := kapps.foldl (fun cells kapp => kapp.act cells) stack.cells } := by
  have hfold := foldl_apply stack (kapps.map .kapp)
  rw [List.foldl_map, List.foldl_map, List.length_map] at hfold
  exact hfold

theorem replay_eq_ok_iff {stack next : Stack} {event : Event} :
    stack.replay event = .ok next ↔ event.stack = stack.id ∧
      event.sequence = stack.version + 1 ∧ (event.kind = .create → event.sequence = 1) ∧
      next = stack.apply event.kind := by
  unfold replay
  constructor
  · intro h
    split at h
    · cases h
    next hstack =>
    split at h
    · cases h
    next hsequence =>
    split at h
    · cases h
    next hcreate =>
    cases h
    exact ⟨Decidable.of_not_not hstack, Decidable.of_not_not hsequence,
      fun hkind => Decidable.of_not_not fun hne => hcreate ⟨hkind, hne⟩, rfl⟩
  · rintro ⟨hstack, hsequence, hcreate, rfl⟩
    have hfirst : ¬(event.kind = .create ∧ event.sequence ≠ 1) := fun h => h.2 (hcreate h.1)
    rw [if_neg fun hne => hne hstack, if_neg fun hne => hne hsequence, if_neg hfirst]

theorem foldlM_replay_eq_ok_iff {stack last : Stack} {events : List Event} :
    events.foldlM replay stack = .ok last ↔ (∀ event ∈ events, event.stack = stack.id) ∧
      events.map (·.sequence) = List.range' (stack.version + 1) events.length ∧
      (∀ event ∈ events, event.kind = .create → event.sequence = 1) ∧
      last = stack.applyAll events := by
  induction events generalizing stack with
  | nil =>
    constructor
    · intro h
      cases h
      exact ⟨fun _ he => absurd he List.not_mem_nil, rfl, fun _ he => absurd he List.not_mem_nil, rfl⟩
    · rintro ⟨_, _, _, rfl⟩
      rfl
  | cons event events ih =>
    rw [List.foldlM_cons, bind_eq_ok_iff]
    simp only [replay_eq_ok_iff, List.forall_mem_cons, List.map_cons, List.length_cons,
      List.range'_succ, List.cons.injEq]
    constructor
    · rintro ⟨next, ⟨hstack, hsequence, hcreate, rfl⟩, hrest⟩
      obtain ⟨hstacks, hsequences, hcreates, rfl⟩ := ih.mp hrest
      exact ⟨⟨hstack, hstacks⟩, ⟨hsequence, hsequences⟩, ⟨hcreate, hcreates⟩, rfl⟩
    · rintro ⟨⟨hstack, hstacks⟩, ⟨hsequence, hsequences⟩, ⟨hcreate, hcreates⟩, rfl⟩
      exact ⟨_, ⟨hstack, hsequence, hcreate, rfl⟩, ih.mpr ⟨hstacks, hsequences, hcreates, rfl⟩⟩

/-- Just the lawful histories are replayed. -/
theorem ofHistory_eq_ok_iff {id : Uuid} {events : List Event} {stack : Stack} :
    ofHistory id events = .ok stack ↔ Lawful id events ∧ stack = (blank id).applyAll events := by
  cases events with
  | nil =>
    constructor
    · intro h
      cases h
    · rintro ⟨⟨⟨_, _, h, _⟩, _, _⟩, _⟩
      cases h
  | cons first rest =>
    constructor
    · intro h
      rw [ofHistory] at h
      split at h
      · cases h
      next hfirst =>
      obtain ⟨hstacks, hsequences, hcreates, rfl⟩ := foldlM_replay_eq_ok_iff.mp h
      refine ⟨⟨⟨first, rest, rfl, Decidable.of_not_not hfirst, ?_⟩, hstacks, hsequences⟩, rfl⟩
      intro event hevent hkind
      -- only the first event has sequence 1
      have hone := hcreates event (List.mem_cons_of_mem first hevent) hkind
      rw [List.length_cons, List.range'_succ, List.map_cons] at hsequences
      have hlater : event.sequence ∈ List.range' (0 + 1 + 1) rest.length :=
        (List.cons.inj hsequences).2 ▸ List.mem_map_of_mem hevent
      have hle := (List.mem_range'_1.mp hlater).1
      omega
    · rintro ⟨⟨⟨first', rest', heq, hkind, hothers⟩, hstacks, hsequences⟩, rfl⟩
      obtain ⟨rfl, rfl⟩ := List.cons.inj heq
      rw [ofHistory, if_neg fun hne => hne hkind]
      refine foldlM_replay_eq_ok_iff.mpr ⟨hstacks, hsequences, ?_, rfl⟩
      rw [List.forall_mem_cons]
      refine ⟨fun _ => ?_, fun event hevent hcreate => absurd hcreate (hothers event hevent)⟩
      rw [List.length_cons, List.range'_succ, List.map_cons] at hsequences
      exact (List.cons.inj hsequences).1

theorem exists_ofHistory_iff {id : Uuid} {events : List Event} :
    (∃ stack, ofHistory id events = .ok stack) ↔ Lawful id events := by
  simp only [ofHistory_eq_ok_iff, exists_and_left, exists_eq, and_true]

theorem ofHistory_stamped (id : Uuid) (events : List Event) (moment : Timestamp) :
    ofHistory id (events.map (·.stamped moment)) = ofHistory id events := by
  cases events with
  | nil => rfl
  | cons first rest =>
    have hfold : ((first :: rest).map (·.stamped moment)).foldlM replay (blank id) =
        (first :: rest).foldlM replay (blank id) := List.foldlM_map
    show (if first.kind ≠ .create then _ else
      ((first :: rest).map (·.stamped moment)).foldlM replay (blank id)) = _
    rw [hfold]
    rfl

theorem lawful_create {id : Uuid} {event : Event} (hstack : event.stack = id)
    (hkind : event.kind = .create) (hsequence : event.sequence = 1) : Lawful id [event] where
  begun := ⟨event, [], rfl, hkind, fun _ he => absurd he List.not_mem_nil⟩
  own _ he := by rw [List.mem_singleton.mp he, hstack]
  sequences := by rw [List.map_singleton, hsequence]; rfl

theorem Lawful.append {id : Uuid} {events : List Event} (h : Lawful id events) {event : Event}
    (hstack : event.stack = id) (hsequence : event.sequence = events.length + 1)
    (hkind : event.kind ≠ .create) : Lawful id (events ++ [event]) where
  begun := by
    obtain ⟨first, rest, rfl, hfirst, hrest⟩ := h.begun
    refine ⟨first, rest ++ [event], rfl, hfirst, ?_⟩
    intro other hother
    rcases List.mem_append.mp hother with hother | hother
    · exact hrest other hother
    · exact List.mem_singleton.mp hother ▸ hkind
  own other hother := by
    rcases List.mem_append.mp hother with hother | hother
    · exact h.own other hother
    · exact List.mem_singleton.mp hother ▸ hstack
  sequences := by
    rw [List.map_append, h.sequences, List.length_append, List.length_singleton,
      List.range'_1_concat, List.map_singleton, hsequence, Nat.add_comm 1]

end StackJournal.Stack
