import StackJournal.Proofs.Stack.History

/-! # Stacks in use

A stack in use executes kapps and is drained of the events it holds, in any order. What was drained
and what is held are together the events of its kapps, each once, and once they are recorded they are
replayed to the stack.
-/
namespace StackJournal

def Event.decided (event : Event) : Pending := ⟨event.stack, event.sequence, event.kind⟩

namespace Stack

inductive Move where
  | execute (kapp : Kapp)
  | drain
  deriving DecidableEq, Repr

def Move.kapp? : Move → Option Kapp
  | execute kapp => some kapp
  | drain => none

def live (stack : Stack) : List Move → List (List Pending) × Stack
  | [] => ([], stack)
  | .execute kapp :: moves => (stack.execute kapp).live moves
  | .drain :: moves =>
    let (batch, drained) := stack.takePending
    let (batches, last) := drained.live moves
    (batch :: batches, last)

/-- The stack has executed `kapps` since it was created, and `decided` are the events of that. -/
structure Executed (stack : Stack) (kapps : List Kapp) (decided : List Pending) : Prop where
  own : ∀ event ∈ decided, event.stack = stack.id
  sequences : decided.map (·.sequence) = List.range' 1 stack.version
  kinds : decided.map (·.kind) = .create :: kapps.map .kapp
  made : decided.foldl (fun stack event => stack.apply event.kind) (blank stack.id) =
    { stack with pending := #[] }

theorem executed_create (id : Uuid) :
    (create id).Executed [] (create id).pending.toList where
  own := by
    rintro _ (_ | ⟨_, ⟨⟩⟩)
    rfl
  sequences := rfl
  kinds := rfl
  made := rfl

namespace Executed

variable {stack : Stack} {kapps : List Kapp} {decided : List Pending}

theorem execute (h : stack.Executed kapps decided) (kapp : Kapp) :
    (stack.execute kapp).Executed (kapps ++ [kapp]) (decided ++ [stack.decide kapp]) where
  own event hevent := by
    rcases List.mem_append.mp hevent with hevent | hevent
    · exact h.own event hevent
    · rw [List.mem_singleton.mp hevent]
      rfl
  sequences := by
    rw [List.map_append, h.sequences, List.map_singleton]
    show _ ++ [stack.version + 1] = List.range' 1 (stack.version + 1)
    rw [List.range'_1_concat, Nat.add_comm 1]
  kinds := by
    rw [List.map_append, h.kinds, List.map_append, List.cons_append]
    rfl
  made := by
    rw [List.foldl_append]
    show List.foldl _ (decided.foldl _ (blank stack.id)) _ = _
    rw [h.made]
    rfl

/-- What is drained has been executed all the same. -/
theorem takePending (h : stack.Executed kapps decided) :
    stack.takePending.2.Executed kapps decided := ⟨h.own, h.sequences, h.kinds, h.made⟩

/-- Whatever the moves, the events drained before, those drained and those held are the events of the
kapps executed before and since. -/
theorem live (drained : List Pending)
    (h : stack.Executed kapps (drained ++ stack.pending.toList)) (moves : List Move) :
    ∃ batches last, stack.live moves = (batches, last) ∧ last.id = stack.id ∧
      last.Executed (kapps ++ moves.filterMap Move.kapp?)
        (drained ++ (batches.flatten ++ last.pending.toList)) := by
  -- a drain moves what is held to what was drained before, and the sum stays
  induction moves generalizing stack kapps drained with
  | nil =>
    refine ⟨[], stack, rfl, rfl, ?_⟩
    rw [List.filterMap_nil, List.append_nil]
    exact h
  | cons move moves ih =>
    cases move with
    | execute kapp =>
      have hheld : (stack.execute kapp).Executed (kapps ++ [kapp])
          (drained ++ (stack.execute kapp).pending.toList) := by
        have hpush : (stack.execute kapp).pending.toList =
            stack.pending.toList ++ [stack.decide kapp] := Array.toList_push
        rw [hpush, ← List.append_assoc]
        exact h.execute kapp
      obtain ⟨batches, last, hlive, hid, hlast⟩ := ih drained hheld
      rw [List.append_assoc, List.singleton_append] at hlast
      exact ⟨batches, last, hlive, hid, hlast⟩
    | drain =>
      have hdrained : stack.takePending.2.Executed kapps
          ((drained ++ stack.takePending.1) ++ stack.takePending.2.pending.toList) := by
        rw [show stack.takePending.2.pending.toList = [] from rfl, List.append_nil]
        exact h.takePending
      obtain ⟨batches, last, hlive, hid, hlast⟩ := ih _ hdrained
      refine ⟨stack.takePending.1 :: batches, last, ?_, hid, ?_⟩
      · rw [Stack.live]
        simp only [hlive]
      · rw [List.flatten_cons, List.append_assoc, ← List.append_assoc drained]
        exact hlast

/-- The events of a stack are replayed to it, with nothing held. -/
theorem ofHistory_recorded (h : stack.Executed kapps decided) {recorded : List Event}
    (hrecorded : recorded.map Event.decided = decided) :
    ofHistory stack.id recorded = .ok { stack with pending := #[] } := by
  have hkinds : recorded.map (·.kind) = .create :: kapps.map .kapp := by
    rw [← h.kinds, ← hrecorded, List.map_map]
    rfl
  have hsequences : recorded.map (·.sequence) = List.range' 1 stack.version := by
    rw [← h.sequences, ← hrecorded, List.map_map]
    rfl
  have hlength : recorded.length = stack.version := by
    have hlengths := congrArg List.length hsequences
    rwa [List.length_map, List.length_range'] at hlengths
  refine ofHistory_eq_ok_iff.mpr ⟨⟨?_, ?_, hlength ▸ hsequences⟩, ?_⟩
  · cases recorded with
    | nil => cases hkinds
    | cons first rest =>
      obtain ⟨hfirst, hrest⟩ := List.cons.inj hkinds
      refine ⟨first, rest, rfl, hfirst, ?_⟩
      intro event hevent hkind
      have hmem : EventKind.create ∈ kapps.map EventKind.kapp := by
        rw [← hrest, ← hkind]
        exact List.mem_map_of_mem hevent
      obtain ⟨_, _, hne⟩ := List.mem_map.mp hmem
      cases hne
  · intro event hevent
    exact h.own event.decided (hrecorded ▸ List.mem_map_of_mem hevent)
  · rw [← h.made, ← hrecorded, List.foldl_map]
    rfl

end Executed

/-- Whatever is done with a stack since its creation, the batches drained and then what is held are
its events with their sequences from 1 to its version, the first its creation and the others the
kapps executed, in order. Recorded at any positions and moments, they are replayed to the stack as it
is, with nothing held. -/
theorem live_replayed (id : Uuid) (moves : List Move) :
    ∃ batches last, (create id).live moves = (batches, last) ∧ last.id = id ∧
      (∀ event ∈ batches.flatten ++ last.pending.toList, event.stack = id) ∧
      (batches.flatten ++ last.pending.toList).map (·.sequence) = List.range' 1 last.version ∧
      (batches.flatten ++ last.pending.toList).map (·.kind) =
        .create :: (moves.filterMap Move.kapp?).map .kapp ∧
      ∀ recorded : List Event,
        recorded.map Event.decided = batches.flatten ++ last.pending.toList →
        ofHistory id recorded = .ok { last with pending := #[] } := by
  obtain ⟨batches, last, hlive, hid, hlast⟩ := Executed.live [] (executed_create id) moves
  rw [List.nil_append, List.nil_append] at hlast
  have hid : last.id = id := hid
  subst hid
  exact ⟨batches, last, hlive, rfl, hlast.own, hlast.sequences, hlast.kinds,
    fun _ hrecorded => hlast.ofHistory_recorded hrecorded⟩

/-- Two kapps, the stack drained after the first, and the three events recorded among others. -/
theorem drained_replayed :
    ∃ last, (create ⟨0⟩).live [.execute .zero, .drain, .execute .succ] =
        ([[⟨⟨0⟩, 1, .create⟩, ⟨⟨0⟩, 2, .kapp .zero⟩]], last) ∧ last.items = [1] ∧
      ofHistory ⟨0⟩ [⟨⟨0⟩, 1, .create, none, 7, .epoch⟩, ⟨⟨0⟩, 2, .kapp .zero, none, 8, .epoch⟩,
        ⟨⟨0⟩, 3, .kapp .succ, none, 11, .epoch⟩] = .ok { last with pending := #[] } := by
  obtain ⟨batches, last, hlive, _, _, _, _, hreplay⟩ :=
    live_replayed ⟨0⟩ [.execute .zero, .drain, .execute .succ]
  obtain ⟨rfl, rfl⟩ := Prod.mk.inj hlive
  exact ⟨_, rfl, by decide, hreplay _ rfl⟩

end Stack

end StackJournal
