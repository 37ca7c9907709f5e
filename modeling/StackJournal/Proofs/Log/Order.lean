import Mathlib.Data.List.Dedup
import Mathlib.Data.List.Induction
import StackJournal.Proofs.Log.Index
import StackJournal.Proofs.Log.Run
import StackJournal.Store.Trouble

/-! # Logs in order

In a log in order the events are numbered by their places, those of each stack are numbered from 1,
and the streams tell just the stacks with events. Appending keeps the order, whatever is asked to be
appended. All that a log in order answers can be told from its events.
-/
namespace StackJournal

namespace Streams

variable (streams : Streams)

def owners : List Uuid := streams.map Prod.fst

theorem owners_push (stack : Uuid) (place : Nat) : owners (push stack place streams) =
    if stack ∈ streams.owners then streams.owners else streams.owners ++ [stack] := by
  induction streams with
  | nil => rfl
  | cons entry streams ih =>
    obtain ⟨id, found⟩ := entry
    by_cases h : id = stack
    · subst h
      simp [push, owners]
    · have hne : stack ≠ id := fun heq => h heq.symm
      have hcons : owners (push stack place ((id, found) :: streams)) =
          id :: owners (push stack place streams) := by rw [push, if_neg h, owners, owners]; rfl
      have hmem : stack ∈ owners ((id, found) :: streams) ↔ stack ∈ owners streams := by
        simp [owners, hne]
      rw [hcons, ih]
      simp only [hmem]
      split <;> rfl

theorem mem_owners_push {stack other : Uuid} {place : Nat} :
    other ∈ owners (push stack place streams) ↔ other ∈ streams.owners ∨ other = stack := by
  rw [owners_push]
  by_cases h : stack ∈ streams.owners
  · rw [if_pos h]
    constructor
    · exact Or.inl
    · rintro (hmem | rfl)
      · exact hmem
      · exact h
  · rw [if_neg h, List.mem_append, List.mem_singleton]

theorem nodup_owners_push {streams : Streams} (h : streams.owners.Nodup) (stack : Uuid)
    (place : Nat) : (owners (push stack place streams)).Nodup := by
  rw [owners_push]
  by_cases hmem : stack ∈ streams.owners
  · rwa [if_pos hmem]
  · rw [if_neg hmem]
    exact List.nodup_append.mpr ⟨h, List.nodup_singleton stack, by
      rintro id hid other hother rfl
      exact hmem (List.mem_singleton.mp hother ▸ hid)⟩

end Streams

namespace Log

theorem version_insert (log : Log) (event : Event) (stack : Uuid) :
    (log.insert event).version stack =
      if stack = event.stack then log.version stack + 1 else log.version stack := by
  rw [version, insert, Streams.places_push]
  split
  · exact Array.size_push _
  · rfl

theorem Indexed.load_insert_of_ne {log : Log} (h : log.Indexed) {event : Event} {stack : Uuid}
    (hne : event.stack ≠ stack) : (log.insert event).load stack = log.load stack := by
  rw [(h.insert event).load_eq, h.load_eq, Log.insert, Array.toList_push, List.filter_append,
    List.filter_singleton, beq_false_of_ne hne]
  exact List.append_nil _

theorem Indexed.length_load {log : Log} (h : log.Indexed) (stack : Uuid) :
    (log.load stack).length = log.version stack := by
  have hplaces := congrArg List.length (h stack)
  have hload := congrArg List.length (h.load_eq stack)
  rw [Array.length_toList, List.length_map] at hplaces
  rw [hload, version, hplaces, ← List.zipIdx_map_fst 0 log.events.toList, List.filter_map,
    List.length_map, List.zipIdx_map_fst]
  rfl

/-- The version of a stack is the number of its events. -/
theorem Indexed.version_eq {log : Log} (h : log.Indexed) (stack : Uuid) :
    log.version stack = log.events.toList.countP (·.stack == stack) := by
  rw [← h.length_load, h.load_eq, List.countP_eq_length_filter]

structure Ordered (log : Log) : Prop where
  /-- The event at a place has the next number as its position. -/
  positions : log.events.toList.map (·.position) = List.range' 1 log.lastPosition
  /-- The stream of a stack has the places of its events, in order. -/
  indexed : log.Indexed
  sequences : ∀ stack, (log.load stack).map (·.sequence) = List.range' 1 (log.version stack)
  nodup : log.streams.owners.Nodup
  mem_owners : ∀ stack, stack ∈ log.streams.owners ↔ ∃ event ∈ log.events.toList, event.stack = stack

theorem ordered_empty : empty.Ordered where
  positions := rfl
  indexed := indexed_empty
  sequences _ := rfl
  nodup := List.nodup_nil
  mem_owners stack := by simp [empty, Streams.owners]

variable {log : Log}

/-- Inserting the next event keeps a log in order. -/
theorem Ordered.insert (h : log.Ordered) {event : Event}
    (hposition : event.position = log.lastPosition + 1)
    (hsequence : event.sequence = log.version event.stack + 1) : (log.insert event).Ordered where
  positions := by
    rw [lastPosition_insert, List.range'_1_concat, ← h.positions, Log.insert, Array.toList_push,
      List.map_append, List.map_singleton, hposition, Nat.add_comm 1]
  indexed := h.indexed.insert event
  sequences stack := by
    rw [version_insert]
    by_cases hs : stack = event.stack
    · subst hs
      rw [if_pos rfl, h.indexed.load_insert, List.map_append, h.sequences, List.range'_1_concat,
        List.map_singleton, hsequence, Nat.add_comm 1]
    · rw [if_neg hs, h.indexed.load_insert_of_ne fun heq => hs heq.symm, h.sequences]
  nodup := Streams.nodup_owners_push h.nodup _ _
  mem_owners stack := by
    rw [Log.insert, Streams.mem_owners_push, h.mem_owners, Array.toList_push]
    constructor
    · rintro (⟨found, hfound, hstack⟩ | rfl)
      · exact ⟨found, List.mem_append_left _ hfound, hstack⟩
      · exact ⟨event, List.mem_append_right _ (List.mem_singleton_self event), rfl⟩
    · rintro ⟨found, hfound, hstack⟩
      rcases List.mem_append.mp hfound with hfound | hfound
      · exact Or.inl ⟨found, hfound, hstack⟩
      · exact Or.inr (List.mem_singleton.mp hfound ▸ hstack.symm)

theorem Ordered.append (h : log.Ordered) (now : Timestamp) (call : Call) :
    (log.append now call.stack call.expected call.kind call.payload).2.Ordered := by
  by_cases hcurrent : log.version call.stack = call.expected
  · rw [append_current hcurrent]
    exact h.insert rfl (congrArg (· + 1) hcurrent.symm)
  · rw [append_behind hcurrent]
    exact h

theorem Ordered.run (h : log.Ordered) (calls : List (Timestamp × Call)) :
    (log.run calls).2.Ordered := by
  induction calls generalizing log with
  | nil => exact h
  | cons entry calls ih => exact ih (h.append entry.1 entry.2)

/-- Consecutive numbers from some number on are those that are left after a few. -/
theorem filter_le_eq_drop {α : Type} {f : α → Nat} {first : Nat} {xs : List α}
    (h : xs.map f = List.range' first xs.length) (p : Nat) :
    xs.filter (p ≤ f ·) = xs.drop (p - first) := by
  induction xs generalizing first with
  | nil => simp
  | cons x xs ih =>
    by_cases hp : p ≤ first
    · have hall : ∀ y ∈ x :: xs, decide (p ≤ f y) = true := by
        intro y hy
        have hmem : f y ∈ List.range' first (x :: xs).length := h ▸ List.mem_map_of_mem hy
        have hle := (List.mem_range'_1.mp hmem).1
        exact decide_eq_true (Nat.le_trans hp hle)
      rw [List.filter_eq_self.mpr hall, Nat.sub_eq_zero_of_le hp, List.drop_zero]
    · rw [List.length_cons, List.range'_succ, List.map_cons] at h
      obtain ⟨hx, hxs⟩ := List.cons.inj h
      have hless : ¬p ≤ f x := by omega
      have hdrop : p - first = (p - (first + 1)) + 1 := by omega
      rw [List.filter_cons_of_neg (by simpa using hless), ih hxs, hdrop, List.drop_succ_cons]

/-- Consecutive numbers below some number come before the others. -/
theorem filter_lt_append_filter_le {α : Type} {f : α → Nat} {first : Nat} {xs : List α}
    (h : xs.map f = List.range' first xs.length) (p : Nat) :
    xs.filter (f · < p) ++ xs.filter (p ≤ f ·) = xs := by
  induction xs generalizing first with
  | nil => rfl
  | cons x xs ih =>
    by_cases hp : p ≤ first
    · have hall : (x :: xs).filter (p ≤ f ·) = x :: xs := by
        rw [filter_le_eq_drop h, Nat.sub_eq_zero_of_le hp, List.drop_zero]
      have hnone : (x :: xs).filter (f · < p) = [] := by
        refine List.filter_eq_nil_iff.mpr fun y hy => ?_
        have hle := List.filter_eq_self.mp hall y hy
        simpa using hle
      rw [hall, hnone, List.nil_append]
    · rw [List.length_cons, List.range'_succ, List.map_cons] at h
      obtain ⟨hx, hxs⟩ := List.cons.inj h
      have hless : f x < p := by omega
      rw [List.filter_cons_of_pos (by simpa using hless),
        List.filter_cons_of_neg (by simpa using hless), List.cons_append, ih hxs]

theorem take_range' (first n limit : Nat) :
    (List.range' first n).take limit = List.range' first (min limit n) :=
  List.ext_getElem (by simp) (by simp)

theorem readFrom_eq (log : Log) (position limit : Nat) :
    log.readFrom position limit = (log.events.toList.drop (position - 1)).take limit := by
  rw [readFrom, Array.toList_extract, List.extract_eq_take_drop, Nat.add_sub_cancel_left]

theorem Ordered.filter_position (h : log.Ordered) (position : Nat) :
    log.events.toList.filter (max position 1 ≤ ·.position) =
      log.events.toList.drop (position - 1) := by
  have hpositions := h.positions
  rw [lastPosition, ← Array.length_toList] at hpositions
  rw [filter_le_eq_drop hpositions]
  congr 1
  omega

theorem Ordered.positions_from (h : log.Ordered) (position : Nat) :
    (log.events.toList.filter (max position 1 ≤ ·.position)).map (·.position) =
      List.range' (max position 1) (log.lastPosition + 1 - max position 1) := by
  rw [h.filter_position, List.map_drop, h.positions, List.drop_range']
  congr 1 <;> omega

/-- What a log answers, told from its events. -/
structure Plain (log : Log) : Prop where
  load : ∀ stack, log.load stack = log.events.toList.filter (·.stack == stack)
  sequences : ∀ stack, (log.load stack).map (·.sequence) = List.range' 1 (log.version stack)
  version : ∀ stack, log.version stack = Troubled.lastSequence (log.load stack)
  lastPosition : log.lastPosition = log.events.toList.length
  stackCount : log.stackCount = (log.events.toList.map (·.stack)).dedup.length
  readFrom : ∀ position limit, log.readFrom position limit =
    (log.events.toList.filter (max position 1 ≤ ·.position)).take limit
  positions : ∀ position limit, (log.readFrom position limit).map (·.position) =
    List.range' (max position 1) (min limit (log.lastPosition + 1 - max position 1))

theorem Ordered.lastSequence_load (h : log.Ordered) (stack : Uuid) :
    Troubled.lastSequence (log.load stack) = log.version stack := by
  rw [Troubled.lastSequence, ← List.getLast?_map, h.sequences]
  cases log.version stack with
  | zero => rfl
  | succ n =>
    rw [List.range'_1_concat, List.getLast?_concat, Option.getD_some, Nat.add_comm]

theorem Ordered.stackCount_eq (h : log.Ordered) :
    log.stackCount = (log.events.toList.map (·.stack)).dedup.length := by
  have hperm : log.streams.owners.Perm (log.events.toList.map (·.stack)).dedup := by
    refine (List.perm_ext_iff_of_nodup h.nodup (List.nodup_dedup _)).mpr fun stack => ?_
    rw [h.mem_owners, List.mem_dedup, List.mem_map]
  rw [stackCount, ← hperm.length_eq, Streams.owners, List.length_map]

theorem Ordered.map_position_readFrom (h : log.Ordered) (position limit : Nat) :
    (log.readFrom position limit).map (·.position) =
      List.range' (max position 1) (min limit (log.lastPosition + 1 - max position 1)) := by
  rw [readFrom_eq, List.map_take, List.map_drop, h.positions, List.drop_range', take_range']
  congr 1 <;> omega

theorem Ordered.plain (h : log.Ordered) : log.Plain where
  load := h.indexed.load_eq
  sequences := h.sequences
  version stack := (h.lastSequence_load stack).symm
  lastPosition := rfl
  stackCount := h.stackCount_eq
  readFrom position limit := by rw [h.filter_position, readFrom_eq]
  positions := h.map_position_readFrom

def ofEvents (events : List Event) : Log := events.foldl insert empty

@[simp] theorem ofEvents_concat (events : List Event) (event : Event) :
    ofEvents (events ++ [event]) = (ofEvents events).insert event := by
  simp [ofEvents]

@[simp] theorem toList_events_ofEvents (events : List Event) :
    (ofEvents events).events.toList = events := by
  induction events using List.reverseRecOn with
  | nil => rfl
  | append_singleton events event ih => simp [insert, ih]

theorem indexed_ofEvents (events : List Event) : (ofEvents events).Indexed := by
  induction events using List.reverseRecOn with
  | nil => exact indexed_empty
  | append_singleton events event ih => simpa using ih.insert event

@[simp] theorem lastPosition_ofEvents (events : List Event) :
    (ofEvents events).lastPosition = events.length := by
  simp [lastPosition, ← Array.length_toList]

@[simp] theorem version_ofEvents (events : List Event) (stack : Uuid) :
    (ofEvents events).version stack = events.countP (·.stack == stack) := by
  simp [(indexed_ofEvents events).version_eq]

def Extends (longer log : Log) : Prop := log.events.toList <+: longer.events.toList

section Extends

variable {longer longest : Log}

theorem Extends.refl (log : Log) : log.Extends log := List.prefix_refl _

theorem Extends.trans (h : longest.Extends longer) (h' : longer.Extends log) :
    longest.Extends log := List.IsPrefix.trans h' h

theorem extends_insert (log : Log) (event : Event) : (log.insert event).Extends log := by
  rw [Extends, insert, Array.toList_push]
  exact List.prefix_append _ _

theorem extends_append (log : Log) (now : Timestamp) (call : Call) :
    (log.append now call.stack call.expected call.kind call.payload).2.Extends log := by
  by_cases hcurrent : log.version call.stack = call.expected
  · rw [append_current hcurrent]
    exact log.extends_insert _
  · rw [append_behind hcurrent]
    exact .refl log

theorem Extends.load (h : longer.Extends log) (hlog : log.Ordered) (hlonger : longer.Ordered)
    (stack : Uuid) : log.load stack <+: longer.load stack := by
  rw [hlog.indexed.load_eq, hlonger.indexed.load_eq]
  exact List.IsPrefix.filter _ h

/-- A stack whose version is the same has the same events. -/
theorem Extends.load_eq (h : longer.Extends log) (hlog : log.Ordered) (hlonger : longer.Ordered)
    {stack : Uuid} (hversion : longer.version stack = log.version stack) :
    longer.load stack = log.load stack := by
  have hlength : (log.load stack).length = (longer.load stack).length := by
    rw [hlog.indexed.length_load, hlonger.indexed.length_load, hversion]
  exact ((h.load hlog hlonger stack).eq_of_length hlength).symm

theorem Extends.version_le (h : longer.Extends log) (hlog : log.Ordered) (hlonger : longer.Ordered)
    (stack : Uuid) : log.version stack ≤ longer.version stack := by
  rw [← hlog.indexed.length_load, ← hlonger.indexed.length_load]
  exact (h.load hlog hlonger stack).length_le

theorem Extends.version_ne_zero (h : longer.Extends log) (hlog : log.Ordered)
    (hlonger : longer.Ordered) {stack : Uuid} (existing : log.version stack ≠ 0) :
    longer.version stack ≠ 0 :=
  fun hnone => existing (Nat.le_zero.mp (hnone ▸ h.version_le hlog hlonger stack))

end Extends

end Log

end StackJournal
