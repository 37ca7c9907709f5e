import Mathlib.Data.List.Basic
import StackJournal.Log

/-! # What a log keeps

The places of a stack are the places of its events, so that a stack is loaded without a search and
still completely. The moments at which events were recorded decide nothing else.
-/
namespace StackJournal

theorem Streams.places_skip {id other : Uuid} (h : other ≠ id) (found : Array Nat)
    (rest : Streams) : places ((id, found) :: rest) other = places rest other := by
  have hne : (other == id) = false := beq_false_of_ne h
  rw [places, List.lookup_cons, hne]
  rfl

theorem Streams.places_push (streams : Streams) (stack other : Uuid) (place : Nat) :
    (streams.push stack place).places other =
      if other = stack then (streams.places other).push place else streams.places other := by
  induction streams with
  | nil =>
    by_cases h : other = stack
    · subst h
      simp [push, places]
    · rw [push, places_skip h, if_neg h]
  | cons entry streams ih =>
    obtain ⟨id, found⟩ := entry
    by_cases hid : id = stack
    · subst hid
      by_cases h : other = id
      · subst h
        simp [push, places]
      · rw [push, if_pos rfl, places_skip h, places_skip h, if_neg h]
    · by_cases h : other = id
      · subst h
        simp [push, places, hid]
      · rw [push, if_neg hid, places_skip h, places_skip h, ih]

namespace Log

/-- The places of every stack are the places of its events, in order. -/
def Indexed (log : Log) : Prop := ∀ stack, (log.streams.places stack).toList =
  (log.events.toList.zipIdx.filter fun p => p.1.stack == stack).map Prod.snd

theorem indexed_empty : empty.Indexed := fun _ => rfl

theorem Indexed.insert {log : Log} (h : log.Indexed) (event : Event) :
    (log.insert event).Indexed := by
  intro stack
  have hlast : (log.insert event).events.toList.zipIdx =
      log.events.toList.zipIdx ++ [(event, log.events.size)] := by
    simp [Log.insert, List.zipIdx_append]
  rw [hlast, List.filter_append, List.map_append, ← h stack]
  simp only [Log.insert, Streams.places_push]
  by_cases hs : stack = event.stack
  · subst hs
    simp
  · have hne : (event.stack == stack) = false := beq_false_of_ne fun heq => hs heq.symm
    simp [hs, hne]

/-- The events of a stack are all loaded, in order. -/
theorem Indexed.load_eq {log : Log} (h : log.Indexed) (stack : Uuid) :
    log.load stack = log.events.toList.filter fun event => event.stack == stack := by
  have hget : ∀ p ∈ log.events.toList.zipIdx.filter fun p => p.1.stack == stack,
      log.events[p.2]? = some p.1 := by
    intro p hp
    have hmem := List.mem_zipIdx_iff_getElem?.mp (List.mem_filter.mp hp).1
    rwa [Array.getElem?_toList] at hmem
  calc log.load stack
    _ = (log.events.toList.zipIdx.filter fun p => p.1.stack == stack).filterMap
        (log.events[·.2]?) := by rw [load, h stack, List.filterMap_map]; rfl
    _ = (log.events.toList.zipIdx.filter fun p => p.1.stack == stack).filterMap
        (some ∘ Prod.fst) := List.filterMap_congr hget
    _ = (log.events.toList.zipIdx.map Prod.fst).filter fun event => event.stack == stack := by
      rw [List.filterMap_eq_map, List.filter_map]
      rfl
    _ = log.events.toList.filter fun event => event.stack == stack := by rw [List.zipIdx_map_fst]

theorem Indexed.load_insert {log : Log} (h : log.Indexed) (event : Event) :
    (log.insert event).load event.stack = log.load event.stack ++ [event] := by
  rw [(h.insert event).load_eq, h.load_eq, Log.insert, Array.toList_push, List.filter_append,
    List.filter_singleton, beq_self_eq_true]
  rfl

theorem Indexed.version_le {log : Log} (h : log.Indexed) (stack : Uuid) :
    log.version stack ≤ log.lastPosition := by
  have hplaces := congrArg List.length (h stack)
  have hfilter := List.length_filter_le (fun p : Event × Nat => p.1.stack == stack)
    log.events.toList.zipIdx
  rw [Array.length_toList, List.length_map] at hplaces
  rw [List.length_zipIdx, Array.length_toList] at hfilter
  rw [version, lastPosition, hplaces]
  exact hfilter

@[simp] theorem lastPosition_insert (log : Log) (event : Event) :
    (log.insert event).lastPosition = log.lastPosition + 1 := Array.size_push event

/-- Two logs of the same stacks in the same order. -/
structure Alike (a b : Log) : Prop where
  streams : a.streams = b.streams
  size : a.events.size = b.events.size

theorem Alike.refl (a : Log) : a.Alike a := ⟨rfl, rfl⟩

theorem Alike.insert {a b : Log} (h : a.Alike b) {event other : Event}
    (hstack : event.stack = other.stack) : (a.insert event).Alike (b.insert other) := by
  refine ⟨?_, ?_⟩
  · rw [Log.insert, Log.insert, h.streams, h.size, hstack]
  · rw [Log.insert, Log.insert, Array.size_push, Array.size_push, h.size]

theorem Alike.lastPosition {a b : Log} (h : a.Alike b) : a.lastPosition = b.lastPosition := h.size

theorem Alike.version {a b : Log} (h : a.Alike b) (stack : Uuid) :
    a.version stack = b.version stack := by
  rw [Log.version, Log.version, h.streams]

end Log

end StackJournal
