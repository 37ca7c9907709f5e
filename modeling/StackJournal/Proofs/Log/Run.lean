import StackJournal.Log
import StackJournal.Proofs.Timestamp

/-! # Runs of a log in memory

A run takes calls to append one after another, each at its own moment. The moments are recorded with
the events and change no answer.
-/
namespace StackJournal

structure Call where
  stack : Uuid
  expected : Nat
  kind : EventKind
  payload : Option Json

def Call.event (call : Call) (now : Timestamp) (appended : Appended) : Event :=
  ⟨call.stack, appended.version, call.kind, call.payload, appended.position, now⟩

def Event.stamped (event : Event) (moment : Timestamp) : Event := { event with recordedAt := moment }

namespace Log

def run (log : Log) : List (Timestamp × Call) → List (Except StoreError Appended) × Log
  | [] => ([], log)
  | (now, call) :: calls =>
    let (reply, log) := log.append now call.stack call.expected call.kind call.payload
    let (replies, log) := log.run calls
    (reply :: replies, log)

def stamped (log : Log) (moment : Timestamp) : Log := ⟨log.events.map (·.stamped moment), log.streams⟩

def numbers (log : Log) (call : Call) : Appended := ⟨call.expected + 1, log.lastPosition + 1⟩

section Append

variable {log : Log} {stack : Uuid} {expected : Nat}

theorem append_taken (h : log.version stack = expected) (now : Timestamp) (kind : EventKind)
    (payload : Option Json) : log.append now stack expected kind payload =
      (.ok ⟨expected + 1, log.lastPosition + 1⟩,
        log.insert ⟨stack, expected + 1, kind, payload, log.lastPosition + 1, now⟩) := by
  rw [append, nextEvent, if_pos h]

theorem append_refused (h : log.version stack ≠ expected) (now : Timestamp) (kind : EventKind)
    (payload : Option Json) : log.append now stack expected kind payload =
      (.error (.conflict stack expected (log.version stack)), log) := by
  rw [append, nextEvent, if_neg h]

theorem append_current {call : Call} (h : log.version call.stack = call.expected) (now : Timestamp) :
    log.append now call.stack call.expected call.kind call.payload =
      (.ok (log.numbers call), log.insert (call.event now (log.numbers call))) :=
  append_taken h now call.kind call.payload

theorem append_behind {call : Call} (h : log.version call.stack ≠ call.expected) (now : Timestamp) :
    log.append now call.stack call.expected call.kind call.payload =
      (.error (.conflict call.stack call.expected (log.version call.stack)), log) :=
  append_refused h now call.kind call.payload

end Append

variable {a b : Log} {moment : Timestamp}

theorem version_of_stamped_eq (h : a.stamped moment = b.stamped moment) (stack : Uuid) :
    a.version stack = b.version stack := by
  have hsame : (a.stamped moment).version stack = (b.stamped moment).version stack := by rw [h]
  exact hsame

theorem lastPosition_of_stamped_eq (h : a.stamped moment = b.stamped moment) :
    a.lastPosition = b.lastPosition := by
  have hevents : a.events.map (·.stamped moment) = b.events.map (·.stamped moment) := congrArg events h
  have hsize := congrArg Array.size hevents
  rwa [Array.size_map, Array.size_map] at hsize

theorem stackCount_of_stamped_eq (h : a.stamped moment = b.stamped moment) :
    a.stackCount = b.stackCount := by
  have hsame : (a.stamped moment).stackCount = (b.stamped moment).stackCount := by rw [h]
  exact hsame

theorem load_stamped (log : Log) (moment : Timestamp) (stack : Uuid) :
    (log.stamped moment).load stack = (log.load stack).map (·.stamped moment) := by
  rw [load, load, List.map_filterMap]
  congr 1
  funext place
  exact Array.getElem?_map

theorem readFrom_stamped (log : Log) (moment : Timestamp) (position limit : Nat) :
    (log.stamped moment).readFrom position limit =
      (log.readFrom position limit).map (·.stamped moment) := by
  rw [readFrom, readFrom, stamped, ← Array.map_extract, Array.toList_map]

theorem insert_stamped (log : Log) (event : Event) (moment : Timestamp) :
    (log.insert event).stamped moment = (log.stamped moment).insert (event.stamped moment) := by
  simp [insert, stamped, Event.stamped]

/-- An event recorded at another moment leaves the same log but for it. -/
theorem insert_retimed (h : a.stamped moment = b.stamped moment) (call : Call)
    (now then' : Timestamp) : (a.insert (call.event now (a.numbers call))).stamped moment =
      (b.insert (call.event then' (b.numbers call))).stamped moment := by
  have hnumbers : a.numbers call = b.numbers call := by
    rw [numbers, numbers, lastPosition_of_stamped_eq h]
  rw [insert_stamped, insert_stamped, h, hnumbers]
  rfl

/-- Two logs that answer the same, but for the moments of their events. -/
structure AgreesWith (a b : Log) : Prop where
  load : ∀ stack moment,
    (a.load stack).map (·.stamped moment) = (b.load stack).map (·.stamped moment)
  readFrom : ∀ position limit moment, (a.readFrom position limit).map (·.stamped moment) =
    (b.readFrom position limit).map (·.stamped moment)
  lastPosition : a.lastPosition = b.lastPosition
  version : ∀ stack, a.version stack = b.version stack
  stackCount : a.stackCount = b.stackCount

theorem agreesWith_of_stamped_eq (h : ∀ moment, a.stamped moment = b.stamped moment) :
    a.AgreesWith b where
  load stack moment := by rw [← load_stamped, ← load_stamped, h]
  readFrom position limit moment := by rw [← readFrom_stamped, ← readFrom_stamped, h]
  lastPosition := lastPosition_of_stamped_eq (h .epoch)
  version stack := version_of_stamped_eq (h .epoch) stack
  stackCount := stackCount_of_stamped_eq (h .epoch)

/-- The same calls at other moments get the same answers, and leave the same log but for these. -/
theorem run_retimed (moment : Timestamp) {a b : Log} {calls timed : List (Timestamp × Call)}
    (h : a.stamped moment = b.stamped moment)
    (hcalls : calls.map Prod.snd = timed.map Prod.snd) :
    (a.run calls).1 = (b.run timed).1 ∧
      (a.run calls).2.stamped moment = (b.run timed).2.stamped moment := by
  induction calls generalizing a b timed with
  | nil =>
    cases timed with
    | nil => exact ⟨rfl, h⟩
    | cons _ _ => cases hcalls
  | cons entry calls ih =>
    cases timed with
    | nil => cases hcalls
    | cons other timed =>
      obtain ⟨now, call⟩ := entry
      obtain ⟨then', same⟩ := other
      obtain ⟨hcall, hrest⟩ := List.cons.inj hcalls
      simp only at hcall
      subst hcall
      have hversion := version_of_stamped_eq h call.stack
      by_cases hcurrent : a.version call.stack = call.expected
      · have hnumbers : a.numbers call = b.numbers call := by
          rw [numbers, numbers, lastPosition_of_stamped_eq h]
        obtain ⟨hreplies, hlog⟩ := ih (insert_retimed h call now then') hrest
        simp only [run, append_current hcurrent, append_current (hversion ▸ hcurrent), hnumbers]
        rw [hnumbers] at hreplies hlog
        exact ⟨congrArg _ hreplies, hlog⟩
      · obtain ⟨hreplies, hlog⟩ := ih h hrest
        have hbehind : b.version call.stack ≠ call.expected := hversion ▸ hcurrent
        simp only [run, append_behind hcurrent, append_behind hbehind, hversion]
        exact ⟨congrArg _ hreplies, hlog⟩

end Log

end StackJournal
