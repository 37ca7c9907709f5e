import StackJournal.Proofs.Journal.Recovery
import StackJournal.Proofs.Log.Opened
import StackJournal.Store

/-! # Appends that fail

Whatever the disk does, an open journal answers its reads from the events it was opened with and
those it recorded since. A write that failed and was cut back can be tried again as if it had not
been; one that could not be cut back ends all appends, and changes no read.
-/
namespace StackJournal

def Request.told (events : List Event) : (request : Request) → Option request.Reply
  | append .. => none
  | load stack => some (.ok (events.filter (·.stack == stack)))
  | version stack => some (.ok (events.countP (·.stack == stack)))
  | read position limit => some (.ok ((events.filter (max position 1 ≤ ·.position)).take limit))
  | last => some (.ok events.length)

namespace Journal

structure Write where
  now : Timestamp
  disk : Disk
  call : Call

namespace Write

def step (write : Write) : Step := .append write.now write.disk write.call

def turnedAway (write : Write) : Answered := ⟨write.now, write.call, none, .error .poisoned⟩

end Write

structure AnswersFrom (journal : Journal) (events : List Event) : Prop where
  reads : ∀ now disk request reply, Request.told events request = some reply →
    journal.answers now disk request = (reply, journal)
  stackCount : journal.log.stackCount = (events.map (·.stack)).dedup.length

structure Shows (journal : Journal) (events : List Event) : Prop where
  ordered : journal.log.Ordered
  events_eq : journal.log.events.toList = events

variable {journal : Journal} {events : List Event}

theorem Shows.answersFrom (h : journal.Shows events) : journal.AnswersFrom events where
  reads now disk request reply told := by
    have hplain := h.ordered.plain
    have hversion := h.ordered.indexed.version_eq
    obtain ⟨_, rfl⟩ := h
    cases request with
    | append stack expected kind payload => cases told
    | load stack =>
      cases told
      simp [answers, hplain.load]
    | version stack =>
      cases told
      simp [answers, hversion]
    | read position limit =>
      cases told
      simp [answers, hplain.readFrom]
    | last =>
      cases told
      simp [answers, hplain.lastPosition]
  stackCount := by simp [h.ordered.stackCount_eq, h.events_eq]

/-- An append that is accepted adds its event, and any other adds none. -/
theorem Shows.take (h : journal.Shows events) (now : Timestamp) (disk : Disk) (call : Call) :
    (journal.take now disk call).2.Shows
      (events ++ recorded [journal.answer now disk call]) := by
  refine ⟨take_ordered h.ordered now disk call, ?_⟩
  rw [answer]
  have htakes := takes journal now disk call
  have hevents := h.events_eq
  generalize journal.take now disk call = result at htakes
  cases htakes with
  | poisoned _ => simpa using hevents
  | behind _ _ => simpa using hevents
  | recorded _ _ _ => simp [Log.insert, hevents, next]
  | undone _ _ _ _ => simpa using hevents
  | torn _ _ _ _ => simpa using hevents

/-- A run of appends comes to its end, and only those accepted add to what is shown. -/
theorem Shows.run (h : journal.Shows events) (writes : List Write) : ∃ answered last,
    journal.run (writes.map Write.step) = .ok (answered, last) ∧
      last.Shows (events ++ recorded answered) := by
  induction writes generalizing journal events with
  | nil => exact ⟨[], journal, rfl, by simpa using h⟩
  | cons write writes ih =>
    obtain ⟨answered, last, hrun, hlast⟩ := ih (h.take write.now write.disk write.call)
    rw [List.append_assoc, ← recorded_append] at hlast
    rw [List.map_cons, Write.step, run_append rfl hrun]
    exact ⟨_, last, rfl, hlast⟩

/-- No append to a poisoned journal changes it. -/
theorem run_poisoned (h : journal.poisoned = true) (writes : List Write) :
    journal.run (writes.map Write.step) = .ok (writes.map Write.turnedAway, journal) := by
  induction writes with
  | nil => rfl
  | cons write writes ih =>
    rw [List.map_cons, Write.step, run_append (take_poisoned h _ _ _) ih, fault?_poisoned h]
    rfl

/-- After any appends to an opened journal, whatever the disk does to their writes, all reads are
answered from the events of the file and those of the appends that were accepted. A write that
fails then changes no read; cut back, it leaves the file as it was and can be tried again as if for
the first time; not cut back, it is the last, for the journal turns away every append that follows and
stays as it is. -/
theorem failed_appends_unseen {file : ByteArray} {opened : Journal}
    (accepted : ofFile file = .ok opened) (writes : List Write) : ∃ answered last,
    opened.run (writes.map Write.step) = .ok (answered, last) ∧
      last.AnswersFrom (opened.log.events.toList ++ recorded answered) ∧
      ∀ now disk call fault, last.Fails now disk call fault → ∃ after,
        last.take now disk call = (.error (.io none), after) ∧
        after.AnswersFrom (opened.log.events.toList ++ recorded answered) ∧
        (fault.undone = true → after = last ∧
          (last.take now .sound call).1 = .ok (last.log.numbers call) ∧
          ∀ moment, (after.take moment .sound call).1 = .ok (last.log.numbers call)) ∧
        (fault.undone = false → ∀ later : List Write,
          after.run (later.map Write.step) = .ok (later.map Write.turnedAway, after)) := by
  obtain ⟨log, hload, rfl⟩ := ofFile_eq_ok_iff.mp accepted
  have hopened : Shows ⟨log, file, false⟩ log.events.toList :=
    ⟨Log.Opened.ordered (Or.inr ⟨file, hload⟩), rfl⟩
  obtain ⟨answered, last, hrun, hlast⟩ := hopened.run writes
  refine ⟨answered, last, hrun, hlast.answersFrom, ?_⟩
  intro now disk call fault hfails
  have htake := hfails.take
  have hnumbers : ∀ moment, (last.take moment .sound call).1 = .ok (last.log.numbers call) := by
    intro moment
    rw [take_sound hfails.sound hfails.current]
  cases hundone : fault.undone with
  | true =>
    rw [hundone, if_pos rfl] at htake
    refine ⟨last, htake, hlast.answersFrom, ?_, by simp⟩
    exact fun _ => ⟨rfl, hnumbers now, hnumbers⟩
  | false =>
    rw [hundone, if_neg Bool.false_ne_true] at htake
    refine ⟨_, htake, ?_, by simp, ?_⟩
    · exact Shows.answersFrom ⟨hlast.ordered, hlast.events_eq⟩
    · exact fun _ later => run_poisoned rfl later

def retriedWrites : List Write :=
  [⟨.epoch, fun _ => some ⟨10, true⟩, creation ⟨0⟩⟩, ⟨.epoch, .sound, creation ⟨0⟩⟩]

/-- The stack is created on the second try, and then a write cannot be cut back. -/
theorem torn_append_unseen : ofFile .empty = .ok blank ∧ ∃ answered last,
    blank.run (retriedWrites.map Write.step) = .ok (answered, last) ∧
      last.AnswersFrom [firstEvent] ∧
      last.Fails .epoch (.torn 10) ⟨⟨0⟩, 1, .kapp .zero, none⟩ ⟨10, false⟩ ∧
      ∃ after, last.take .epoch (.torn 10) ⟨⟨0⟩, 1, .kapp .zero, none⟩ = (.error (.io none), after) ∧
        after.AnswersFrom [firstEvent] ∧
        after.run (retriedWrites.map Write.step) =
          .ok (retriedWrites.map Write.turnedAway, after) := by
  obtain ⟨answered, last, hrun, hreads, hfails⟩ :=
    @failed_appends_unseen .empty blank rfl retriedWrites
  have hcreated : blank.run (retriedWrites.map Write.step) = .ok (_, _) := rfl
  rw [hcreated] at hrun
  cases hrun
  obtain ⟨after, htake, hafter, _, hlater⟩ :=
    hfails .epoch (.torn 10) ⟨⟨0⟩, 1, .kapp .zero, none⟩ ⟨10, false⟩ ⟨rfl, rfl, rfl⟩
  exact ⟨rfl, _, _, hcreated, hreads, ⟨rfl, rfl, rfl⟩, after, htake, hafter, hlater rfl _⟩

end Journal

end StackJournal
