import StackJournal.Proofs.Journal.Accepted
import StackJournal.Proofs.Log.Order

/-! # Logs that can be had

A log is begun empty or read from a file, and then takes calls to append. It is in order at all times,
whatever the calls ask.
-/
namespace StackJournal

namespace Log

def Opened (log : Log) : Prop := log = empty ∨ ∃ file, Journal.load file = .ok log

variable {log : Log}

theorem Opened.ordered (h : log.Opened) : log.Ordered := by
  rcases h with rfl | ⟨file, hload⟩
  · exact ordered_empty
  · exact Journal.load_keeps (fun hlog hposition hsequence => hlog.insert hposition hsequence) hload
      ordered_empty

/-- A call is taken at the version it expects, and refused at any other without a trace. -/
structure Guarded (log : Log) : Prop where
  taken_iff : ∀ (now : Timestamp) (call : Call), (∃ appended,
    (log.append now call.stack call.expected call.kind call.payload).1 = .ok appended) ↔
      call.expected = log.version call.stack
  taken : ∀ (now : Timestamp) (call : Call), call.expected = log.version call.stack →
    log.append now call.stack call.expected call.kind call.payload =
      (.ok (log.numbers call), log.insert (call.event now (log.numbers call)))
  refused : ∀ (now : Timestamp) (call : Call), call.expected ≠ log.version call.stack →
    log.append now call.stack call.expected call.kind call.payload =
      (.error (.conflict call.stack call.expected (log.version call.stack)), log)

theorem guarded (log : Log) : log.Guarded where
  taken_iff now call := by
    by_cases h : log.version call.stack = call.expected
    · simp [append_current h, h]
    · have hne : call.expected ≠ log.version call.stack := fun heq => h heq.symm
      simp [append_behind h, hne]
  taken now call h := append_current h.symm now
  refused now call h := append_behind h.symm now

/-- After any calls, accepted or not, a log is in order, answers what its events tell, and takes just
the calls that know the version of their stack. -/
theorem opened_run_ordered (opened : log.Opened) (calls : List (Timestamp × Call)) :
    (log.run calls).2.Ordered ∧ (log.run calls).2.Plain ∧ (log.run calls).2.Guarded :=
  have ordered := opened.ordered.run calls
  ⟨ordered, ordered.plain, guarded _⟩

/-- A stack read from a file is created again, which fails, and goes on with a payload. -/
theorem reread_run_ordered :
    (empty.insert Journal.firstEvent).Opened ∧
      let calls := [(.epoch, Journal.creation ⟨0⟩), (.epoch, ⟨⟨0⟩, 1, .kapp .zero, some .null⟩)]
      let last := ((empty.insert Journal.firstEvent).run calls).2
      last.Ordered ∧ last.version ⟨0⟩ = 2 ∧ last.lastPosition = 2 := by
  have opened : (empty.insert Journal.firstEvent).Opened :=
    Or.inr ⟨_, Journal.load_line rfl rfl rfl⟩
  exact ⟨opened, (opened_run_ordered opened _).1, rfl, rfl⟩

end Log

namespace Journal

variable {journal last : Journal}

theorem take_ordered (h : journal.log.Ordered) (now : Timestamp) (disk : Disk) (call : Call) :
    (journal.take now disk call).2.log.Ordered := by
  have htakes := takes journal now disk call
  generalize journal.take now disk call = result at htakes
  cases htakes with
  | poisoned _ => exact h
  | behind _ _ => exact h
  | recorded _ current _ => exact h.insert rfl (congrArg (· + 1) current.symm)
  | undone _ _ _ _ => exact h
  | torn _ _ _ _ => exact h

/-- The log of a journal is in order whatever the disk did to it. -/
theorem run_ordered {steps : List Step} {answered : List Answered} (h : journal.log.Ordered)
    (hrun : journal.run steps = .ok (answered, last)) : last.log.Ordered := by
  replace hrun := runs_of_run hrun
  induction hrun with
  | nil _ => exact h
  | append _ ih => exact ih (take_ordered h _ _ _)
  | reopen opened _ ih =>
    obtain ⟨log, hload, rfl⟩ := ofFile_eq_ok_iff.mp opened
    exact ih (Log.Opened.ordered (Or.inr ⟨_, hload⟩))

theorem session_ordered {file : ByteArray} {steps : List Step} {answered : List Answered}
    (hrun : session file steps = .ok (answered, last)) : last.log.Ordered := by
  obtain ⟨_, hopen, hrest⟩ := bind_eq_ok_iff.mp hrun
  obtain ⟨log, hload, rfl⟩ := ofFile_eq_ok_iff.mp hopen
  exact run_ordered (Log.Opened.ordered (Or.inr ⟨_, hload⟩)) hrest

end Journal

end StackJournal
