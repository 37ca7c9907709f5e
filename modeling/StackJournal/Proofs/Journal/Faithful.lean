import StackJournal.Proofs.Journal.Run

/-! # Faithful journals

A journal is faithful if its file holds its log and ends in whole lines. Tidy steps keep it so:
reopening changes nothing, and the log grows as a log in memory does.
-/
namespace StackJournal.Journal

open Text

structure Faithful (journal : Journal) : Prop where
  sound : journal.poisoned = false
  indexed : journal.log.Indexed
  fresh : Fresh journal.file
  loads : load journal.file = .ok journal.log

variable {journal : Journal}

theorem ofFile_of_load (hsound : journal.poisoned = false)
    (hload : load journal.file = .ok journal.log) : ofFile journal.file = .ok journal := by
  have hsame : (⟨journal.log, journal.file, false⟩ : Journal) = journal := by
    rw [← hsound]
  rw [ofFile, hload]
  exact congrArg Except.ok hsame

/-- Reopening a faithful journal gives the same journal. -/
theorem Faithful.ofFile_eq (h : journal.Faithful) : ofFile journal.file = .ok journal :=
  ofFile_of_load h.sound h.loads

theorem reread_of_payload_none {event : Event} (h : event.payload = none) :
    event.reread = .ok event := by
  rw [Event.reread, h]

/-- The numbers of the next event fit 64 bits if the log has room. -/
theorem next_lt (hindexed : journal.log.Indexed) (hroom : journal.log.lastPosition + 1 < UInt64.size)
    {call : Call} (hcurrent : journal.log.version call.stack = call.expected) (now : Timestamp) :
    (journal.next now call).position < UInt64.size ∧
      (journal.next now call).sequence < UInt64.size := by
  have hle := hindexed.version_le call.stack
  rw [hcurrent] at hle
  refine ⟨hroom, ?_⟩
  show call.expected + 1 < UInt64.size
  omega

/-- The next event is loaded after the file's own. -/
theorem load_next {log : Log} (hload : load journal.file = .ok log) (hfresh : Fresh journal.file)
    (halike : log.Alike journal.log) (hindexed : journal.log.Indexed)
    (hroom : journal.log.lastPosition + 1 < UInt64.size) {call : Call}
    (hcurrent : journal.log.version call.stack = call.expected) (now : Timestamp) {written : Nat}
    (hwhole : (journal.next now call).bytes.size ≤ written + 1) :
    load (journal.file ++ (journal.next now call).bytes.extract 0 written) =
      match (journal.next now call).reread with
      | .error error =>
        .error (.invalidEvent (1 + (endedLines journal.file).length) (.unreadable error))
      | .ok read => .ok (log.insert read) := by
  obtain ⟨hposition, hsequence⟩ := next_lt hindexed hroom hcurrent now
  have hsize := (journal.next now call).size_bytes
  have hlong := (journal.next now call).length_encode_pos
  refine load_written hload (by omega) hfresh hwhole ?_ ?_ hposition hsequence
  · show journal.log.lastPosition + 1 = log.lastPosition + 1
    rw [halike.lastPosition]
  · show call.expected + 1 = log.version call.stack + 1
    rw [halike.version, hcurrent]

/-- Recording an event without payload keeps a journal faithful. -/
theorem Faithful.record (h : journal.Faithful)
    (hroom : journal.log.lastPosition + 1 < UInt64.size) {call : Call}
    (hpayload : call.payload = none)
    (hcurrent : journal.log.version call.stack = call.expected) (now : Timestamp) :
    Faithful { journal with
      log := journal.log.insert (journal.next now call)
      file := journal.file ++ (journal.next now call).bytes } := by
  have hload := load_next h.loads h.fresh (.refl _) h.indexed hroom hcurrent now
    (Nat.le_succ (journal.next now call).bytes.size)
  rw [ByteArray.extract_zero_size, reread_of_payload_none hpayload] at hload
  exact ⟨h.sound, h.indexed.insert _, fresh_of_openEnd (openEnd_append_bytes _ _), hload⟩

/-- What a tidy run leaves behind: a faithful journal, an error for each append that the disk stopped
and for no other, the log of a run in memory, and the events recorded, in the log and in the file. -/
structure Follows (journal : Journal) (answered : List Answered) (last : Journal) : Prop where
  faithful : last.Faithful
  stopped_iff : ∀ append ∈ answered, append.stopped = true ↔ append.reply = .error (.io none)
  log_eq : journal.log.run ((served answered).map fun a => (a.now, a.call)) =
    ((served answered).map (·.reply), last.log)
  events_eq : last.log.events.toList = journal.log.events.toList ++ recorded answered
  file_eq : last.file.data.toList =
    journal.file.data.toList ++ (recorded answered).flatMap (·.bytes.data.toList)

theorem Faithful.follows (h : journal.Faithful) : journal.Follows [] journal :=
  ⟨h, by simp, rfl, (List.append_nil _).symm, (List.append_nil _).symm⟩

section Follows

variable {last : Journal} {answered : List Answered} {now : Timestamp} {call : Call}

theorem Follows.stopped (h : journal.Follows answered last) (fault : WriteFault) :
    journal.Follows (⟨now, call, some fault, .error (.io none)⟩ :: answered) last := by
  refine ⟨h.faithful, ?_, h.log_eq, h.events_eq, h.file_eq⟩
  simpa [Answered.stopped] using h.stopped_iff

theorem Follows.behind (h : journal.Follows answered last)
    (behind : journal.log.version call.stack ≠ call.expected) :
    journal.Follows (⟨now, call, none, .error (.conflict call.stack call.expected
      (journal.log.version call.stack))⟩ :: answered) last := by
  refine ⟨h.faithful, by simpa [Answered.stopped] using h.stopped_iff, ?_, h.events_eq, h.file_eq⟩
  have hlog := h.log_eq
  simp only [served_none, List.map_cons, Log.run, Log.append_behind behind]
  rw [hlog]

theorem Follows.recorded
    (h : Follows { journal with
      log := journal.log.insert (journal.next now call)
      file := journal.file ++ (journal.next now call).bytes } answered last)
    (current : journal.log.version call.stack = call.expected) :
    journal.Follows (⟨now, call, none, .ok (journal.log.numbers call)⟩ :: answered) last := by
  refine ⟨h.faithful, ?_, ?_, ?_, ?_⟩
  · simpa [Answered.stopped] using h.stopped_iff
  · have hlog := h.log_eq
    simp only [next] at hlog
    simp only [served_none, List.map_cons, Log.run, Log.append_current current]
    rw [hlog]
  · have hevents := h.events_eq
    rw [hevents, Log.insert, Array.toList_push, List.append_assoc, recorded_ok]
    rfl
  · have hfile := h.file_eq
    rw [hfile, ByteArray.data_append, Array.toList_append, List.append_assoc, recorded_ok,
      List.flatMap_cons, next]

end Follows

/-- Tidy steps succeed from a faithful journal, and leave what they should. -/
theorem Faithful.run (h : journal.Faithful) {steps : List Step}
    (tidy : ∀ step ∈ steps, step.Tidy)
    (few : journal.log.lastPosition + steps.length < UInt64.size) :
    ∃ answered last, journal.run steps = .ok (answered, last) ∧
      journal.Follows answered last := by
  induction steps generalizing journal with
  | nil => exact ⟨[], journal, rfl, h.follows⟩
  | cons step steps ih =>
    rw [List.length_cons] at few
    have hrest : ∀ step ∈ steps, step.Tidy := fun s hs => tidy s (List.mem_cons_of_mem step hs)
    cases step with
    | reopen =>
      obtain ⟨answered, last, hrun, hfollows⟩ := ih h hrest (by omega)
      rw [run_reopen h.ofFile_eq]
      exact ⟨answered, last, hrun, hfollows⟩
    | append now disk call =>
      obtain ⟨hpayload, hdisk⟩ := tidy _ List.mem_cons_self
      have htakes := takes journal now disk call
      generalize htake : journal.take now disk call = result at htakes
      cases htakes with
      | poisoned poisoned =>
        rw [h.sound] at poisoned
        cases poisoned
      | behind _ behind =>
        obtain ⟨answered, last, hrun, hfollows⟩ := ih h hrest (by omega)
        rw [run_append htake hrun, fault?_behind behind]
        exact ⟨_, last, rfl, hfollows.behind behind⟩
      | recorded sound current whole =>
        have hroom : journal.log.lastPosition + 1 < UInt64.size := by omega
        have hmore : (journal.log.insert (journal.next now call)).lastPosition + steps.length <
            UInt64.size := by
          rw [Log.lastPosition_insert]
          omega
        obtain ⟨answered, last, hrun, hfollows⟩ :=
          ih (h.record hroom hpayload current now) hrest hmore
        rw [run_append htake hrun, fault?_current sound current, whole]
        exact ⟨_, last, rfl, hfollows.recorded current⟩
      | undone sound current failed _ =>
        obtain ⟨answered, last, hrun, hfollows⟩ := ih h hrest (by omega)
        rw [run_append htake hrun, fault?_current sound current, failed]
        exact ⟨_, last, rfl, hfollows.stopped _⟩
      | torn _ _ failed kept =>
        have hundone := hdisk _ _ failed
        rw [kept] at hundone
        cases hundone

end StackJournal.Journal
