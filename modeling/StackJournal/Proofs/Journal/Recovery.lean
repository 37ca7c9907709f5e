import StackJournal.Proofs.Journal.Reachable

/-! # Opening a poisoned journal again

A write that failed and could not be cut back leaves its bytes in the file. If there are any, the
next opening does not find the log as it was: part of a line is refused, and a whole line counts as
an event although its append failed.
-/
namespace StackJournal

open Text

/-- The disk on which every write fails after so many bytes, and nothing can be cut back. -/
def Disk.torn (written : Nat) : Disk := fun _ => some ⟨written, false⟩

namespace Journal

theorem take_torn {journal : Journal} (hsound : journal.poisoned = false) {call : Call}
    (hcurrent : journal.log.version call.stack = call.expected) (now : Timestamp) (written : Nat) :
    journal.take now (.torn written) call = (.error (.io none),
      { journal with
        file := journal.file ++ (journal.next now call).bytes.extract 0 written
        poisoned := true }) := by
  have hfails : journal.Fails now (.torn written) call ⟨written, false⟩ := ⟨hsound, hcurrent, rfl⟩
  simpa using hfails.take

/-- The journal that opening the file again should give: it holds what was recorded, and appends
work. -/
def Recovers (file : ByteArray) (answered : List Answered) : Prop :=
  ∃ reopened, ofFile file = .ok reopened ∧
    reopened.log.events.toList = recorded answered ∧
    ∀ now call, reopened.log.version call.stack = call.expected →
      (reopened.take now .sound call).1 = .ok (reopened.log.numbers call)

theorem recovers_iff {file : ByteArray} {answered : List Answered} : Recovers file answered ↔
    ∃ log, load file = .ok log ∧ log.events.toList = recorded answered := by
  constructor
  · rintro ⟨_, hopen, hevents, _⟩
    obtain ⟨log, hload, rfl⟩ := ofFile_eq_ok_iff.mp hopen
    exact ⟨log, hload, hevents⟩
  · rintro ⟨log, hload, hevents⟩
    refine ⟨⟨log, file, false⟩, ofFile_eq_ok_iff.mpr ⟨log, hload, rfl⟩, hevents, ?_⟩
    intro now call hcurrent
    rw [take_sound rfl hcurrent now]

/-- Torn bytes are not recovered from. -/
theorem Reachable.not_recovers {count : Nat} {journal : Journal} (h : journal.Reachable count)
    (hsound : journal.poisoned = false) (hroom : count + 1 < UInt64.size) {call : Call}
    (hcurrent : journal.log.version call.stack = call.expected) (now : Timestamp)
    {answered : List Answered} (hrecorded : (recorded answered).length ≤ journal.log.lastPosition)
    {written : Nat} (hpos : 0 < written) :
    ¬Recovers (journal.file ++ (journal.next now call).bytes.extract 0 written) answered := by
  rw [recovers_iff]
  rintro ⟨log, hload, hevents⟩
  rcases h.load_write hsound hroom hcurrent now hpos with ⟨error, herror⟩ |
    ⟨before, read, _, hbefore, _, _, _, hafter⟩
  · cases herror.symm.trans hload
  · cases hafter.symm.trans hload
    have hlength := congrArg List.length hevents
    have hmore := Log.lastPosition_insert before read
    rw [hbefore.lastPosition] at hmore
    rw [Array.length_toList] at hlength
    simp only [Log.lastPosition] at hmore hrecorded
    omega

theorem session_reachable {steps : List Step} {answered : List Answered} {journal : Journal}
    (hrun : session .empty steps = .ok (answered, journal)) (few : steps.length < UInt64.size) :
    journal.Reachable steps.length ∧ (recorded answered).length ≤ journal.log.lastPosition := by
  rw [session_empty] at hrun
  obtain ⟨hreachable, hevents⟩ := reachable_blank.run (by omega) hrun
  rw [Nat.zero_add] at hreachable
  exact ⟨hreachable, Nat.le_trans (Nat.le_add_left _ _) hevents⟩

/-- After any run, and an append whose write fails and cannot be cut back, the next opening recovers
what was recorded just if no byte got through and it could be recovered before. -/
theorem poisoned_recovers_iff {steps : List Step} {answered : List Answered} {journal : Journal}
    (hrun : session .empty steps = .ok (answered, journal))
    (few : steps.length + 1 < UInt64.size) (sound : journal.poisoned = false) {call : Call}
    (current : journal.log.version call.stack = call.expected) (now : Timestamp) (written : Nat) :
    ∃ torn, journal.take now (.torn written) call = (.error (.io none), torn) ∧
      torn.poisoned = true ∧
      (Recovers torn.file answered ↔ written = 0 ∧ Recovers journal.file answered) ∧
      ((∀ step ∈ steps, step.Tidy) → Recovers journal.file answered) := by
  obtain ⟨hreachable, hrecorded⟩ := session_reachable hrun (by omega)
  refine ⟨_, take_torn sound current now written, rfl, ?_, ?_⟩
  · by_cases hpos : 0 < written
    · have hlost := hreachable.not_recovers sound few current now hrecorded hpos
      constructor
      · exact fun hrecovers => absurd hrecovers hlost
      · rintro ⟨rfl, _⟩
        exact absurd hpos (Nat.lt_irrefl 0)
    · have hzero : written = 0 := Nat.eq_zero_of_not_pos hpos
      simp [hzero]
  · intro tidy
    obtain ⟨answered', journal', hrun', hfollows⟩ := session_follows tidy (by omega)
    rw [hrun] at hrun'
    cases hrun'
    exact recovers_iff.mpr ⟨journal.log, hfollows.faithful.loads, hfollows.events_eq⟩

theorem blank_poisoned_recovers :
    session .empty [] = .ok ([], blank) ∧ ([] : List Step).length + 1 < UInt64.size ∧
      blank.poisoned = false ∧ blank.log.version ⟨0⟩ = 0 ∧
      ∃ torn, blank.take .epoch (.torn 0) (creation ⟨0⟩) = (.error (.io none), torn) ∧
        torn.poisoned = true ∧ Recovers torn.file [] := by
  have hrun : session .empty [] = .ok ([], blank) := rfl
  have few : ([] : List Step).length + 1 < UInt64.size := by decide
  have hcurrent : blank.log.version (creation ⟨0⟩).stack = (creation ⟨0⟩).expected := rfl
  have hblank : Recovers blank.file [] := recovers_iff.mpr ⟨Log.empty, rfl, rfl⟩
  obtain ⟨torn, htake, hpoisoned, hiff, _⟩ := poisoned_recovers_iff hrun few rfl hcurrent .epoch 0
  exact ⟨hrun, few, rfl, rfl, torn, htake, hpoisoned, hiff.mpr ⟨rfl, hblank⟩⟩

/-- Ten bytes of the first line got through, and the next opening does not recover. -/
theorem ten_bytes_lost : ∃ torn,
    blank.take .epoch (.torn 10) (creation ⟨0⟩) = (.error (.io none), torn) ∧
      torn.poisoned = true ∧ ¬Recovers torn.file [] := by
  have hcurrent : blank.log.version (creation ⟨0⟩).stack = (creation ⟨0⟩).expected := rfl
  have hrecorded : (recorded []).length ≤ blank.log.lastPosition := Nat.le_refl 0
  refine ⟨_, take_torn rfl hcurrent .epoch 10, rfl, ?_⟩
  exact reachable_blank.not_recovers rfl (by decide) hcurrent .epoch hrecorded (by decide)

end Journal

end StackJournal
