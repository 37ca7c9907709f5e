import StackJournal.Proofs.Journal.Faithful

/-! # A journal is a log that lasts

A journal that was begun on no file and takes tidy steps answers as a log in memory does that takes
the same calls, but for those the disk stopped. Its file is the lines of its events.
-/
namespace StackJournal.Journal

open Text

def blank : Journal := ⟨Log.empty, .empty, false⟩

theorem faithful_blank : blank.Faithful where
  sound := rfl
  indexed := Log.indexed_empty
  fresh := fun _ hb => nomatch hb
  loads := rfl

theorem session_empty (steps : List Step) : session .empty steps = blank.run steps := rfl

theorem session_follows {steps : List Step} (tidy : ∀ step ∈ steps, step.Tidy)
    (few : steps.length < UInt64.size) : ∃ answered journal,
      session .empty steps = .ok (answered, journal) ∧ blank.Follows answered journal := by
  have hroom : blank.log.lastPosition + steps.length < UInt64.size := by
    rw [show blank.log.lastPosition = 0 from rfl]
    omega
  simp only [session_empty]
  exact faithful_blank.run tidy hroom

/-- From an empty file, tidy steps in any order, fewer than there are positions, leave a journal
that reopening does not change, whose file holds the lines of its events, and that answered and
answers what a log in memory does that never gets the calls whose writes failed. Those, and no
others, were answered by an error of the disk. -/
theorem session_refines_log {steps : List Step} (tidy : ∀ step ∈ steps, step.Tidy)
    (few : steps.length < UInt64.size) :
    ∃ answered journal, session .empty steps = .ok (answered, journal) ∧
      ofFile journal.file = .ok journal ∧
      journal.file.data.toList = journal.log.events.toList.flatMap (·.bytes.data.toList) ∧
      (∀ append ∈ answered, append.stopped = true ↔ append.reply = .error (.io none)) ∧
      ∀ calls : List (Timestamp × Call),
        calls.map Prod.snd = (served answered).map (·.call) →
        (Log.empty.run calls).1 = (served answered).map (·.reply) ∧
          journal.log.AgreesWith (Log.empty.run calls).2 := by
  obtain ⟨answered, journal, hrun, hfollows⟩ := session_follows tidy few
  refine ⟨answered, journal, hrun, hfollows.faithful.ofFile_eq, ?_, hfollows.stopped_iff, ?_⟩
  · have hevents : journal.log.events.toList = recorded answered := hfollows.events_eq
    rw [hfollows.file_eq, hevents]
    rfl
  · intro calls hcalls
    have hown : ((served answered).map fun a => (a.now, a.call)).map Prod.snd =
        calls.map Prod.snd := by
      rw [hcalls, List.map_map]
      rfl
    have hretimed := fun moment =>
      Log.run_retimed moment (a := Log.empty) (b := Log.empty) rfl hown
    have hlog := hfollows.log_eq
    simp only [blank] at hlog
    rw [hlog] at hretimed
    exact ⟨(hretimed .epoch).1.symm,
      Log.agreesWith_of_stamped_eq fun moment => (hretimed moment).2⟩

theorem undone_sound (size : Nat) (fault : WriteFault) (h : Disk.sound size = some fault) :
    fault.undone = true := nomatch h

theorem undone_limited (room size : Nat) (fault : WriteFault)
    (h : Disk.limited room true size = some fault) : fault.undone = true := by
  unfold Disk.limited at h
  split at h
  · cases h
  · cases h
    rfl

def creation (stack : Uuid) : Call := ⟨stack, 0, .create, none⟩

def begun : Journal :=
  { blank with
    log := blank.log.insert (blank.next .epoch (creation ⟨0⟩))
    file := blank.file ++ (blank.next .epoch (creation ⟨0⟩)).bytes }

theorem faithful_begun : begun.Faithful := faithful_blank.record (by decide) rfl rfl .epoch

/-- A stack is created on the second try, and a third one comes too late. -/
def retriedSteps : List Step :=
  [.append .epoch (.limited 10 true) (creation ⟨0⟩), .append .epoch .sound (creation ⟨0⟩), .reopen,
    .append .epoch .sound (creation ⟨0⟩)]

theorem tidy_retriedSteps : ∀ step ∈ retriedSteps, step.Tidy := by
  simp only [retriedSteps, List.forall_mem_cons]
  exact ⟨⟨rfl, undone_limited 10⟩, ⟨rfl, undone_sound⟩, trivial, ⟨rfl, undone_sound⟩,
    fun _ hs => nomatch hs⟩

theorem session_retriedSteps : session .empty retriedSteps =
    .ok ([⟨.epoch, creation ⟨0⟩, some ⟨10, true⟩, .error (.io none)⟩,
      ⟨.epoch, creation ⟨0⟩, none, .ok ⟨1, 1⟩⟩,
      ⟨.epoch, creation ⟨0⟩, none, .error (.conflict ⟨0⟩ 0 1)⟩], begun) := by
  have hlong : ¬ (blank.next .epoch (creation ⟨0⟩)).bytes.size ≤ 10 := by decide +kernel
  have hfails : blank.Fails .epoch (.limited 10 true) (creation ⟨0⟩) ⟨10, true⟩ :=
    ⟨rfl, rfl, if_neg hlong⟩
  have hstopped : blank.take .epoch (.limited 10 true) (creation ⟨0⟩) =
      (.error (.io none), blank) := hfails.take
  have hcreated : blank.take .epoch .sound (creation ⟨0⟩) = (.ok ⟨1, 1⟩, begun) :=
    take_sound rfl rfl .epoch
  have hlate : begun.take .epoch .sound (creation ⟨0⟩) =
      (.error (.conflict ⟨0⟩ 0 1), begun) := rfl
  have hdone : begun.run [] = .ok ([], begun) := rfl
  have hreopened := (run_reopen faithful_begun.ofFile_eq _).trans (run_append hlate hdone)
  rw [session_empty, retriedSteps, run_append hstopped (run_append hcreated hreopened),
    fault?_eq_some_iff.mpr hfails, fault?_sound, fault?_sound]

theorem session_retried :
    (∀ step ∈ retriedSteps, step.Tidy) ∧ retriedSteps.length < UInt64.size ∧
      ∃ answered journal, session .empty retriedSteps = .ok (answered, journal) ∧
        answered.map (·.stopped) = [true, false, false] ∧
        answered.map (·.reply) =
          [.error (.io none), .ok ⟨1, 1⟩, .error (.conflict ⟨0⟩ 0 1)] ∧
        ofFile journal.file = .ok journal ∧
        journal.file.data.toList = ((creation ⟨0⟩).event .epoch ⟨1, 1⟩).bytes.data.toList ∧
        journal.log.AgreesWith
          (Log.empty.run [(.epoch, creation ⟨0⟩), (.epoch, creation ⟨0⟩)]).2 := by
  have few : retriedSteps.length < UInt64.size := by decide
  obtain ⟨answered, journal, hrun, hopen, hfile, _, hlog⟩ :=
    session_refines_log tidy_retriedSteps few
  rw [session_retriedSteps] at hrun
  cases hrun
  obtain ⟨_, hagrees⟩ := hlog [(.epoch, creation ⟨0⟩), (.epoch, creation ⟨0⟩)] rfl
  refine ⟨tidy_retriedSteps, few, _, _, session_retriedSteps, rfl, rfl, hopen, ?_, hagrees⟩
  have hevents : begun.log.events.toList = [(creation ⟨0⟩).event .epoch ⟨1, 1⟩] := rfl
  simp only [hfile, hevents, List.flatMap_singleton]

end StackJournal.Journal
