import StackJournal.Proofs.Journal.Faithful
import StackJournal.Proofs.Journal.Refinement

/-! # Appending to an accepted file

A file may be accepted although its last line is not ended. The next append goes on with that line
and spoils it, unless the line is only begun with white space.
-/
namespace StackJournal.Journal

open Text

theorem ofFile_eq_ok_iff {file : ByteArray} {journal : Journal} :
    ofFile file = .ok journal ↔ ∃ log, load file = .ok log ∧ journal = ⟨log, file, false⟩ := by
  rw [ofFile, bind_eq_ok_iff]
  constructor
  · rintro ⟨log, hload, h⟩
    cases h
    exact ⟨log, hload, rfl⟩
  · rintro ⟨log, hload, rfl⟩
    exact ⟨log, hload, rfl⟩

theorem load_indexed {file : ByteArray} {log : Log} (h : load file = .ok log) : log.Indexed :=
  load_keeps (fun hlog _ _ => hlog.insert _) h Log.indexed_empty

theorem faithful_of_ofFile {file : ByteArray} {journal : Journal} (h : ofFile file = .ok journal)
    (hfresh : Fresh file) : journal.Faithful := by
  obtain ⟨log, hload, rfl⟩ := ofFile_eq_ok_iff.mp h
  exact ⟨rfl, load_indexed hload, hfresh, hload⟩

/-- The journal ends in a line begun, or has spoilt one already. -/
structure Spoilt (journal : Journal) : Prop where
  sound : journal.poisoned = false
  loads : (¬Fresh journal.file ∧ load journal.file = .ok journal.log) ∨
    (openEnd journal.file.data.toList = [] ∧ ∃ error, load journal.file = .error error)

/-- What is recorded in a spoilt journal is lost with the whole file. -/
theorem Spoilt.load_record {journal : Journal} (h : journal.Spoilt) (event : Event) :
    ∃ error, load (journal.file ++ event.bytes) = .error error := by
  have hall : event.bytes.extract 0 event.bytes.size = event.bytes := ByteArray.extract_zero_size
  rcases h.loads with ⟨hfresh, hload⟩ | ⟨hended, herror⟩
  · have hspoilt := load_spoilt hload event.size_bytes_pos event hfresh
    rwa [hall] at hspoilt
  · have hstuck := load_stuck hended herror event event.bytes.size
    rwa [hall] at hstuck

theorem Spoilt.run {journal last : Journal} {steps : List Step} {answered : List Answered}
    (h : journal.Spoilt) (tidy : ∀ step ∈ steps, step.Tidy)
    (hrun : journal.run steps = .ok (answered, last)) : last.Spoilt := by
  replace hrun := runs_of_run hrun
  induction hrun with
  | nil _ => exact h
  | @reopen journal _ _ _ _ opened _ ih =>
    refine ih ?_ (List.forall_mem_of_forall_mem_cons tidy)
    obtain ⟨log, hload, rfl⟩ := ofFile_eq_ok_iff.mp opened
    rcases h.loads with ⟨hfresh, _⟩ | ⟨_, error, herror⟩
    · exact ⟨rfl, Or.inl ⟨hfresh, hload⟩⟩
    · rw [hload] at herror
      cases herror
  | @append journal _ now disk call _ _ _ ih =>
    refine ih ?_ (List.forall_mem_of_forall_mem_cons tidy)
    have htakes := takes journal now disk call
    generalize journal.take now disk call = result at htakes
    cases htakes with
    | poisoned _ => exact h
    | behind _ _ => exact h
    | recorded sound _ _ =>
      exact ⟨sound, Or.inr ⟨openEnd_append_bytes _ _, h.load_record _⟩⟩
    | undone _ _ _ _ => exact h
    | torn _ _ failed kept =>
      obtain ⟨_, hdisk⟩ := tidy _ List.mem_cons_self
      have hundone := hdisk _ _ failed
      rw [kept] at hundone
      cases hundone

theorem length_answered_le {journal last : Journal} {steps : List Step} {answered : List Answered}
    (hrun : journal.run steps = .ok (answered, last)) : answered.length ≤ steps.length := by
  replace hrun := runs_of_run hrun
  induction hrun with
  | nil _ => exact Nat.le_refl 0
  | append _ ih => exact Nat.succ_le_succ ih
  | reopen _ _ ih => exact Nat.le_succ_of_le ih

theorem length_recorded_le (answered : List Answered) :
    (recorded answered).length ≤ answered.length := List.length_filterMap_le _ _

/-- What an accepted append leaves behind. -/
theorem take_eq_ok {journal after : Journal} {now : Timestamp} {disk : Disk} {call : Call}
    {appended : Appended} (h : journal.take now disk call = (.ok appended, after)) :
    journal.poisoned = false ∧ journal.log.version call.stack = call.expected ∧
      appended = journal.log.numbers call ∧
      after = { journal with
        log := journal.log.insert (journal.next now call)
        file := journal.file ++ (journal.next now call).bytes } := by
  have htakes := takes journal now disk call
  rw [h] at htakes
  cases htakes with
  | recorded sound current _ => exact ⟨sound, current, rfl, rfl⟩

/-- After any tidy run on an accepted file, an append that is accepted can be read back with all
events before it just if no line was begun at the end of that file. -/
theorem accepted_append_reloads_iff {file : ByteArray} {opened : Journal}
    (accepted : ofFile file = .ok opened) {steps : List Step} (tidy : ∀ step ∈ steps, step.Tidy)
    (few : opened.log.lastPosition + steps.length + 1 < UInt64.size) {answered : List Answered}
    {journal : Journal} (hrun : opened.run steps = .ok (answered, journal)) {now : Timestamp}
    {disk : Disk} {call : Call} (payload : call.payload = none) {appended : Appended}
    {after : Journal} (answer : journal.take now disk call = (.ok appended, after)) :
    (∃ reopened, ofFile after.file = .ok reopened ∧ reopened.log.events.toList =
      opened.log.events.toList ++ recorded answered ++ [call.event now appended]) ↔
    Fresh file := by
  obtain ⟨_, current, rfl, rfl⟩ := take_eq_ok answer
  constructor
  · rintro ⟨reopened, hopen, _⟩
    refine Decidable.of_not_not fun hfresh => ?_
    obtain ⟨log, hload, rfl⟩ := ofFile_eq_ok_iff.mp accepted
    have hspoilt : Spoilt ⟨log, file, false⟩ := ⟨rfl, Or.inl ⟨hfresh, hload⟩⟩
    obtain ⟨error, herror⟩ := (hspoilt.run tidy hrun).load_record (journal.next now call)
    obtain ⟨_, hreload, _⟩ := ofFile_eq_ok_iff.mp hopen
    rw [herror] at hreload
    cases hreload
  · intro hfresh
    obtain ⟨answered', journal', hrun', hfollows⟩ :=
      (faithful_of_ofFile accepted hfresh).run tidy (by omega)
    rw [hrun] at hrun'
    cases hrun'
    have hcount : journal.log.lastPosition + 1 < UInt64.size := by
      have hevents := congrArg List.length hfollows.events_eq
      rw [List.length_append, Array.length_toList, Array.length_toList] at hevents
      have hrecorded := length_recorded_le answered
      have hanswered := length_answered_le hrun
      simp only [Log.lastPosition] at few ⊢
      omega
    have hafter := hfollows.faithful.record hcount payload current now
    refine ⟨_, hafter.ofFile_eq, ?_⟩
    simp only [Log.insert, Array.toList_push, hfollows.events_eq]
    rfl

theorem first_append_reloads : ∃ after,
    blank.take .epoch .sound (creation ⟨0⟩) = (.ok ⟨1, 1⟩, after) ∧
      ∃ reopened, ofFile after.file = .ok reopened ∧ reopened.log.events.toList =
        [(creation ⟨0⟩).event .epoch ⟨1, 1⟩] := by
  have accepted : ofFile .empty = .ok blank := rfl
  have tidy : ∀ step ∈ ([] : List Step), step.Tidy := fun _ hs => nomatch hs
  have hrun : blank.run [] = .ok ([], blank) := rfl
  have hcurrent : blank.log.version (creation ⟨0⟩).stack = (creation ⟨0⟩).expected := rfl
  have answer := take_sound faithful_blank.sound hcurrent .epoch
  have hreloads := accepted_append_reloads_iff accepted tidy (by decide) hrun rfl answer
  exact ⟨_, answer, hreloads.mpr faithful_blank.fresh⟩

def lineBytes (event : Event) : ByteArray := event.line.toUTF8

theorem toList_lineBytes (event : Event) :
    (lineBytes event).data.toList = encode event.lineText := by
  rw [lineBytes, toList_toUTF8, Event.line, String.toList_ofList]

/-- A file of one event, without the line feed after it, is accepted. -/
theorem load_line {event : Event} (hposition : event.position = 1) (hsequence : event.sequence = 1)
    (hpayload : event.payload = none) :
    load (lineBytes event) = .ok (Log.empty.insert event) := by
  have hbytes : (lineBytes event).data.toList = ByteArray.empty.data.toList ++
      encode event.lineText := by
    rw [toList_lineBytes]
    rfl
  have hline : loadLine Log.empty 1 (encode event.lineText) = _ :=
    loadLine_line hposition hsequence (by rw [hposition]; decide) (by rw [hsequence]; decide)
  rw [reread_of_payload_none hpayload] at hline
  have hopen : openEnd ByteArray.empty.data.toList = [] := rfl
  have hempty : ∀ line, loadOpen .empty line = loadLine Log.empty 1 line := fun _ => rfl
  rw [load_begun event.lineFeed_not_mem hbytes, hopen, List.nil_append, hempty, hline]

theorem not_fresh_line (event : Event) : ¬Fresh (lineBytes event) := by
  intro hfresh
  have hopen : openEnd (lineBytes event).data.toList = encode event.lineText := by
    have happend : openEnd ([] ++ encode event.lineText) = openEnd [] ++ encode event.lineText :=
      openEnd_append event.lineFeed_not_mem
    rw [toList_lineBytes]
    exact happend
  have hbrace : (0x7B : UInt8) ∈ openEnd (lineBytes event).data.toList := by
    rw [hopen]
    exact List.mem_cons_self
  exact absurd (hfresh _ hbrace) (by decide)

/-- The journal of a file of one event without the line feed after it. -/
def unended (event : Event) : Journal := ⟨Log.empty.insert event, lineBytes event, false⟩

theorem unended_file (event : Event) : (unended event).file = lineBytes event := by rw [unended]

theorem unended_log (event : Event) : (unended event).log = Log.empty.insert event := by
  rw [unended]

theorem unended_sound (event : Event) : (unended event).poisoned = false := rfl

theorem load_unended {event : Event} (hposition : event.position = 1)
    (hsequence : event.sequence = 1) (hpayload : event.payload = none) :
    load (unended event).file = .ok (unended event).log := by
  rw [unended_file, unended_log]
  exact load_line hposition hsequence hpayload

theorem not_fresh_unended (event : Event) : ¬Fresh (unended event).file := by
  rw [unended_file]
  exact not_fresh_line event

def firstEvent : Event := ⟨⟨0⟩, 1, .create, none, 1, .epoch⟩

/-- Such a file is accepted and takes one more event, but then it is refused. -/
theorem unended_append_lost : ofFile (unended firstEvent).file = .ok (unended firstEvent) ∧
    ∃ after, (unended firstEvent).take .epoch .sound (creation ⟨1⟩) = (.ok ⟨1, 2⟩, after) ∧
      ∀ reopened, ofFile after.file ≠ .ok reopened := by
  have hload := @load_unended firstEvent rfl rfl rfl
  have hcurrent : (unended firstEvent).log.version (creation ⟨1⟩).stack =
      (creation ⟨1⟩).expected := rfl
  have answer := take_sound (unended_sound firstEvent) hcurrent .epoch
  have hnumbers : (unended firstEvent).log.numbers (creation ⟨1⟩) = ⟨1, 2⟩ := by
    rw [Log.numbers, unended_log, Log.lastPosition_insert]
    rfl
  rw [hnumbers] at answer
  refine ⟨ofFile_of_load (unended_sound firstEvent) hload, _, answer, ?_⟩
  intro reopened hopen
  obtain ⟨_, hreload, _⟩ := ofFile_eq_ok_iff.mp hopen
  have hspoilt : (unended firstEvent).Spoilt :=
    ⟨rfl, Or.inl ⟨not_fresh_unended firstEvent, hload⟩⟩
  obtain ⟨error, herror⟩ := hspoilt.load_record ((unended firstEvent).next .epoch (creation ⟨1⟩))
  rw [herror] at hreload
  cases hreload

end StackJournal.Journal
