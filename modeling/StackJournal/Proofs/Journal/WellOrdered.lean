import StackJournal.Program
import StackJournal.Proofs.Journal.Growth
import StackJournal.Proofs.Log.Opened
import StackJournal.Proofs.Text.Lines

/-! # The files that are opened

A file is opened if its lines are in order: each is blank or holds an event, and the events count up,
all of them by their positions and those of each stack by their sequences. A file that is not is
refused for its first line that does not go on with the lines before it, whatever comes after.
-/
namespace StackJournal.Journal

open Text

def Blank (text : String) : Prop := ∀ c ∈ text.toList, isBlank c = true

instance (text : String) : Decidable (Blank text) := List.decidableBAll _ text.toList

theorem blank_iff {text : String} : Blank text ↔ trim text.toList = [] := (trim_eq_nil_iff _).symm

def heldIn (line : List UInt8) : Option Event :=
  match decodeLine line with
  | some text => if Blank text then none else (Event.ofLine text).toOption
  | none => none

def held (lines : List (List UInt8)) : List Event := lines.filterMap heldIn

def countOf (stack : Uuid) (events : List Event) : Nat := events.countP (·.stack == stack)

def Numbered (events : List Event) : Prop := ∀ k event, events[k]? = some event →
  event.position = k + 1 ∧ event.sequence = countOf event.stack (events.take k) + 1

structure WellOrdered (lines : List (List UInt8)) : Prop where
  texts : ∀ line ∈ lines, ∃ text, decodeLine line = some text ∧
    (Blank text ∨ ∃ event, Event.ofLine text = .ok event)
  numbered : Numbered (held lines)

inductive Offends (before : List (List UInt8)) (line : List UInt8) : StoreError → Prop where
  | noText (garbled : decodeLine line = none) : Offends before line (.io none)
  | noEvent {text : String} {error : EventLine.Error} (reads : decodeLine line = some text)
      (visible : ¬Blank text) (refused : Event.ofLine text = .error error) :
      Offends before line (.invalidEvent (before.length + 1) (.unreadable error))
  | position {event : Event} (holds : heldIn line = some event)
      (wrong : event.position ≠ (held before).length + 1) :
      Offends before line (.invalidEvent (before.length + 1)
        (.wrongPosition ((held before).length + 1) event.position))
  | sequence {event : Event} (holds : heldIn line = some event)
      (next : event.position = (held before).length + 1)
      (wrong : event.sequence ≠ countOf event.stack (held before) + 1) :
      Offends before line (.invalidEvent (before.length + 1)
        (.wrongSequence (countOf event.stack (held before) + 1) event.stack event.sequence))

/-- A line that goes on with others: it is blank, or holds the next event of its stack and of all. -/
def Continues (before : List (List UInt8)) (line : List UInt8) : Prop :=
  ∃ text, decodeLine line = some text ∧ (Blank text ∨ ∃ event, Event.ofLine text = .ok event ∧
    event.position = (held before).length + 1 ∧
    event.sequence = countOf event.stack (held before) + 1)

section Held

variable {line : List UInt8} {text : String} {event : Event}

theorem heldIn_blank (reads : decodeLine line = some text) (blank : Blank text) :
    heldIn line = none := by
  simp [heldIn, reads, blank]

theorem heldIn_visible (reads : decodeLine line = some text) (visible : ¬Blank text)
    (holds : Event.ofLine text = .ok event) : heldIn line = some event := by
  simp [heldIn, reads, visible, holds, Except.toOption]

theorem heldIn_eq_some_iff : heldIn line = some event ↔
    ∃ text, decodeLine line = some text ∧ ¬Blank text ∧ Event.ofLine text = .ok event := by
  constructor
  · intro h
    cases reads : decodeLine line with
    | none => simp [heldIn, reads] at h
    | some text =>
      by_cases blank : Blank text
      · simp [heldIn, reads, blank] at h
      · cases hread : Event.ofLine text with
        | error error => simp [heldIn, reads, blank, hread, Except.toOption] at h
        | ok found =>
          rw [heldIn_visible reads blank hread] at h
          exact ⟨text, rfl, blank, Option.some.inj h ▸ hread⟩
  · rintro ⟨text, reads, visible, holds⟩
    exact heldIn_visible reads visible holds

theorem held_concat (lines : List (List UInt8)) (line : List UInt8) :
    held (lines ++ [line]) = held lines ++ (heldIn line).toList := by
  cases h : heldIn line <;> simp [held, h]

end Held

theorem numbered_nil : Numbered [] := by
  intro k event h
  simp at h

theorem numbered_concat_iff {events : List Event} {event : Event} :
    Numbered (events ++ [event]) ↔ Numbered events ∧ event.position = events.length + 1 ∧
      event.sequence = countOf event.stack events + 1 := by
  constructor
  · intro h
    refine ⟨fun k found hk => ?_, by simpa using h events.length event (by simp)⟩
    have hlt : k < events.length := (List.getElem?_eq_some_iff.mp hk).1
    have hfound := h k found (by rwa [List.getElem?_append_left hlt])
    rwa [List.take_append_of_le_length hlt.le] at hfound
  · rintro ⟨h, hlast⟩ k found hk
    by_cases hlt : k < events.length
    · rw [List.getElem?_append_left hlt] at hk
      rw [List.take_append_of_le_length hlt.le]
      exact h k found hk
    · have hlength : k < (events ++ [event]).length := (List.getElem?_eq_some_iff.mp hk).1
      have hend : k = events.length := by
        simp only [List.length_append, List.length_singleton] at hlength
        omega
      subst hend
      simp only [List.getElem?_concat_length, Option.some.injEq] at hk
      subst hk
      simpa using hlast

theorem wellOrdered_nil : WellOrdered [] := ⟨by simp, numbered_nil⟩

/-- Lines stay in order just with a line that goes on with them. -/
theorem wellOrdered_concat_iff {lines : List (List UInt8)} {line : List UInt8} :
    WellOrdered (lines ++ [line]) ↔ WellOrdered lines ∧ Continues lines line := by
  constructor
  · rintro ⟨texts, numbered⟩
    have hlines : ∀ other ∈ lines, _ := fun other h => texts other (List.mem_append_left _ h)
    obtain ⟨text, reads, holds⟩ := texts line (by simp)
    rw [held_concat] at numbered
    by_cases blank : Blank text
    · rw [heldIn_blank reads blank] at numbered
      exact ⟨⟨hlines, by simpa using numbered⟩, text, reads, Or.inl blank⟩
    · obtain ⟨event, hevent⟩ := holds.resolve_left blank
      rw [heldIn_visible reads blank hevent] at numbered
      obtain ⟨hbefore, hnext⟩ := numbered_concat_iff.mp numbered
      exact ⟨⟨hlines, hbefore⟩, text, reads, Or.inr ⟨event, hevent, hnext⟩⟩
  · rintro ⟨⟨texts, numbered⟩, text, reads, holds⟩
    constructor
    · intro other hother
      rcases List.mem_append.mp hother with hother | hother
      · exact texts other hother
      · rw [List.mem_singleton.mp hother]
        exact ⟨text, reads, holds.imp_right fun ⟨event, hevent, _⟩ => ⟨event, hevent⟩⟩
    · rw [held_concat]
      by_cases blank : Blank text
      · simpa [heldIn_blank reads blank] using numbered
      · obtain ⟨event, hevent, hnext⟩ := holds.resolve_left blank
        rw [heldIn_visible reads blank hevent]
        exact numbered_concat_iff.mpr ⟨numbered, hnext⟩

section Line

variable {before : List (List UInt8)} {line : List UInt8} {error : StoreError}

theorem continues_or_offends (before : List (List UInt8)) (line : List UInt8) :
    Continues before line ∨ ∃ error, Offends before line error := by
  cases reads : decodeLine line with
  | none => exact Or.inr ⟨_, .noText reads⟩
  | some text =>
    by_cases blank : Blank text
    · exact Or.inl ⟨text, reads, Or.inl blank⟩
    cases hread : Event.ofLine text with
    | error error => exact Or.inr ⟨_, .noEvent reads blank hread⟩
    | ok event =>
      have holds := heldIn_visible reads blank hread
      by_cases hposition : event.position = (held before).length + 1
      · by_cases hsequence : event.sequence = countOf event.stack (held before) + 1
        · exact Or.inl ⟨text, reads, Or.inr ⟨event, hread, hposition, hsequence⟩⟩
        · exact Or.inr ⟨_, .sequence holds hposition hsequence⟩
      · exact Or.inr ⟨_, .position holds hposition⟩

/-- The log of the events that lines hold, which the lines after them are loaded into. -/
def logOf (lines : List (List UInt8)) : Log := Log.ofEvents (held lines)

theorem lastPosition_logOf (lines : List (List UInt8)) :
    (logOf lines).lastPosition = (held lines).length := by simp [logOf]

theorem version_logOf (lines : List (List UInt8)) (stack : Uuid) :
    (logOf lines).version stack = countOf stack (held lines) := by simp [logOf, countOf]

theorem Continues.loadLine (h : Continues before line) :
    loadLine (logOf before) (before.length + 1) line = .ok (logOf (before ++ [line])) := by
  obtain ⟨text, reads, holds⟩ := h
  by_cases blank : Blank text
  · have hsame : held (before ++ [line]) = held before := by
      simp [held_concat, heldIn_blank reads blank]
    simp [Journal.loadLine, reads, blank_iff.mp blank, logOf, hsame]
  · obtain ⟨event, hread, hposition, hsequence⟩ := holds.resolve_left blank
    have hmore : logOf (before ++ [line]) = (logOf before).insert event := by
      simp [logOf, held_concat, heldIn_visible reads blank hread]
    have haccept : accept (logOf before) (before.length + 1) event = .ok (logOf (before ++ [line])) :=
      accept_eq_ok_iff.mpr ⟨by rwa [lastPosition_logOf], by rwa [version_logOf], hmore⟩
    simpa [Journal.loadLine, reads, mt blank_iff.mpr blank, hread] using haccept

theorem Offends.loadLine (h : Offends before line error) :
    loadLine (logOf before) (before.length + 1) line = .error error := by
  cases h with
  | noText garbled => simp [Journal.loadLine, garbled]
  | noEvent reads visible refused =>
    simp [Journal.loadLine, reads, mt blank_iff.mpr visible, refused]
  | position holds wrong =>
    obtain ⟨text, reads, visible, hread⟩ := heldIn_eq_some_iff.mp holds
    simp [Journal.loadLine, reads, mt blank_iff.mpr visible, hread, accept, lastPosition_logOf, wrong]
  | sequence holds next wrong =>
    obtain ⟨text, reads, visible, hread⟩ := heldIn_eq_some_iff.mp holds
    simp [Journal.loadLine, reads, mt blank_iff.mpr visible, hread, accept, lastPosition_logOf,
      version_logOf, next, wrong]

end Line

theorem loadLines_concat (lines : List (List UInt8)) (line : List UInt8) :
    loadLines Log.empty 1 (lines ++ [line]) =
      (loadLines Log.empty 1 lines).bind fun log => loadLine log (lines.length + 1) line := by
  simp [loadLines_append, loadLines_singleton, Nat.add_comm]

theorem WellOrdered.loadLines {lines : List (List UInt8)} (h : WellOrdered lines) :
    loadLines Log.empty 1 lines = .ok (logOf lines) := by
  induction lines using List.reverseRecOn with
  | nil => rfl
  | append_singleton lines line ih =>
    obtain ⟨hlines, hline⟩ := wellOrdered_concat_iff.mp h
    rw [loadLines_concat, ih hlines]
    exact hline.loadLine

/-- What comes after a line that offends is not looked at. -/
theorem Offends.loadLines {before : List (List UInt8)} {line : List UInt8} {error : StoreError}
    (h : Offends before line error) (ordered : WellOrdered before) (after : List (List UInt8)) :
    loadLines Log.empty 1 (before ++ line :: after) = .error error := by
  have hfront : Journal.loadLines Log.empty 1 (before ++ [line]) = .error error := by
    rw [loadLines_concat, ordered.loadLines]
    exact h.loadLine
  rw [List.append_cons, loadLines_append, hfront]
  rfl

/-- Lines that are not in order have a first one that offends. -/
theorem exists_offends {lines : List (List UInt8)} (h : ¬WellOrdered lines) :
    ∃ before line after error, lines = before ++ line :: after ∧ WellOrdered before ∧
      Offends before line error := by
  induction lines using List.reverseRecOn with
  | nil => exact absurd wellOrdered_nil h
  | append_singleton lines line ih =>
    by_cases hlines : WellOrdered lines
    · have hline : ¬Continues lines line := fun hline =>
        h (wellOrdered_concat_iff.mpr ⟨hlines, hline⟩)
      obtain ⟨error, hoffends⟩ := (continues_or_offends lines line).resolve_left hline
      exact ⟨lines, line, [], error, rfl, hlines, hoffends⟩
    · obtain ⟨before, first, after, error, rfl, hbefore, hoffends⟩ := ih hlines
      exact ⟨before, first, after ++ [line], error, by simp, hbefore, hoffends⟩

section Lines

variable {lines : List (List UInt8)}

theorem loadLines_eq_ok_iff {log : Log} :
    loadLines Log.empty 1 lines = .ok log ↔ WellOrdered lines ∧ log = logOf lines := by
  constructor
  · intro h
    by_cases ordered : WellOrdered lines
    · rw [ordered.loadLines] at h
      exact ⟨ordered, (Except.ok.inj h).symm⟩
    · obtain ⟨before, line, after, error, rfl, hbefore, hoffends⟩ := exists_offends ordered
      rw [hoffends.loadLines hbefore] at h
      cases h
  · rintro ⟨ordered, rfl⟩
    exact ordered.loadLines

theorem loadLines_eq_error_iff {error : StoreError} :
    loadLines Log.empty 1 lines = .error error ↔ ∃ before line after,
      lines = before ++ line :: after ∧ WellOrdered before ∧ Offends before line error := by
  constructor
  · intro h
    by_cases ordered : WellOrdered lines
    · rw [ordered.loadLines] at h
      cases h
    · obtain ⟨before, line, after, first, rfl, hbefore, hoffends⟩ := exists_offends ordered
      rw [hoffends.loadLines hbefore] at h
      cases h
      exact ⟨before, line, after, rfl, hbefore, hoffends⟩
  · rintro ⟨before, line, after, rfl, hbefore, hoffends⟩
    exact hoffends.loadLines hbefore after

end Lines

theorem ofFile_eq_error_iff {file : ByteArray} {error : StoreError} :
    ofFile file = .error error ↔ load file = .error error := by
  simp [ofFile, bind_eq_error_iff]

/-- A program without input leaves its file as it finds it, be it accepted or refused. -/
theorem file_run_empty (now : Timestamp) (ids : Nat → Uuid) (file : ByteArray) :
    (Program.run now ids file .empty).file = file := by
  rw [Program.run]
  cases h : ofFile file with
  | error error => rfl
  | ok journal =>
    obtain ⟨log, _, rfl⟩ := ofFile_eq_ok_iff.mp h
    rfl

/-- A file is opened just if its lines are in order, and then its log is made of the events that they
hold, in order. Otherwise the first line that does not go on with those before it is to blame, by its
number among all lines. The file stays as it is. -/
theorem opened_iff_wellOrdered (file : ByteArray) :
    let lines := ofPieces (file.data.toList.splitOn lineFeed)
    (∀ journal, ofFile file = .ok journal ↔ WellOrdered lines ∧
      journal = ⟨Log.ofEvents (held lines), file, false⟩) ∧
    (Log.ofEvents (held lines)).events.toList = held lines ∧
    (∀ error, ofFile file = .error error ↔ ∃ before line after,
      lines = before ++ line :: after ∧ WellOrdered before ∧ Offends before line error) ∧
    ∀ now ids, (Program.run now ids file .empty).file = file := by
  intro lines
  have hload : load file = loadLines Log.empty 1 lines := by rw [load, lines_eq_ofPieces]
  refine ⟨fun journal => ?_, Log.toList_events_ofEvents _, fun error => ?_,
    fun now ids => file_run_empty now ids file⟩
  · rw [ofFile_eq_ok_iff, hload]
    simp only [loadLines_eq_ok_iff, and_assoc, exists_and_left, exists_eq_left]
    rfl
  · rw [ofFile_eq_error_iff, hload, loadLines_eq_error_iff]

end StackJournal.Journal
