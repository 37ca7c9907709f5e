import StackJournal.Proofs.Journal.Accepted

/-! # Journals of any run

Appends may carry payloads, fail and leave torn bytes behind. Whatever the run, a journal that takes
appends either holds in its file what it holds in its log, up to payloads, or has a file of whole
lines that is refused. A journal that takes none may find one more event when it is opened again.
-/
namespace StackJournal.Journal

open Text

/-- What holds of the journals that a run of `count` steps leaves. -/
structure Reachable (count : Nat) (journal : Journal) : Prop where
  indexed : journal.log.Indexed
  bounded : journal.log.lastPosition ≤ count
  grows : ∀ log, load journal.file = .ok log →
    journal.log.lastPosition ≤ log.lastPosition ∧ log.lastPosition ≤ count
  loads : journal.poisoned = false → (∃ log, load journal.file = .ok log ∧ log.Alike journal.log) ∨
    (openEnd journal.file.data.toList = [] ∧ ∃ error, load journal.file = .error error)

variable {count : Nat} {journal : Journal}

theorem reachable_blank : Reachable 0 blank where
  indexed := Log.indexed_empty
  bounded := Nat.le_refl 0
  grows log hload := by
    cases faithful_blank.loads.symm.trans hload
    exact ⟨Nat.le_refl 0, Nat.le_refl 0⟩
  loads _ := Or.inl ⟨Log.empty, faithful_blank.loads, .refl _⟩

theorem Reachable.mono (h : journal.Reachable count) {more : Nat} (hmore : count ≤ more) :
    journal.Reachable more where
  indexed := h.indexed
  bounded := Nat.le_trans h.bounded hmore
  grows log hload := ⟨(h.grows log hload).1, Nat.le_trans (h.grows log hload).2 hmore⟩
  loads := h.loads

theorem Reachable.reopen (h : journal.Reachable count) {reopened : Journal}
    (hopen : ofFile journal.file = .ok reopened) :
    reopened.Reachable count ∧ journal.log.lastPosition ≤ reopened.log.lastPosition := by
  obtain ⟨log, hload, rfl⟩ := ofFile_eq_ok_iff.mp hopen
  obtain ⟨hgrows, hbounded⟩ := h.grows log hload
  refine ⟨⟨load_indexed hload, hbounded, ?_, fun _ => Or.inl ⟨log, hload, .refl log⟩⟩, hgrows⟩
  intro again hagain
  rw [hload] at hagain
  cases hagain
  exact ⟨Nat.le_refl _, hbounded⟩

section Write

variable {call : Call} (h : journal.Reachable count) (hsound : journal.poisoned = false)
variable (hroom : count + 1 < UInt64.size)
variable (hcurrent : journal.log.version call.stack = call.expected) (now : Timestamp)

include h hsound hroom hcurrent

/-- What a file holds after bytes of one more event: nothing that is accepted, unless the file was
accepted, ended in whole lines, and the whole line got through; then that event too. -/
theorem Reachable.load_write {written : Nat} (hpos : 0 < written) :
    (∃ error, load (journal.file ++ (journal.next now call).bytes.extract 0 written) =
      .error error) ∨
    ∃ log read, load journal.file = .ok log ∧ log.Alike journal.log ∧ Fresh journal.file ∧
      (journal.next now call).bytes.size ≤ written + 1 ∧
      (journal.next now call).reread = .ok read ∧
      load (journal.file ++ (journal.next now call).bytes.extract 0 written) =
        .ok (log.insert read) := by
  have hspace : journal.log.lastPosition + 1 < UInt64.size := by
    have hle := h.bounded
    omega
  rcases h.loads hsound with ⟨log, hload, halike⟩ | ⟨hended, herror⟩
  · by_cases hfresh : Fresh journal.file
    · by_cases hcut : written + 1 < (journal.next now call).bytes.size
      · obtain ⟨hposition, hsequence⟩ := next_lt h.indexed hspace hcurrent now
        exact Or.inl (load_torn hload hpos hcut hposition hsequence)
      · have hwhole : (journal.next now call).bytes.size ≤ written + 1 := Nat.le_of_not_lt hcut
        have hnext := load_next hload hfresh halike h.indexed hspace hcurrent now hwhole
        cases hreread : (journal.next now call).reread with
        | error error =>
          rw [hreread] at hnext
          exact Or.inl ⟨_, hnext⟩
        | ok read =>
          rw [hreread] at hnext
          exact Or.inr ⟨log, read, hload, halike, hfresh, hwhole, rfl, hnext⟩
    · exact Or.inl (load_spoilt hload hpos (journal.next now call) hfresh)
  · exact Or.inl (load_stuck hended herror _ _)

theorem Reachable.record : Reachable (count + 1) { journal with
      log := journal.log.insert (journal.next now call)
      file := journal.file ++ (journal.next now call).bytes } := by
  have hpos := (journal.next now call).size_bytes_pos
  have hwrite := h.load_write hsound hroom hcurrent now hpos
  rw [ByteArray.extract_zero_size] at hwrite
  have hbounded : (journal.log.insert (journal.next now call)).lastPosition ≤ count + 1 := by
    rw [Log.lastPosition_insert]
    exact Nat.succ_le_succ h.bounded
  have halike : ∀ {log : Log} {read : Event}, log.Alike journal.log →
      (journal.next now call).reread = .ok read →
      (log.insert read).Alike (journal.log.insert (journal.next now call)) := by
    intro log read halike hreread
    obtain ⟨_, _, hstack⟩ := Event.reread_eq_ok hreread
    exact halike.insert hstack
  refine ⟨h.indexed.insert _, hbounded, ?_, ?_⟩
  · intro log hload
    rcases hwrite with ⟨error, herror⟩ | ⟨before, read, _, hbefore, _, _, hreread, hafter⟩
    · cases herror.symm.trans hload
    · cases hafter.symm.trans hload
      have hsame := (halike hbefore hreread).lastPosition
      exact ⟨Nat.le_of_eq hsame.symm, hsame ▸ hbounded⟩
  · intro _
    rcases hwrite with herror | ⟨before, read, _, hbefore, _, _, hreread, hafter⟩
    · exact Or.inr ⟨openEnd_append_bytes _ _, herror⟩
    · exact Or.inl ⟨_, hafter, halike hbefore hreread⟩

theorem Reachable.tear (written : Nat) : Reachable (count + 1) { journal with
      file := journal.file ++ (journal.next now call).bytes.extract 0 written
      poisoned := true } := by
  refine ⟨h.indexed, Nat.le_succ_of_le h.bounded, ?_, fun hclean => nomatch hclean⟩
  intro log hload
  simp only at hload
  by_cases hpos : 0 < written
  · rcases h.load_write hsound hroom hcurrent now hpos with ⟨error, herror⟩ |
      ⟨before, read, _, hbefore, _, _, _, hafter⟩
    · cases herror.symm.trans hload
    · cases hafter.symm.trans hload
      have hle := h.bounded
      have hmore : (before.insert read).lastPosition = journal.log.lastPosition + 1 := by
        rw [Log.lastPosition_insert, hbefore.lastPosition]
      simp only [hmore]
      omega
  · rw [Nat.eq_zero_of_not_pos hpos, ByteArray.extract_same, ByteArray.append_empty] at hload
    obtain ⟨hgrows, hbounded⟩ := h.grows log hload
    exact ⟨hgrows, Nat.le_succ_of_le hbounded⟩

end Write

/-- A run counts its steps, and no event that was recorded is missing from the log. -/
theorem Reachable.run {last : Journal} {steps : List Step} {answered : List Answered}
    (h : journal.Reachable count) (few : count + steps.length < UInt64.size)
    (hrun : journal.run steps = .ok (answered, last)) :
    last.Reachable (count + steps.length) ∧
      journal.log.lastPosition + (recorded answered).length ≤ last.log.lastPosition := by
  replace hrun := runs_of_run hrun
  induction hrun generalizing count with
  | nil _ => exact ⟨h, Nat.le_refl _⟩
  | @reopen _ _ _ steps _ opened _ ih =>
    have hcount : count + (steps.length + 1) = count + 1 + steps.length := by omega
    rw [List.length_cons, hcount] at few ⊢
    obtain ⟨hreopened, hle⟩ := h.reopen opened
    obtain ⟨hlast, hevents⟩ := ih (hreopened.mono (Nat.le_succ count)) few
    exact ⟨hlast, by omega⟩
  | @append journal _ now disk call steps _ _ ih =>
    have hcount : count + (steps.length + 1) = count + 1 + steps.length := by omega
    rw [List.length_cons, hcount] at few ⊢
    have hroom : count + 1 < UInt64.size := by omega
    rw [answer]
    have htakes := takes journal now disk call
    generalize journal.take now disk call = result at htakes ih
    cases htakes with
    | poisoned _ =>
      obtain ⟨hlast, hevents⟩ := ih (h.mono (Nat.le_succ count)) few
      exact ⟨hlast, hevents⟩
    | behind _ _ =>
      obtain ⟨hlast, hevents⟩ := ih (h.mono (Nat.le_succ count)) few
      exact ⟨hlast, hevents⟩
    | recorded sound current _ =>
      obtain ⟨hlast, hevents⟩ := ih (h.record sound hroom current now) few
      refine ⟨hlast, ?_⟩
      rw [Log.lastPosition_insert] at hevents
      rw [recorded_ok, List.length_cons]
      omega
    | undone _ _ _ _ =>
      obtain ⟨hlast, hevents⟩ := ih (h.mono (Nat.le_succ count)) few
      exact ⟨hlast, hevents⟩
    | torn sound current _ _ =>
      obtain ⟨hlast, hevents⟩ := ih (h.tear sound hroom current now _) few
      exact ⟨hlast, hevents⟩

end StackJournal.Journal
