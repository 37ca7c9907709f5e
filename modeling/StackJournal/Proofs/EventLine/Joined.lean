import StackJournal.Proofs.EventLine.Extension
import StackJournal.Proofs.EventLine.Reread
import StackJournal.Proofs.Text.Blank

/-! # Lines cut off and lines run together

The beginning of an event's line is no event. Text after an event makes a line that is refused, and
so does text before it, unless it is white space.
-/
namespace StackJournal

open EventLine Json Text

theorem Event.ofLine_ofList_eq_ok_iff {s : List Char} {event : Event} :
    Event.ofLine (String.ofList s) = .ok event ↔
      ∃ rest, readEvent s = .ok (event, rest) ∧ skipSpace rest = [] := by
  rw [Event.ofLine, String.toList_ofList, bind_eq_ok_iff]
  constructor
  · rintro ⟨⟨read, rest⟩, hread, h⟩
    obtain ⟨_, hend, h⟩ := bind_eq_ok_iff.mp h
    cases h
    have hend := plain_eq_ok_iff.mp hend
    unfold readEnd at hend
    split at hend
    · next hspace => exact ⟨rest, hread, hspace⟩
    · cases hend
  · rintro ⟨rest, hread, hspace⟩
    refine ⟨(event, rest), hread, bind_eq_ok_iff.mpr ⟨(), ?_, rfl⟩⟩
    rw [plain_eq_ok_iff, readEnd, if_pos hspace]

/-- What cannot be read as an event is refused. -/
theorem exists_error {ε α : Type} {x : Except ε α} (h : ∀ a, x ≠ .ok a) : ∃ e, x = .error e := by
  cases x with
  | error e => exact ⟨e, rfl⟩
  | ok a => exact absurd rfl (h a)

/-- A cut line is refused. -/
theorem Event.ofLine_prefix {event : Event} (hsequence : event.sequence < UInt64.size)
    (hposition : event.position < UInt64.size) {s t : List Char} (hline : s ++ t = event.lineText)
    (ht : t ≠ []) : ∃ error, Event.ofLine (String.ofList s) = .error error := by
  refine exists_error fun read hread => ?_
  obtain ⟨rest, hread, _⟩ := ofLine_ofList_eq_ok_iff.mp hread
  have hlonger := readEvent_append hread t
  have hwhole := event.readEvent_lineText hsequence hposition []
  rw [List.append_nil, ← hline, hlonger] at hwhole
  obtain ⟨_, _, hpair⟩ := map_eq_ok_iff.mp hwhole.symm
  have hempty : rest ++ t = [] := (congrArg Prod.snd hpair).symm
  exact ht (List.append_eq_nil_iff.mp hempty).2

/-- Only white space may follow an event. -/
theorem Event.ofLine_append {s t : List Char} {event : Event}
    (h : Event.ofLine (String.ofList s) = .ok event) (ht : skipSpace t ≠ []) :
    ∃ error, Event.ofLine (String.ofList (s ++ t)) = .error error := by
  refine exists_error fun read hread => ?_
  obtain ⟨rest, hs, _⟩ := ofLine_ofList_eq_ok_iff.mp h
  obtain ⟨last, hst, hend⟩ := ofLine_ofList_eq_ok_iff.mp hread
  rw [readEvent_append hs t] at hst
  cases hst
  rw [skipSpace_eq_nil_iff] at hend
  apply ht
  rw [skipSpace_eq_nil_iff]
  exact fun c hc => hend c (List.mem_append_right rest hc)

theorem skipSpace_append_of_nil {s : List Char} (hs : skipSpace s = []) (t : List Char) :
    skipSpace (s ++ t) = skipSpace t :=
  List.dropWhile_append_of_pos ((skipSpace_eq_nil_iff s).mp hs)

/-- White space before an event is passed over. -/
theorem Event.ofLine_space_append {s : List Char} (hs : skipSpace s = []) (t : List Char) :
    Event.ofLine (String.ofList (s ++ t)) = Event.ofLine (String.ofList t) := by
  rw [Event.ofLine, Event.ofLine, String.toList_ofList, String.toList_ofList, readEvent, readEvent,
    skipSpace_append_of_nil hs]

/-- Other blanks before an event are refused. -/
theorem Event.ofLine_blank_append {s : List Char} (hblank : ∀ c ∈ s, isBlank c = true)
    (hs : skipSpace s ≠ []) (t : List Char) :
    ∃ error, Event.ofLine (String.ofList (s ++ t)) = .error error := by
  refine exists_error fun read hread => ?_
  obtain ⟨rest, hread, _⟩ := ofLine_ofList_eq_ok_iff.mp hread
  cases hc : skipSpace s with
  | nil => exact hs hc
  | cons c after =>
    have hmem : c ∈ s := by
      have hsub : c ∈ skipSpace s := by
        rw [hc]
        exact List.mem_cons_self
      exact (List.dropWhile_sublist isSpace).mem hsub
    have hbracket : ∀ d : Char, isBlank d = false → c ≠ d := by
      rintro d hd rfl
      rw [hblank c hmem] at hd
      cases hd
    rw [readEvent, skipSpace_append hc] at hread
    simp only [hbracket '{' rfl, hbracket '[' rfl, if_false] at hread
    exact refuse_ne_ok _ _ _ _ hread

end StackJournal
