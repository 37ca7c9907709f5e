import Mathlib.Data.List.Induction
import StackJournal.Error
import StackJournal.Proofs.Stack.History

/-! # What a history is judged

A history is replayed if every event goes on with those before it. Otherwise it is refused for its
first event that breaks a rule, and what comes after that is not looked at.
-/
namespace StackJournal.Stack

variable {id : Uuid} {events before : List Event} {event : Event}

theorem applyAll_concat (stack : Stack) (events : List Event) (event : Event) :
    stack.applyAll (events ++ [event]) = (stack.applyAll events).apply event.kind := by
  simp [applyAll]

/-- A history keeps the rules just if the events before its last do and that goes on with them. -/
theorem lawful_concat_iff : Lawful id (events ++ [event]) ↔ Replayable id events ∧
    event.stack = id ∧ event.sequence = events.length + 1 ∧
      (event.kind = .create ↔ events = []) := by
  constructor
  · rintro ⟨⟨first, rest, hsplit, hfirst, hrest⟩, own, sequences⟩
    have hlast : event.stack = id := own event (by simp)
    have hsequences : events.map (·.sequence) = List.range' 1 events.length ∧
        event.sequence = events.length + 1 := by
      simpa [List.range'_1_concat, Nat.add_comm] using sequences
    cases events with
    | nil =>
      obtain ⟨rfl, -⟩ := List.cons.inj hsplit
      exact ⟨Or.inl rfl, hlast, hsequences.2, by simp [hfirst]⟩
    | cons head tail =>
      obtain ⟨rfl, rfl⟩ := List.cons.inj hsplit
      refine ⟨Or.inr ⟨⟨head, tail, rfl, hfirst, ?_⟩, ?_, hsequences.1⟩, hlast, hsequences.2, ?_⟩
      · exact fun other hother => hrest other (by simp [hother])
      · exact fun other hother => own other (List.mem_append_left _ hother)
      · simpa using hrest event (by simp)
  · rintro ⟨rfl | hlawful, hstack, hsequence, hkind⟩
    · exact lawful_create hstack (hkind.mpr rfl) hsequence
    · refine hlawful.append hstack hsequence fun hcreate => ?_
      obtain ⟨first, rest, rfl, _⟩ := hlawful.begun
      exact absurd (hkind.mp hcreate) (by simp)

theorem Lawful.ne_nil (h : Lawful id events) : events ≠ [] := by
  obtain ⟨first, rest, rfl, _⟩ := h.begun
  simp

/-- The front of a history that keeps the rules keeps them too. -/
theorem Replayable.front {front : List Event} (h : Replayable id events)
    (hfront : front <+: events) : Replayable id front := by
  obtain ⟨rest, rfl⟩ := hfront
  induction rest using List.reverseRecOn with
  | nil => simpa using h
  | append_singleton rest event ih =>
    rw [← List.append_assoc] at h
    rcases h with hnone | hlawful
    · simp at hnone
    · exact ih (lawful_concat_iff.mp hlawful).1

/-- The rule that an event breaks after events that break none. -/
inductive Breaks (id : Uuid) (before : List Event) (event : Event) : Corruption → Prop where
  | firstNotCreate (first : before = []) (other : event.kind ≠ .create) :
      Breaks id before event (.firstNotCreate event.kind)
  | foreignEvent (begun : before = [] → event.kind = .create) (foreign : event.stack ≠ id) :
      Breaks id before event (.foreignEvent event.position event.stack)
  | wrongSequence (begun : before = [] → event.kind = .create) (own : event.stack = id)
      (wrong : event.sequence ≠ before.length + 1) :
      Breaks id before event (.wrongSequence (before.length + 1) event.sequence)
  | repeatedCreate (later : before ≠ []) (own : event.stack = id)
      (next : event.sequence = before.length + 1) (again : event.kind = .create) :
      Breaks id before event (.repeatedCreate event.sequence)

theorem lawful_or_breaks (h : Replayable id before) (event : Event) :
    Lawful id (before ++ [event]) ∨ ∃ fault, Breaks id before event fault := by
  by_cases begun : before = [] → event.kind = .create
  · by_cases own : event.stack = id
    · by_cases next : event.sequence = before.length + 1
      · by_cases again : event.kind = .create → before = []
        · exact Or.inl (lawful_concat_iff.mpr ⟨h, own, next, again, begun⟩)
        · obtain ⟨again, later⟩ := Classical.not_imp.mp again
          exact Or.inr ⟨_, .repeatedCreate later own next again⟩
      · exact Or.inr ⟨_, .wrongSequence begun own next⟩
    · exact Or.inr ⟨_, .foreignEvent begun own⟩
  · obtain ⟨first, other⟩ := Classical.not_imp.mp begun
    exact Or.inr ⟨_, .firstNotCreate first other⟩

/-- A history that breaks the rules has a first event that does. -/
theorem exists_breaks (h : ¬Replayable id events) : ∃ before event after fault,
    events = before ++ event :: after ∧ Replayable id before ∧ Breaks id before event fault := by
  induction events using List.reverseRecOn with
  | nil => exact absurd (Or.inl rfl) h
  | append_singleton events event ih =>
    by_cases hevents : Replayable id events
    · obtain hlawful | ⟨fault, hbreaks⟩ := lawful_or_breaks hevents event
      · exact absurd (Or.inr hlawful) h
      · exact ⟨events, event, [], fault, rfl, hevents, hbreaks⟩
    · obtain ⟨before, first, after, fault, rfl, hbefore, hbreaks⟩ := ih hevents
      exact ⟨before, first, after ++ [event], fault, by simp, hbefore, hbreaks⟩

theorem ofHistory_begun {first : Event} (begun : first.kind = .create) (rest : List Event) :
    ofHistory id (first :: rest) = (first :: rest).foldlM replay (blank id) := by
  simp [ofHistory, begun]

theorem Replayable.foldlM_replay (h : Replayable id before) :
    before.foldlM replay (blank id) = .ok ((blank id).applyAll before) := by
  rcases h with rfl | hlawful
  · rfl
  · have haccepted := ofHistory_eq_ok_iff.mpr ⟨hlawful, rfl⟩
    obtain ⟨first, rest, rfl, hfirst, _⟩ := hlawful.begun
    rwa [ofHistory_begun hfirst] at haccepted

section Breaks

variable {fault : Corruption}

theorem Breaks.replay (h : Breaks id before event fault)
    (begun : before = [] → event.kind = .create) :
    ((blank id).applyAll before).replay event = .error (.corrupt fault) := by
  rw [applyAll_blank, Stack.replay]
  cases h with
  | firstNotCreate first other => exact absurd (begun first) other
  | foreignEvent _ foreign => simp [foreign]
  | wrongSequence _ own wrong => simp [own, wrong]
  | repeatedCreate later own next again => simp [own, next, again, later]

/-- What comes after an event that breaks a rule is not looked at. -/
theorem Breaks.ofHistory (h : Breaks id before event fault) (hbefore : Replayable id before)
    (after : List Event) : ofHistory id (before ++ event :: after) = .error (.corrupt fault) := by
  by_cases begun : before = [] → event.kind = .create
  · have hfold : Stack.ofHistory id (before ++ event :: after) =
        (before ++ event :: after).foldlM Stack.replay (blank id) := by
      rcases hbefore with rfl | hlawful
      · exact ofHistory_begun (begun rfl) after
      · obtain ⟨first, rest, rfl, hfirst, _⟩ := hlawful.begun
        exact ofHistory_begun hfirst _
    rw [hfold, List.foldlM_append, hbefore.foldlM_replay]
    show (event :: after).foldlM Stack.replay ((blank id).applyAll before) = _
    rw [List.foldlM_cons, h.replay begun]
    rfl
  · obtain ⟨rfl, other⟩ := Classical.not_imp.mp begun
    cases h with
    | firstNotCreate _ _ => simp [Stack.ofHistory, other]
    | foreignEvent begun _ => exact absurd (begun rfl) other
    | wrongSequence begun _ _ => exact absurd (begun rfl) other
    | repeatedCreate later _ _ _ => exact absurd rfl later

end Breaks

/-- No history is refused as empty, and any other for the first rule that an event breaks. -/
theorem ofHistory_eq_error_iff {error : HistoryError} : ofHistory id events = .error error ↔
    events = [] ∧ error = .empty ∨ ∃ before event after fault, events = before ++ event :: after ∧
      Replayable id before ∧ Breaks id before event fault ∧ error = .corrupt fault := by
  constructor
  · intro h
    by_cases hevents : Replayable id events
    · rcases hevents with rfl | hlawful
      · cases h
        exact Or.inl ⟨rfl, rfl⟩
      · rw [ofHistory_eq_ok_iff.mpr ⟨hlawful, rfl⟩] at h
        cases h
    · obtain ⟨before, event, after, fault, rfl, hbefore, hbreaks⟩ := exists_breaks hevents
      rw [hbreaks.ofHistory hbefore] at h
      cases h
      exact Or.inr ⟨before, event, after, fault, rfl, hbefore, hbreaks, rfl⟩
  · rintro (⟨rfl, rfl⟩ | ⟨before, event, after, fault, rfl, hbefore, hbreaks, rfl⟩)
    · rfl
    · exact hbreaks.ofHistory hbefore after

theorem ofHistory_eq_empty_iff : ofHistory id events = .error .empty ↔ events = [] := by
  simp [ofHistory_eq_error_iff]

theorem ofHistory_eq_corrupt_iff {fault : Corruption} :
    ofHistory id events = .error (.corrupt fault) ↔ ∃ before event after,
      events = before ++ event :: after ∧ Replayable id before ∧ Breaks id before event fault := by
  simp [ofHistory_eq_error_iff]

section Answer

variable {result : Except HistoryError Stack}

theorem answers_notFound_iff : result.mapError (AppError.ofHistory id) = .error (.notFound id) ↔
    result = .error .empty := by
  rcases result with (_ | fault) | stack <;> simp [AppError.ofHistory]

theorem answers_corrupt_iff {fault : Corruption} :
    result.mapError (AppError.ofHistory id) = .error (.corruptHistory id fault) ↔
      result = .error (.corrupt fault) := by
  rcases result with (_ | other) | stack <;> simp [AppError.ofHistory]

end Answer

/-- A history is accepted just if it keeps the rules, and makes the stack that its kinds make of
nothing. No history is not found, and any other is corrupt, for the first rule that an event breaks.
So every front of an accepted history is accepted, and an accepted history goes on with just those
events that are no `create` and have the next sequence of its stack. -/
theorem history_judged (id : Uuid) (events : List Event) :
    let answer := (ofHistory id events).mapError (AppError.ofHistory id)
    (∀ stack, answer = .ok stack ↔ Lawful id events ∧ stack = ⟨id, events.length,
      (events.map (·.kind)).foldl (fun cells kind => kind.act cells) [], #[]⟩) ∧
    (answer = .error (.notFound id) ↔ events = []) ∧
    (events ≠ [] → ¬Lawful id events → ∃ fault, answer = .error (.corruptHistory id fault)) ∧
    (∀ fault, answer = .error (.corruptHistory id fault) ↔ ∃ before event after,
      events = before ++ event :: after ∧ Replayable id before ∧ Breaks id before event fault) ∧
    ∀ stack, answer = .ok stack →
      (∀ front, front <+: events → front ≠ [] → ∃ earlier, ofHistory id front = .ok earlier) ∧
      ∀ event next, ofHistory id (events ++ [event]) = .ok next ↔
        (event.stack = id ∧ event.sequence = events.length + 1 ∧ event.kind ≠ .create) ∧
          next = stack.apply event.kind := by
  intro answer
  have hok : ∀ stack, answer = .ok stack ↔
      Lawful id events ∧ stack = (blank id).applyAll events :=
    fun stack => mapError_eq_ok_iff.trans ofHistory_eq_ok_iff
  refine ⟨fun stack => by rw [hok, applyAll_blank],
    answers_notFound_iff.trans ofHistory_eq_empty_iff, fun hsome hnot => ?_,
    fun fault => answers_corrupt_iff.trans ofHistory_eq_corrupt_iff, fun stack hstack => ?_⟩
  · have hrefused : ¬Replayable id events := fun h => h.elim hsome hnot
    obtain ⟨before, event, after, fault, rfl, hbefore, hbreaks⟩ := exists_breaks hrefused
    exact ⟨fault, answers_corrupt_iff.mpr (hbreaks.ofHistory hbefore after)⟩
  · obtain ⟨hlawful, rfl⟩ := (hok stack).mp hstack
    refine ⟨fun front hfront hsome => ?_, fun event next => ?_⟩
    · have hkeeps : Replayable id front := Replayable.front (Or.inr hlawful) hfront
      exact exists_ofHistory_iff.mpr (hkeeps.resolve_left hsome)
    · have hgoes : Lawful id (events ++ [event]) ↔ event.stack = id ∧
          event.sequence = events.length + 1 ∧ event.kind ≠ .create := by
        simp [lawful_concat_iff, Replayable, hlawful, hlawful.ne_nil]
      rw [ofHistory_eq_ok_iff, hgoes, applyAll_concat]

/-- A stack is created and gets an item, and a third event goes on with the two. -/
theorem two_events_judged :
    let created : Event := ⟨⟨0⟩, 1, .create, none, 4, .epoch⟩
    let pushed : Event := ⟨⟨0⟩, 2, .kapp .zero, none, 7, .epoch⟩
    ofHistory ⟨0⟩ [created, pushed] = .ok ⟨⟨0⟩, 2, [0], #[]⟩ ∧
      (∃ earlier, ofHistory ⟨0⟩ [created] = .ok earlier) ∧
      ofHistory ⟨0⟩ [created, pushed, ⟨⟨0⟩, 3, .kapp .succ, none, 9, .epoch⟩] =
        .ok ⟨⟨0⟩, 3, [1], #[]⟩ := by
  intro created pushed
  have haccepted : ofHistory ⟨0⟩ [created, pushed] = .ok ⟨⟨0⟩, 2, [0], #[]⟩ := rfl
  obtain ⟨_, _, _, _, hgoesOn⟩ := history_judged ⟨0⟩ [created, pushed]
  obtain ⟨hfronts, hnext⟩ := hgoesOn _ (mapError_eq_ok_iff.mpr haccepted)
  exact ⟨haccepted, hfronts [created] ⟨[pushed], rfl⟩ (by simp),
    (hnext ⟨⟨0⟩, 3, .kapp .succ, none, 9, .epoch⟩ _).mpr ⟨⟨rfl, rfl, by simp⟩, rfl⟩⟩

end StackJournal.Stack
