import StackJournal.EventLine.Reader
import StackJournal.Proofs.Json.Extension

/-! # Event lines before more text

An event ends with the bracket that closes it, so that whatever is written after it, the event is
read the same.
-/
namespace StackJournal.EventLine

open Json

variable {α : Type}

theorem plain_eq_ok_iff {result : Except Malformed α} {a : α} :
    plain result = .ok a ↔ result = .ok a := mapError_eq_ok_iff

theorem refuse_ne_ok (wanted : String) (c : Char) (rest : List Char) (a : α) :
    refuse wanted c rest ≠ .ok a := by
  intro h
  obtain ⟨found, _, h⟩ := bind_eq_ok_iff.mp h
  cases h

theorem readNat_append {s rest : List Char} {n : Nat} (h : readNat s = .ok (n, rest))
    (hrest : rest ≠ []) (t : List Char) : readNat (s ++ t) = .ok (n, rest ++ t) := by
  unfold readNat at h ⊢
  split at h
  · cases h
  next c after hs =>
  rw [skipSpace_append hs]
  simp only
  refine ite_eq_of_ite_eq h ?_ ?_
  · intro _ h
    obtain ⟨⟨m, last⟩, hnumber, h⟩ := bind_eq_ok_iff.mp h
    have hlast : last = rest ∧ ∃ k : UInt64, m = .natural k ∧ k.toNat = n := by
      cases m with
      | natural k =>
        cases h
        exact ⟨rfl, k, rfl, rfl⟩
      | negative k => cases h
      | float x => cases h
    obtain ⟨rfl, k, rfl, rfl⟩ := hlast
    refine bind_eq_ok_iff.mpr ⟨(.natural k, last ++ t), plain_eq_ok_iff.mpr ?_, rfl⟩
    have hnumber := plain_eq_ok_iff.mp hnumber
    refine ite_eq_of_ite_eq hnumber ?_ ?_
    · intro _ hread
      exact Number.read_more hread hrest t
    · intro _ hread
      exact Number.read_more hread hrest t
  · intro _ h
    exact absurd h (refuse_ne_ok _ _ _ _)

theorem readText_append {wanted : String} {s text rest : List Char}
    (h : readText wanted s = .ok (text, rest)) (t : List Char) :
    readText wanted (s ++ t) = .ok (text, rest ++ t) := by
  unfold readText at h ⊢
  split at h
  · cases h
  next c after hs =>
  rw [skipSpace_append hs]
  simp only
  refine ite_eq_of_ite_eq h ?_ ?_
  · intro _ h
    exact plain_eq_ok_iff.mpr (readString_append (plain_eq_ok_iff.mp h) t)
  · intro _ h
    exact absurd h (refuse_ne_ok _ _ _ _)

theorem readUuid_append {s rest : List Char} {id : Uuid} (h : readUuid s = .ok (id, rest))
    (t : List Char) : readUuid (s ++ t) = .ok (id, rest ++ t) := by
  obtain ⟨⟨text, last⟩, htext, h⟩ := bind_eq_ok_iff.mp h
  obtain ⟨id, hid, h⟩ := bind_eq_ok_iff.mp h
  cases h
  exact bind_eq_ok_iff.mpr
    ⟨(text, rest ++ t), readText_append htext t, bind_eq_ok_iff.mpr ⟨id, hid, rfl⟩⟩

theorem readTimestamp_append {s rest : List Char} {moment : Timestamp}
    (h : readTimestamp s = .ok (moment, rest)) (t : List Char) :
    readTimestamp (s ++ t) = .ok (moment, rest ++ t) := by
  obtain ⟨⟨text, last⟩, htext, h⟩ := bind_eq_ok_iff.mp h
  obtain ⟨moment, hmoment, h⟩ := bind_eq_ok_iff.mp h
  cases h
  exact bind_eq_ok_iff.mpr
    ⟨(text, rest ++ t), readText_append htext t, bind_eq_ok_iff.mpr ⟨moment, hmoment, rfl⟩⟩

theorem readUnit_append {s rest : List Char} (h : readUnit s = .ok rest) (t : List Char) :
    readUnit (s ++ t) = .ok (rest ++ t) := by
  unfold readUnit at h ⊢
  split at h
  · cases h
  next c after hs =>
  rw [skipSpace_append hs]
  simp only
  refine ite_eq_of_ite_eq h ?_ ?_
  · intro _ h
    exact plain_eq_ok_iff.mpr (readWord_append (plain_eq_ok_iff.mp h) t)
  · intro _ h
    exact absurd h (refuse_ne_ok _ _ _ _)

theorem readName_append {ofName? : String → Option α} {known : List String} {s rest : List Char}
    {a : α} (h : readName ofName? known s = .ok (a, rest)) (t : List Char) :
    readName ofName? known (s ++ t) = .ok (a, rest ++ t) := by
  unfold readName at h ⊢
  split at h
  · cases h
  next c after hs =>
  rw [skipSpace_append hs]
  simp only
  refine ite_eq_of_ite_eq h ?_ ?_
  · intro _ h
    obtain ⟨⟨text, last⟩, htext, h⟩ := bind_eq_ok_iff.mp h
    obtain ⟨a, ha, h⟩ := bind_eq_ok_iff.mp h
    cases h
    have hmore := readString_append (plain_eq_ok_iff.mp htext) t
    exact bind_eq_ok_iff.mpr
      ⟨(text, rest ++ t), plain_eq_ok_iff.mpr hmore, bind_eq_ok_iff.mpr ⟨a, ha, rfl⟩⟩
  intro _ h
  refine ite_eq_of_ite_eq h ?_ ?_
  · intro _ h
    split at h
    · cases h
    next d inside hinside =>
    rw [skipSpace_append hinside]
    simp only
    refine ite_eq_of_ite_eq h ?_ ?_
    · intro _ h
      obtain ⟨⟨text, last⟩, htext, h⟩ := bind_eq_ok_iff.mp h
      obtain ⟨a, ha, h⟩ := bind_eq_ok_iff.mp h
      obtain ⟨behind, hcolon, h⟩ := bind_eq_ok_iff.mp h
      obtain ⟨last, hunit, h⟩ := bind_eq_ok_iff.mp h
      have hmore := readString_append (plain_eq_ok_iff.mp htext) t
      have hcolon := readColon_append (plain_eq_ok_iff.mp hcolon) t
      refine bind_eq_ok_iff.mpr ⟨_, plain_eq_ok_iff.mpr hmore, bind_eq_ok_iff.mpr ⟨a, ha, ?_⟩⟩
      refine bind_eq_ok_iff.mpr ⟨_, plain_eq_ok_iff.mpr hcolon, ?_⟩
      refine bind_eq_ok_iff.mpr ⟨_, readUnit_append hunit t, ?_⟩
      split at h
      · cases h
      next e final hfinal =>
      rw [skipSpace_append hfinal]
      simp only
      refine ite_eq_of_ite_eq h ?_ ?_
      · intro _ h
        cases h
        rfl
      · intro _ h
        cases h
    · intro _ h
      cases h
  · intro _ h
    cases h

theorem readPayload_append {s rest : List Char} {payload : Option Json}
    (h : readPayload s = .ok (payload, rest)) (hrest : rest ≠ []) (t : List Char) :
    readPayload (s ++ t) = .ok (payload, rest ++ t) := by
  unfold readPayload at h ⊢
  cases hs : skipSpace s with
  | nil =>
    rw [hs] at h
    cases h
  | cons c after =>
    rw [skipSpace_append hs]
    rw [hs] at h
    simp only [List.head?_cons, List.drop_one, List.tail_cons] at h ⊢
    refine ite_eq_of_ite_eq h ?_ ?_
    · intro _ h
      obtain ⟨last, hword, h⟩ := bind_eq_ok_iff.mp h
      cases h
      have hmore := readWord_append (plain_eq_ok_iff.mp hword) t
      exact bind_eq_ok_iff.mpr ⟨_, plain_eq_ok_iff.mpr hmore, rfl⟩
    · intro _ h
      obtain ⟨⟨value, last⟩, hvalue, h⟩ := bind_eq_ok_iff.mp h
      cases h
      have hmore := readValue_append (plain_eq_ok_iff.mp hvalue) hrest t
      exact bind_eq_ok_iff.mpr ⟨_, plain_eq_ok_iff.mpr hmore, rfl⟩

theorem readField_append {draft after : Draft} {field : Field} {s rest : List Char}
    (h : draft.readField field s = .ok (after, rest)) (hrest : rest ≠ []) (t : List Char) :
    draft.readField field (s ++ t) = .ok (after, rest ++ t) := by
  cases field with
  | stack =>
    exact made_append (f := fun id => { draft with stack := some id }) h
      fun _ hid => readUuid_append hid t
  | sequence =>
    exact made_append (f := fun n => { draft with sequence := some n }) h
      fun _ hn => readNat_append hn hrest t
  | kind =>
    exact made_append (f := fun kind => { draft with kind := some kind }) h
      fun _ hkind => readName_append hkind t
  | payload =>
    exact made_append (f := fun payload => { draft with payload := some payload }) h
      fun _ hpayload => readPayload_append hpayload hrest t
  | position =>
    exact made_append (f := fun n => { draft with position := some n }) h
      fun _ hn => readNat_append hn hrest t
  | recordedAt =>
    exact made_append (f := fun moment => { draft with recordedAt := some moment }) h
      fun _ hmoment => readTimestamp_append hmoment t

theorem ne_nil_of_readMembers {fuel : Nat} {first : Bool} {draft : Draft} {s : List Char}
    {result : Draft × List Char} (h : readMembers fuel first draft s = .ok result) : s ≠ [] := by
  rintro rfl
  cases fuel <;> cases h

theorem readMembers_append {fuel more : Nat} (hmore : fuel ≤ more) {first : Bool}
    {draft after : Draft} {s rest : List Char}
    (h : readMembers fuel first draft s = .ok (after, rest)) (t : List Char) :
    readMembers more first draft (s ++ t) = .ok (after, rest ++ t) := by
  induction fuel generalizing more first draft s with
  | zero => cases h
  | succ fuel ih =>
    cases more with
    | zero => exact absurd hmore (Nat.not_succ_le_zero fuel)
    | succ more =>
      have hmore := Nat.le_of_succ_le_succ hmore
      rw [readMembers] at h ⊢
      obtain ⟨onward, honward, h⟩ := bind_eq_ok_iff.mp h
      have honward := nextField_append (plain_eq_ok_iff.mp honward) t
      refine bind_eq_ok_iff.mpr ⟨onward.append t, plain_eq_ok_iff.mpr honward, ?_⟩
      cases onward with
      | closed after =>
        cases h
        rfl
      | item s =>
        obtain ⟨⟨key, behind⟩, hkey, h⟩ := bind_eq_ok_iff.mp h
        have hkey := readString_append (plain_eq_ok_iff.mp hkey) t
        refine bind_eq_ok_iff.mpr ⟨(key, behind ++ t), plain_eq_ok_iff.mpr hkey, ?_⟩
        simp only at h ⊢
        cases hfield : Field.ofKey? (String.ofList key) with
        | none =>
          rw [hfield] at h
          obtain ⟨value, hcolon, h⟩ := bind_eq_ok_iff.mp h
          obtain ⟨last, hvalue, h⟩ := bind_eq_ok_iff.mp h
          have hcolon := readColon_append (plain_eq_ok_iff.mp hcolon) t
          have hvalue := skipValue_append (plain_eq_ok_iff.mp hvalue) (ne_nil_of_readMembers h) t
          exact bind_eq_ok_iff.mpr ⟨_, plain_eq_ok_iff.mpr hcolon,
            bind_eq_ok_iff.mpr ⟨_, plain_eq_ok_iff.mpr hvalue, ih hmore h⟩⟩
        | some field =>
          rw [hfield] at h
          simp only at h ⊢
          refine ite_eq_of_ite_eq h ?_ ?_
          · intro _ h
            cases h
          · intro _ h
            obtain ⟨value, hcolon, h⟩ := bind_eq_ok_iff.mp h
            obtain ⟨⟨filled, last⟩, hvalue, h⟩ := bind_eq_ok_iff.mp h
            have hcolon := readColon_append (plain_eq_ok_iff.mp hcolon) t
            have hvalue := readField_append hvalue (ne_nil_of_readMembers h) t
            exact bind_eq_ok_iff.mpr ⟨_, plain_eq_ok_iff.mpr hcolon,
              bind_eq_ok_iff.mpr ⟨_, hvalue, ih hmore h⟩⟩

theorem ne_nil_of_readPlaces {fields : List Field} {count : Nat} {draft : Draft} {s : List Char}
    {result : Draft × List Char} (h : readPlaces fields count draft s = .ok result) : s ≠ [] := by
  rintro rfl
  cases fields <;> cases h

theorem readPlaces_append {fields : List Field} {count : Nat} {draft after : Draft}
    {s rest : List Char} (h : readPlaces fields count draft s = .ok (after, rest))
    (t : List Char) : readPlaces fields count draft (s ++ t) = .ok (after, rest ++ t) := by
  induction fields generalizing count draft s with
  | nil =>
    rw [readPlaces] at h ⊢
    split at h
    · cases h
    next c behind hs =>
    rw [skipSpace_append hs]
    simp only
    refine ite_eq_of_ite_eq h ?_ ?_
    · intro _ h
      cases h
      rfl
    · intro _ h
      cases h
  | cons field fields ih =>
    rw [readPlaces] at h ⊢
    obtain ⟨onward, honward, h⟩ := bind_eq_ok_iff.mp h
    have honward := nextItem_append (plain_eq_ok_iff.mp honward) t
    refine bind_eq_ok_iff.mpr ⟨onward.append t, plain_eq_ok_iff.mpr honward, ?_⟩
    cases onward with
    | closed after => cases h
    | item s =>
      obtain ⟨⟨filled, last⟩, hvalue, h⟩ := bind_eq_ok_iff.mp h
      have hvalue := readField_append hvalue (ne_nil_of_readPlaces h) t
      exact bind_eq_ok_iff.mpr ⟨_, hvalue, ih h⟩

/-- An event that begins a text is read of it whatever follows. -/
theorem readEvent_append {s rest : List Char} {event : Event}
    (h : readEvent s = .ok (event, rest)) (t : List Char) :
    readEvent (s ++ t) = .ok (event, rest ++ t) := by
  unfold readEvent at h ⊢
  split at h
  · cases h
  next c after hs =>
  rw [skipSpace_append hs]
  simp only
  refine ite_eq_of_ite_eq h ?_ ?_
  · intro _ h
    obtain ⟨⟨draft, last⟩, hdraft, h⟩ := bind_eq_ok_iff.mp h
    obtain ⟨event, hevent, h⟩ := bind_eq_ok_iff.mp h
    cases h
    have hlonger : after.length + 1 ≤ (after ++ t).length + 1 := by
      rw [List.length_append]
      omega
    exact bind_eq_ok_iff.mpr
      ⟨_, readMembers_append hlonger hdraft t, bind_eq_ok_iff.mpr ⟨event, hevent, rfl⟩⟩
  intro _ h
  refine ite_eq_of_ite_eq h ?_ ?_
  · intro _ h
    obtain ⟨⟨draft, last⟩, hdraft, h⟩ := bind_eq_ok_iff.mp h
    obtain ⟨event, hevent, h⟩ := bind_eq_ok_iff.mp h
    cases h
    exact bind_eq_ok_iff.mpr
      ⟨_, readPlaces_append hdraft t, bind_eq_ok_iff.mpr ⟨event, hevent, rfl⟩⟩
  · intro _ h
    exact absurd h (refuse_ne_ok _ _ _ _)

end StackJournal.EventLine
