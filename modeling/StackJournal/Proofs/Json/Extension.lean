import StackJournal.Json.Skip
import StackJournal.Proofs.Json.Extension.Number
import StackJournal.Proofs.Json.Extension.Quoted

/-! # Values before more text

What was read of a text is read of every longer text. Only a number must not have ended with the
text, for it might go on; all other values end with a character of their own.
-/
namespace StackJournal.Json

open Text

section Made

variable {ε β γ : Type} {rest t : List Char}

/-- What is made of a reader's result is made of it before more text. -/
theorem made_append {x x' : Except ε (β × List Char)} {f : β → γ} {c : γ}
    (h : (do let (b, rest) ← x; Except.ok (f b, rest)) = .ok (c, rest))
    (more : ∀ b, x = .ok (b, rest) → x' = .ok (b, rest ++ t)) :
    (do let (b, rest) ← x'; Except.ok (f b, rest)) = .ok (c, rest ++ t) := by
  obtain ⟨⟨b, last⟩, hb, h⟩ := bind_eq_ok_iff.mp h
  cases h
  exact bind_eq_ok_iff.mpr ⟨(b, rest ++ t), more b hb, rfl⟩

/-- What stands for a text that was passed over stands for it before more text. -/
theorem passed_append {x x' : Except ε (List Char)} {b c : β}
    (h : (do let rest ← x; Except.ok (b, rest)) = .ok (c, rest))
    (more : x = .ok rest → x' = .ok (rest ++ t)) :
    (do let rest ← x'; Except.ok (b, rest)) = .ok (c, rest ++ t) := by
  obtain ⟨last, hlast, h⟩ := bind_eq_ok_iff.mp h
  cases h
  exact bind_eq_ok_iff.mpr ⟨rest ++ t, more hlast, rfl⟩

end Made

theorem skipSpace_append {c : Char} {s rest : List Char} (h : skipSpace s = c :: rest)
    (t : List Char) : skipSpace (s ++ t) = c :: (rest ++ t) := by
  have hne : s.dropWhile isSpace ≠ [] := by
    intro hnil
    cases hnil.symm.trans h
  rw [skipSpace, Number.dropWhile_append_of_ne_nil hne]
  exact congrArg (· ++ t) h

theorem readWord_append {word s rest : List Char} (h : readWord word s = .ok rest)
    (t : List Char) : readWord word (s ++ t) = .ok (rest ++ t) := by
  induction word generalizing s with
  | nil =>
    cases h
    rfl
  | cons w word ih =>
    cases s with
    | nil => cases h
    | cons c s =>
      rw [readWord] at h
      rw [List.cons_append, readWord]
      refine ite_eq_of_ite_eq h ?_ ?_
      · intro _ h
        exact ih h
      · intro _ h
        cases h

theorem readColon_append {s rest : List Char} (h : readColon s = .ok rest) (t : List Char) :
    readColon (s ++ t) = .ok (rest ++ t) := by
  unfold readColon at h ⊢
  split at h
  · cases h
  next c after hs =>
  rw [skipSpace_append hs]
  simp only
  refine ite_eq_of_ite_eq h ?_ ?_
  · intro _ h
    cases h
    rfl
  · intro _ h
    cases h

def Onward.append : Onward → List Char → Onward
  | .item s, t => .item (s ++ t)
  | .closed s, t => .closed (s ++ t)

theorem nextItem_append {first : Bool} {s : List Char} {onward : Onward}
    (h : nextItem first s = .ok onward) (t : List Char) :
    nextItem first (s ++ t) = .ok (onward.append t) := by
  unfold nextItem at h ⊢
  split at h
  · cases h
  next c after hs =>
  rw [skipSpace_append hs]
  simp only
  refine ite_eq_of_ite_eq h ?_ ?_
  · intro _ h
    cases h
    rfl
  intro _ h
  refine ite_eq_of_ite_eq h ?_ ?_
  · intro _ h
    cases h
    rfl
  intro _ h
  refine ite_eq_of_ite_eq h ?_ ?_
  · intro _ h
    split at h
    · cases h
    next d after hafter =>
    rw [skipSpace_append hafter]
    simp only
    refine ite_eq_of_ite_eq h ?_ ?_
    · intro _ h
      cases h
    · intro _ h
      cases h
      rfl
  · intro _ h
    cases h

theorem nextField_append {first : Bool} {s : List Char} {onward : Onward}
    (h : nextField first s = .ok onward) (t : List Char) :
    nextField first (s ++ t) = .ok (onward.append t) := by
  unfold nextField at h ⊢
  split at h
  · cases h
  next c after hs =>
  rw [skipSpace_append hs]
  simp only
  refine ite_eq_of_ite_eq h ?_ ?_
  · intro _ h
    cases h
    rfl
  intro _ h
  refine ite_eq_of_ite_eq h ?_ ?_
  · intro _ h
    refine ite_eq_of_ite_eq h ?_ ?_
    · intro _ h
      cases h
      rfl
    · intro _ h
      cases h
  intro _ h
  refine ite_eq_of_ite_eq h ?_ ?_
  · intro _ h
    split at h
    · cases h
    next d after hafter =>
    rw [skipSpace_append hafter]
    simp only
    refine ite_eq_of_ite_eq h ?_ ?_
    · intro _ h
      cases h
      rfl
    · intro _ h
      split at h <;> cases h
  · intro _ h
    cases h

section Contents

variable {read : List Char → Except Malformed (Json × List Char)}
variable (hread : ∀ {s v rest}, read s = .ok (v, rest) → rest ≠ [] →
  ∀ t, read (s ++ t) = .ok (v, rest ++ t))

theorem ne_nil_of_readItems {fuel : Nat} {first : Bool} {s : List Char}
    {result : List Json × List Char} (h : readItems read fuel first s = .ok result) : s ≠ [] := by
  rintro rfl
  cases fuel <;> cases h

theorem ne_nil_of_readFields {fuel : Nat} {first : Bool} {s : List Char}
    {result : List (String × Json) × List Char} (h : readFields read fuel first s = .ok result) :
    s ≠ [] := by
  rintro rfl
  cases fuel <;> cases h

include hread

theorem readItems_append {fuel more : Nat} (hmore : fuel ≤ more) {first : Bool}
    {s rest : List Char} {items : List Json}
    (h : readItems read fuel first s = .ok (items, rest)) (t : List Char) :
    readItems read more first (s ++ t) = .ok (items, rest ++ t) := by
  induction fuel generalizing more first s items with
  | zero => cases h
  | succ fuel ih =>
    cases more with
    | zero => exact absurd hmore (Nat.not_succ_le_zero fuel)
    | succ more =>
      rw [readItems] at h ⊢
      obtain ⟨onward, honward, h⟩ := bind_eq_ok_iff.mp h
      refine bind_eq_ok_iff.mpr ⟨onward.append t, nextItem_append honward t, ?_⟩
      cases onward with
      | closed after =>
        cases h
        rfl
      | item s =>
        obtain ⟨⟨v, after⟩, hv, h⟩ := bind_eq_ok_iff.mp h
        obtain ⟨⟨items, last⟩, hitems, h⟩ := bind_eq_ok_iff.mp h
        cases h
        have hvalue := hread hv (ne_nil_of_readItems hitems) t
        have htail := ih (Nat.le_of_succ_le_succ hmore) hitems
        exact bind_eq_ok_iff.mpr ⟨(v, after ++ t), hvalue,
          bind_eq_ok_iff.mpr ⟨(items, rest ++ t), htail, rfl⟩⟩

theorem readFields_append {fuel more : Nat} (hmore : fuel ≤ more) {first : Bool}
    {s rest : List Char} {fields : List (String × Json)}
    (h : readFields read fuel first s = .ok (fields, rest)) (t : List Char) :
    readFields read more first (s ++ t) = .ok (fields, rest ++ t) := by
  induction fuel generalizing more first s fields with
  | zero => cases h
  | succ fuel ih =>
    cases more with
    | zero => exact absurd hmore (Nat.not_succ_le_zero fuel)
    | succ more =>
      rw [readFields] at h ⊢
      obtain ⟨onward, honward, h⟩ := bind_eq_ok_iff.mp h
      refine bind_eq_ok_iff.mpr ⟨onward.append t, nextField_append honward t, ?_⟩
      cases onward with
      | closed after =>
        cases h
        rfl
      | item s =>
        obtain ⟨⟨key, afterKey⟩, hkey, h⟩ := bind_eq_ok_iff.mp h
        obtain ⟨afterColon, hcolon, h⟩ := bind_eq_ok_iff.mp h
        obtain ⟨⟨v, after⟩, hv, h⟩ := bind_eq_ok_iff.mp h
        obtain ⟨⟨fields, last⟩, hfields, h⟩ := bind_eq_ok_iff.mp h
        cases h
        have hvalue := hread hv (ne_nil_of_readFields hfields) t
        have htail := ih (Nat.le_of_succ_le_succ hmore) hfields
        exact bind_eq_ok_iff.mpr ⟨(key, afterKey ++ t), readString_append hkey t,
          bind_eq_ok_iff.mpr ⟨afterColon ++ t, readColon_append hcolon t,
            bind_eq_ok_iff.mpr ⟨(v, after ++ t), hvalue,
              bind_eq_ok_iff.mpr ⟨(fields, rest ++ t), htail, rfl⟩⟩⟩⟩

end Contents

/-- A value is read the same before more text if its contents are. -/
theorem readValue_append_of_inner {limit : Nat}
    (hinner : ∀ {inner}, limit = inner + 1 → ∀ {s v rest}, readValue inner s = .ok (v, rest) →
      rest ≠ [] → ∀ t, readValue inner (s ++ t) = .ok (v, rest ++ t))
    {s rest : List Char} {v : Json} (h : readValue limit s = .ok (v, rest)) (hrest : rest ≠ [])
    (t : List Char) : readValue limit (s ++ t) = .ok (v, rest ++ t) := by
  unfold readValue at h ⊢
  split at h
  · cases h
  next c after hs =>
  rw [skipSpace_append hs]
  simp only
  refine ite_eq_of_ite_eq h ?_ ?_
  · intro _ h
    exact passed_append h fun hword => readWord_append hword t
  intro _ h
  refine ite_eq_of_ite_eq h ?_ ?_
  · intro _ h
    exact passed_append h fun hword => readWord_append hword t
  intro _ h
  refine ite_eq_of_ite_eq h ?_ ?_
  · intro _ h
    exact passed_append h fun hword => readWord_append hword t
  intro _ h
  refine ite_eq_of_ite_eq h ?_ ?_
  · intro _ h
    exact made_append h fun _ hnumber => Number.read_more hnumber hrest t
  intro _ h
  refine ite_eq_of_ite_eq h ?_ ?_
  · intro _ h
    exact made_append h fun _ hnumber => Number.read_more hnumber hrest t
  intro _ h
  refine ite_eq_of_ite_eq h ?_ ?_
  · intro _ h
    exact made_append (f := fun text => Json.string (String.ofList text)) h
      fun _ htext => readString_append htext t
  intro _ h
  have hlonger : after.length + 1 ≤ (after ++ t).length + 1 := by
    rw [List.length_append]
    omega
  refine ite_eq_of_ite_eq h ?_ ?_
  · intro _ h
    cases limit with
    | zero => cases h
    | succ inner =>
      exact made_append h fun _ hitems => readItems_append (hinner rfl) hlonger hitems t
  intro _ h
  refine ite_eq_of_ite_eq h ?_ ?_
  · intro _ h
    cases limit with
    | zero => cases h
    | succ inner =>
      exact made_append h fun _ hfields => readFields_append (hinner rfl) hlonger hfields t
  · intro _ h
    cases h

theorem readValue_append {limit : Nat} {s rest : List Char} {v : Json}
    (h : readValue limit s = .ok (v, rest)) (hrest : rest ≠ []) (t : List Char) :
    readValue limit (s ++ t) = .ok (v, rest ++ t) := by
  induction limit generalizing s v rest t with
  | zero =>
    refine readValue_append_of_inner ?_ h hrest t
    intro inner hlimit
    cases hlimit
  | succ limit ih =>
    refine readValue_append_of_inner ?_ h hrest t
    rintro inner ⟨⟩ s v rest h hrest t
    exact ih h hrest t

/-! Values that are passed over. -/

theorem skipStart_append {s rest : List Char} {bracket : Option Bracket}
    (h : skipStart s = .ok (bracket, rest)) (hrest : rest ≠ []) (t : List Char) :
    skipStart (s ++ t) = .ok (bracket, rest ++ t) := by
  unfold skipStart at h ⊢
  split at h
  · cases h
  next c after hs =>
  rw [skipSpace_append hs]
  simp only
  refine ite_eq_of_ite_eq h ?_ ?_
  · intro _ h
    exact passed_append h fun hword => readWord_append hword t
  intro _ h
  refine ite_eq_of_ite_eq h ?_ ?_
  · intro _ h
    exact passed_append h fun hword => readWord_append hword t
  intro _ h
  refine ite_eq_of_ite_eq h ?_ ?_
  · intro _ h
    exact passed_append h fun hword => readWord_append hword t
  intro _ h
  refine ite_eq_of_ite_eq h ?_ ?_
  · intro _ h
    exact passed_append h fun hnumber => Number.skip_more hnumber hrest t
  intro _ h
  refine ite_eq_of_ite_eq h ?_ ?_
  · intro _ h
    exact passed_append h fun hnumber => Number.skip_more hnumber hrest t
  intro _ h
  refine ite_eq_of_ite_eq h ?_ ?_
  · intro _ h
    exact passed_append h fun htext => skipString_append htext t
  intro _ h
  refine ite_eq_of_ite_eq h ?_ ?_
  · intro _ h
    cases h
    rfl
  intro _ h
  refine ite_eq_of_ite_eq h ?_ ?_
  · intro _ h
    cases h
    rfl
  · intro _ h
    cases h

theorem settle_append {after : Bool} {opened left : List Bracket} {s rest : List Char}
    (h : settle after opened s = .ok (left, rest)) (t : List Char) :
    settle after opened (s ++ t) = .ok (left, rest ++ t) := by
  induction opened generalizing after s with
  | nil =>
    cases h
    rfl
  | cons b outer ih =>
    rw [settle] at h ⊢
    split at h
    · cases h
    next c behind hs =>
    rw [skipSpace_append hs]
    simp only
    refine ite_eq_of_ite_eq h ?_ ?_
    · intro _ h
      cases h
      rfl
    intro _ h
    refine ite_eq_of_ite_eq h ?_ ?_
    · intro _ h
      exact ih h
    intro _ h
    refine ite_eq_of_ite_eq h ?_ ?_
    · intro _ h
      cases h
    · intro _ h
      cases h
      rfl

theorem skipKey_append {s rest : List Char} (h : skipKey s = .ok rest) (t : List Char) :
    skipKey (s ++ t) = .ok (rest ++ t) := by
  unfold skipKey at h ⊢
  split at h
  · cases h
  next c after hs =>
  rw [skipSpace_append hs]
  simp only
  refine ite_eq_of_ite_eq h ?_ ?_
  · intro _ h
    obtain ⟨last, htext, h⟩ := bind_eq_ok_iff.mp h
    exact bind_eq_ok_iff.mpr ⟨last ++ t, skipString_append htext t, readColon_append h t⟩
  · intro _ h
    cases h

/-- Nothing is settled before the end of a text. -/
theorem settle_nil {after : Bool} {opened left : List Bracket} {rest : List Char}
    (h : settle after opened [] = .ok (left, rest)) : opened = [] ∧ left = [] ∧ rest = [] := by
  cases opened with
  | nil =>
    cases h
    exact ⟨rfl, rfl, rfl⟩
  | cons b outer => cases h

theorem skipItems_append {fuel more : Nat} (hmore : fuel ≤ more) {opened : List Bracket}
    {s rest : List Char} (h : skipItems fuel opened s = .ok rest) (hrest : rest ≠ [])
    (t : List Char) : skipItems more opened (s ++ t) = .ok (rest ++ t) := by
  induction fuel generalizing more opened s with
  | zero => cases h
  | succ fuel ih =>
    cases more with
    | zero => exact absurd hmore (Nat.not_succ_le_zero fuel)
    | succ more =>
      rw [skipItems] at h ⊢
      obtain ⟨⟨bracket, start⟩, hstart, h⟩ := bind_eq_ok_iff.mp h
      simp only at h
      obtain ⟨⟨left, behind⟩, hsettle, h⟩ := bind_eq_ok_iff.mp h
      have hstart' : start ≠ [] := by
        rintro rfl
        obtain ⟨_, rfl, rfl⟩ := settle_nil hsettle
        cases h
        exact hrest rfl
      refine bind_eq_ok_iff.mpr ⟨(bracket, start ++ t), skipStart_append hstart hstart' t, ?_⟩
      refine bind_eq_ok_iff.mpr ⟨(left, behind ++ t), settle_append hsettle t, ?_⟩
      match left with
      | [] =>
        cases h
        rfl
      | .square :: outer => exact ih (Nat.le_of_succ_le_succ hmore) h
      | .curly :: outer =>
        obtain ⟨after, hkey, h⟩ := bind_eq_ok_iff.mp h
        exact bind_eq_ok_iff.mpr
          ⟨after ++ t, skipKey_append hkey t, ih (Nat.le_of_succ_le_succ hmore) h⟩

theorem skipValue_append {s rest : List Char} (h : skipValue s = .ok rest) (hrest : rest ≠ [])
    (t : List Char) : skipValue (s ++ t) = .ok (rest ++ t) := by
  refine skipItems_append ?_ h hrest t
  rw [List.length_append]
  omega

end StackJournal.Json
