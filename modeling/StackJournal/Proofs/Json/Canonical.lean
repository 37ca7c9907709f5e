import StackJournal.Proofs.Json.Reread
import StackJournal.Proofs.Outcome

/-! # Values that are read back as themselves

Every value that was read has sorted objects and no more open brackets than were allowed. Such a
value without floating-point numbers is read back as itself, unless too many brackets are open.
-/
namespace StackJournal.Json

inductive Sorted : Json → Prop where
  | null : Sorted .null
  | bool (b : Bool) : Sorted (.bool b)
  | number (n : Number) : Sorted (.number n)
  | string (s : String) : Sorted (.string s)
  | array {items : List Json} (items_sorted : ∀ v ∈ items, Sorted v) : Sorted (.array items)
  | object {fields : List (String × Json)} (keys : fields.Pairwise fun f g => f.1 < g.1)
      (values : ∀ f ∈ fields, Sorted f.2) : Sorted (.object fields)

inductive FloatFree : Json → Prop where
  | null : FloatFree .null
  | bool (b : Bool) : FloatFree (.bool b)
  | natural (n : UInt64) : FloatFree (.number (.natural n))
  | negative (k : BitVec 63) : FloatFree (.number (.negative k))
  | string (s : String) : FloatFree (.string s)
  | array {items : List Json} (free : ∀ v ∈ items, FloatFree v) : FloatFree (.array items)
  | object {fields : List (String × Json)} (free : ∀ f ∈ fields, FloatFree f.2) :
      FloatFree (.object fields)

theorem mem_insertField {key : String} {value : Json} {fields : List (String × Json)}
    {f : String × Json} (h : f ∈ insertField key value fields) : f = (key, value) ∨ f ∈ fields := by
  induction fields with
  | nil => exact Or.inl (List.mem_singleton.mp h)
  | cons g fields ih =>
    rw [insertField] at h
    split at h
    · exact List.mem_cons.mp h
    · split at h
      · rcases List.mem_cons.mp h with h | h
        · exact Or.inl h
        · exact Or.inr (List.mem_cons_of_mem _ h)
      · rcases List.mem_cons.mp h with h | h
        · exact Or.inr (h ▸ List.mem_cons_self)
        · rcases ih h with h | h
          · exact Or.inl h
          · exact Or.inr (List.mem_cons_of_mem _ h)

theorem pairwise_insertField (key : String) (value : Json) {fields : List (String × Json)}
    (h : fields.Pairwise fun f g => f.1 < g.1) :
    (insertField key value fields).Pairwise fun f g => f.1 < g.1 := by
  induction fields with
  | nil => exact List.pairwise_singleton _ _
  | cons g fields ih =>
    obtain ⟨hhead, htail⟩ := List.pairwise_cons.mp h
    rw [insertField]
    split
    · next hlt =>
      refine List.pairwise_cons.mpr ⟨?_, h⟩
      intro f hf
      rcases List.mem_cons.mp hf with rfl | hf
      · exact hlt
      · exact String.lt_trans hlt (hhead f hf)
    · next hlt =>
      split
      · next heq => exact List.pairwise_cons.mpr ⟨fun f hf => heq ▸ hhead f hf, htail⟩
      · next hne =>
        refine List.pairwise_cons.mpr ⟨?_, ih htail⟩
        intro f hf
        rcases mem_insertField hf with rfl | hf
        · rcases String.le_total g.1 key with hle | hle
          · exact String.not_le.mp fun hge => hne (String.le_antisymm hge hle)
          · exact absurd (String.le_antisymm hle (String.not_lt.mp hlt)) hne
        · exact hhead f hf

/-- An object made of fields has sorted ones, and only those it was made of. -/
theorem ofFields_eq_object (fields : List (String × Json)) : ∃ sorted, ofFields fields =
    object sorted ∧ (sorted.Pairwise fun f g => f.1 < g.1) ∧ ∀ f ∈ sorted, f ∈ fields := by
  suffices hfold : ∀ front : List (String × Json), (front.Pairwise fun f g => f.1 < g.1) →
      ∃ sorted, fields.foldl (fun sorted f => insertField f.1 f.2 sorted) front = sorted ∧
        (sorted.Pairwise fun f g => f.1 < g.1) ∧ ∀ f ∈ sorted, f ∈ front ∨ f ∈ fields by
    obtain ⟨sorted, hsorted, hkeys, hmem⟩ := hfold [] List.Pairwise.nil
    exact ⟨sorted, congrArg object hsorted, hkeys, fun f hf => by simpa using hmem f hf⟩
  induction fields with
  | nil => exact fun front hkeys => ⟨front, rfl, hkeys, fun f hf => Or.inl hf⟩
  | cons g fields ih =>
    intro front hkeys
    obtain ⟨sorted, hsorted, hpairs, hmem⟩ := ih _ (pairwise_insertField g.1 g.2 hkeys)
    refine ⟨sorted, hsorted, hpairs, fun f hf => ?_⟩
    rcases hmem f hf with hf | hf
    · rcases mem_insertField hf with rfl | hf
      · exact Or.inr List.mem_cons_self
      · exact Or.inl hf
    · exact Or.inr (List.mem_cons_of_mem g hf)

theorem insertField_last {key : String} {value : Json} {fields : List (String × Json)}
    (h : ∀ f ∈ fields, f.1 < key) : insertField key value fields = fields ++ [(key, value)] := by
  induction fields with
  | nil => rfl
  | cons g fields ih =>
    have hg := h g List.mem_cons_self
    rw [insertField, if_neg (String.lt_asymm hg), if_neg (String.ne_of_lt hg).symm,
      ih fun f hf => h f (List.mem_cons_of_mem g hf), List.cons_append]

/-- Sorted fields are the fields of their object. -/
theorem ofFields_sorted {fields : List (String × Json)}
    (h : fields.Pairwise fun f g => f.1 < g.1) : ofFields fields = object fields := by
  suffices hfold : ∀ front, ((front ++ fields).Pairwise fun f g => f.1 < g.1) →
      fields.foldl (fun sorted f => insertField f.1 f.2 sorted) front = front ++ fields by
    exact congrArg object (hfold [] h)
  clear h
  induction fields with
  | nil => exact fun front _ => (List.append_nil front).symm
  | cons g fields ih =>
    intro front hfront
    have hlast : ∀ f ∈ front, f.1 < g.1 := by
      intro f hf
      exact (List.pairwise_append.mp hfront).2.2 f hf g List.mem_cons_self
    have hstep : insertField g.1 g.2 front = front ++ [g] := insertField_last hlast
    rw [List.foldl_cons, hstep, ih (front ++ [g]) (by rwa [List.append_assoc]), List.append_assoc]
    rfl

section Contents

variable {read : List Char → Except Malformed (Json × List Char)} {P : Json → Prop}
variable (hread : ∀ {s v rest}, read s = .ok (v, rest) → P v)

include hread

theorem forall_of_readItems {fuel : Nat} {first : Bool} {s rest : List Char} {items : List Json}
    (h : readItems read fuel first s = .ok (items, rest)) : ∀ v ∈ items, P v := by
  induction fuel generalizing first s items with
  | zero => cases h
  | succ fuel ih =>
    rw [readItems] at h
    obtain ⟨onward, _, h⟩ := bind_eq_ok_iff.mp h
    cases onward with
    | closed _ =>
      cases h
      intro v hv
      cases hv
    | item s =>
      obtain ⟨⟨v, _⟩, hv, h⟩ := bind_eq_ok_iff.mp h
      obtain ⟨⟨items, _⟩, hitems, h⟩ := bind_eq_ok_iff.mp h
      cases h
      intro w hw
      rcases List.mem_cons.mp hw with rfl | hw
      · exact hread hv
      · exact ih hitems w hw

theorem forall_of_readFields {fuel : Nat} {first : Bool} {s rest : List Char}
    {fields : List (String × Json)}
    (h : readFields read fuel first s = .ok (fields, rest)) : ∀ f ∈ fields, P f.2 := by
  induction fuel generalizing first s fields with
  | zero => cases h
  | succ fuel ih =>
    rw [readFields] at h
    obtain ⟨onward, _, h⟩ := bind_eq_ok_iff.mp h
    cases onward with
    | closed _ =>
      cases h
      intro f hf
      cases hf
    | item s =>
      obtain ⟨⟨key, _⟩, _, h⟩ := bind_eq_ok_iff.mp h
      obtain ⟨_, _, h⟩ := bind_eq_ok_iff.mp h
      obtain ⟨⟨v, _⟩, hv, h⟩ := bind_eq_ok_iff.mp h
      obtain ⟨⟨fields, _⟩, hfields, h⟩ := bind_eq_ok_iff.mp h
      cases h
      intro f hf
      rcases List.mem_cons.mp hf with rfl | hf
      · exact hread hv
      · exact ih hfields f hf

end Contents

/-- A value that was read has no brackets, or its contents were read one bracket deeper. Only its own
word is read as null. -/
theorem readValue_cases {limit : Nat} {s rest : List Char} {v : Json}
    (h : readValue limit s = .ok (v, rest)) :
    (v.Sorted ∧ v.depth = 0 ∧ (v = null → (skipSpace s).head? = some 'n')) ∨
    (∃ inner fuel s items, limit = inner + 1 ∧ v = array items ∧
      readItems (readValue inner) fuel true s = .ok (items, rest)) ∨
    (∃ inner fuel s fields, limit = inner + 1 ∧ v = ofFields fields ∧
      readFields (readValue inner) fuel true s = .ok (fields, rest)) := by
  rw [readValue] at h
  split at h
  · cases h
  next c after hs =>
  split at h
  · next hc =>
    obtain ⟨_, _, h⟩ := bind_eq_ok_iff.mp h
    cases h
    exact Or.inl ⟨.null, by rw [depth], fun _ => by rw [hs, hc]; rfl⟩
  split at h
  · obtain ⟨_, _, h⟩ := bind_eq_ok_iff.mp h
    cases h
    exact Or.inl ⟨.bool true, by rw [depth], by simp⟩
  split at h
  · obtain ⟨_, _, h⟩ := bind_eq_ok_iff.mp h
    cases h
    exact Or.inl ⟨.bool false, by rw [depth], by simp⟩
  split at h
  · obtain ⟨⟨n, _⟩, _, h⟩ := bind_eq_ok_iff.mp h
    cases h
    exact Or.inl ⟨.number n, by rw [depth], by simp⟩
  split at h
  · obtain ⟨⟨n, _⟩, _, h⟩ := bind_eq_ok_iff.mp h
    cases h
    exact Or.inl ⟨.number n, by rw [depth], by simp⟩
  split at h
  · obtain ⟨⟨text, _⟩, _, h⟩ := bind_eq_ok_iff.mp h
    cases h
    exact Or.inl ⟨.string _, by rw [depth], by simp⟩
  split at h
  · cases limit with
    | zero => cases h
    | succ inner =>
      obtain ⟨⟨items, _⟩, hitems, h⟩ := bind_eq_ok_iff.mp h
      cases h
      exact Or.inr (Or.inl ⟨inner, _, _, items, rfl, rfl, hitems⟩)
  split at h
  · cases limit with
    | zero => cases h
    | succ inner =>
      obtain ⟨⟨fields, _⟩, hfields, h⟩ := bind_eq_ok_iff.mp h
      cases h
      exact Or.inr (Or.inr ⟨inner, _, _, fields, rfl, rfl, hfields⟩)
  · cases h

theorem depthItems_le_iff (items : List Json) (limit : Nat) :
    depthItems items ≤ limit ↔ ∀ v ∈ items, v.depth ≤ limit := by
  induction items with
  | nil => simp [depthItems]
  | cons v items ih => rw [depthItems, Nat.max_le, ih, List.forall_mem_cons]

theorem depthFields_le_iff (fields : List (String × Json)) (limit : Nat) :
    depthFields fields ≤ limit ↔ ∀ f ∈ fields, f.2.depth ≤ limit := by
  induction fields with
  | nil => simp [depthFields]
  | cons f fields ih => rw [depthFields, Nat.max_le, ih, List.forall_mem_cons]

theorem lt_depth_array_iff {items : List Json} {limit : Nat} :
    limit + 1 < (array items).depth ↔ ∃ v ∈ items, limit < v.depth := by
  have hle := depthItems_le_iff items limit
  rw [depth, Nat.add_lt_add_iff_right, ← Nat.not_le, hle]
  simp

theorem lt_depth_object_iff {fields : List (String × Json)} {limit : Nat} :
    limit + 1 < (object fields).depth ↔ ∃ f ∈ fields, limit < f.2.depth := by
  have hle := depthFields_le_iff fields limit
  rw [depth, Nat.add_lt_add_iff_right, ← Nat.not_le, hle]
  simp

/-- A value that was read is sorted and no deeper than was allowed. -/
theorem sorted_of_readValue {limit : Nat} {s rest : List Char} {v : Json}
    (h : readValue limit s = .ok (v, rest)) : v.Sorted ∧ v.depth ≤ limit := by
  induction limit generalizing s v rest with
  | zero =>
    rcases readValue_cases h with
      ⟨hsorted, hdepth, _⟩ | ⟨_, _, _, _, hlimit, _⟩ | ⟨_, _, _, _, hlimit, _⟩
    · exact ⟨hsorted, hdepth ▸ Nat.le_refl 0⟩
    · cases hlimit
    · cases hlimit
  | succ limit ih =>
    rcases readValue_cases h with ⟨hsorted, hdepth, _⟩ | ⟨_, _, _, items, ⟨⟩, rfl, hread⟩ |
      ⟨_, _, _, fields, ⟨⟩, rfl, hread⟩
    · exact ⟨hsorted, hdepth ▸ Nat.zero_le _⟩
    · have hitems := forall_of_readItems (P := fun v => v.Sorted ∧ v.depth ≤ limit) ih hread
      refine ⟨.array fun v hv => (hitems v hv).1, ?_⟩
      rw [depth, Nat.add_le_add_iff_right, depthItems_le_iff]
      exact fun v hv => (hitems v hv).2
    · have hfields := forall_of_readFields (P := fun v => v.Sorted ∧ v.depth ≤ limit) ih hread
      obtain ⟨sorted, heq, hkeys, hmem⟩ := ofFields_eq_object fields
      rw [heq]
      refine ⟨.object hkeys fun f hf => (hfields f (hmem f hf)).1, ?_⟩
      rw [depth, Nat.add_le_add_iff_right, depthFields_le_iff]
      exact fun f hf => (hfields f (hmem f hf)).2

theorem head?_of_readValue_null {limit : Nat} {s rest : List Char}
    (h : readValue limit s = .ok (null, rest)) : (skipSpace s).head? = some 'n' := by
  rcases readValue_cases h with
    ⟨_, _, hhead⟩ | ⟨_, _, _, _, _, hnull, _⟩ | ⟨_, _, _, fields, _, hnull, _⟩
  · exact hhead rfl
  · cases hnull
  · obtain ⟨sorted, heq, _⟩ := ofFields_eq_object fields
    rw [heq] at hnull
    cases hnull

/-- Items that are each kept or refused as too deep are all kept, or the deepest is refused. -/
theorem mapM_keep_or_refuse {α : Type} {f : α → Except Malformed α} (deep : α → Prop)
    [DecidablePred deep] {items : List α}
    (hf : ∀ a ∈ items, f a = if deep a then .error .tooDeep else .ok a) :
    items.mapM f = if ∃ a ∈ items, deep a then .error .tooDeep else .ok items := by
  induction items with
  | nil => rfl
  | cons a items ih =>
    rw [List.mapM_cons, hf a List.mem_cons_self, ih fun b hb => hf b (List.mem_cons_of_mem a hb)]
    by_cases ha : deep a
    · simp [ha, bind, Except.bind]
    · by_cases hrest : ∃ b ∈ items, deep b
      · simp [ha, hrest, bind, Except.bind]
      · simp [ha, hrest, bind, Except.bind, pure, Except.pure]

theorem reread_number {n : Number} (h : FloatFree (.number n)) (limit : Nat) :
    reread limit (.number n) = .ok (.number n) := by
  have hread : readValue 0 (n.text ++ [',']) = .ok (.number n, [',']) := by
    cases h with
    | natural n => exact Number.readValue_natural n 0 (ends_comma [])
    | negative k => exact Number.readValue_negative k 0 (ends_comma [])
  rw [reread, Number.reread, hread]
  rfl

/-- A sorted value of integers is read back as itself, unless it is too deep. -/
theorem reread_eq {v : Json} (hsorted : v.Sorted) (hfree : v.FloatFree) (limit : Nat) :
    v.reread limit = if limit < v.depth then .error .tooDeep else .ok v := by
  induction limit generalizing v with
  | zero =>
    cases hsorted with
    | array _ => simp [reread, depth]
    | object _ _ => simp [reread, depth]
    | number n => rw [reread_number hfree, depth, if_neg (Nat.lt_irrefl 0)]
    | _ => simp [reread, depth]
  | succ limit ih =>
    cases hsorted with
    | @array items hitems =>
      cases hfree with
      | array hfree =>
        have hmap := mapM_keep_or_refuse (fun v => limit < v.depth)
          fun v hv => ih (hitems v hv) (hfree v hv)
        rw [reread, hmap]
        by_cases h : limit + 1 < (array items).depth
        · rw [if_pos h, if_pos (lt_depth_array_iff.mp h)]
          rfl
        · rw [if_neg h, if_neg (fun hdeep => h (lt_depth_array_iff.mpr hdeep))]
          rfl
    | @object fields hkeys hvalues =>
      cases hfree with
      | object hfree =>
        have hfield : ∀ f ∈ fields, onValue (reread limit) f =
            if limit < f.2.depth then .error .tooDeep else .ok f := by
          intro f hf
          rw [onValue, ih (hvalues f hf) (hfree f hf)]
          by_cases h : limit < f.2.depth
          · rw [if_pos h, if_pos h]
            rfl
          · rw [if_neg h, if_neg h]
            rfl
        have hmap := mapM_keep_or_refuse (fun f : String × Json => limit < f.2.depth) hfield
        rw [reread, hmap]
        by_cases h : limit + 1 < (object fields).depth
        · rw [if_pos h, if_pos (lt_depth_object_iff.mp h)]
          rfl
        · rw [if_neg h, if_neg (fun hdeep => h (lt_depth_object_iff.mpr hdeep))]
          exact congrArg Except.ok (ofFields_sorted hkeys)
    | number n => rw [reread_number hfree, depth, if_neg (Nat.not_lt_zero _)]
    | _ => simp [reread, depth]

/-- An item that is refused spoils the whole. -/
theorem mapM_error {α β : Type} {f : α → Except Malformed β} {items : List α} {a : α}
    (hmem : a ∈ items) (h : ∃ fault, f a = .error fault) :
    ∃ fault, items.mapM f = .error fault := by
  induction items with
  | nil => exact absurd hmem List.not_mem_nil
  | cons b items ih =>
    rw [List.mapM_cons]
    cases hb : f b with
    | error fault => exact ⟨fault, rfl⟩
    | ok made =>
      have hrest : a ∈ items := by
        rcases List.mem_cons.mp hmem with rfl | hrest
        · obtain ⟨fault, hfault⟩ := h
          rw [hb] at hfault
          cases hfault
        · exact hrest
      obtain ⟨fault, hfault⟩ := ih hrest
      exact ⟨fault, by rw [hfault]; rfl⟩

/-- A value that opens too many brackets is refused, whatever its numbers. -/
theorem reread_deep {v : Json} {limit : Nat} (h : limit < v.depth) :
    ∃ fault, v.reread limit = .error fault := by
  induction limit generalizing v with
  | zero =>
    cases v with
    | array items => exact ⟨_, by rw [reread]⟩
    | object fields => exact ⟨_, by rw [reread]⟩
    | _ => simp [depth] at h
  | succ limit ih =>
    cases v with
    | array items =>
      obtain ⟨v, hmem, hdeep⟩ := lt_depth_array_iff.mp h
      obtain ⟨fault, hfault⟩ := mapM_error hmem (ih hdeep)
      exact ⟨fault, by rw [reread, hfault]; rfl⟩
    | object fields =>
      obtain ⟨f, hmem, hdeep⟩ := lt_depth_object_iff.mp h
      obtain ⟨fault, hfault⟩ := ih hdeep
      have hfield : onValue (reread limit) f = .error fault := by rw [onValue, hfault]; rfl
      obtain ⟨fault, hfault⟩ := mapM_error hmem ⟨fault, hfield⟩
      exact ⟨fault, by rw [reread, hfault]; rfl⟩
    | _ => simp [depth] at h

end StackJournal.Json
