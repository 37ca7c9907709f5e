import StackJournal.Json.Writer
import StackJournal.Proofs.Json.FloatText
import StackJournal.Proofs.Json.Quoted

/-! # Written values read back

What reading makes of the written form of a value, for every value: a value nested too deeply is
refused, a number is whatever its own text says, and all else is read as it is. Reading ends where
the value ends.
-/
namespace StackJournal.Json

open Text

def Number.reread (n : Number) : Except Malformed Json :=
  (readValue 0 (n.text ++ [','])).map Prod.fst

mutual

def depth : Json → Nat
  | .null => 0
  | .bool _ => 0
  | .number _ => 0
  | .string _ => 0
  | .array items => depthItems items + 1
  | .object fields => depthFields fields + 1

def depthItems : List Json → Nat
  | [] => 0
  | v :: rest => max v.depth (depthItems rest)

def depthFields : List (String × Json) → Nat
  | [] => 0
  | (_, v) :: rest => max v.depth (depthFields rest)

end

def onValue (f : Json → Except Malformed Json) (field : String × Json) :
    Except Malformed (String × Json) :=
  (f field.2).map fun v => (field.1, v)

/-- What reading makes of a written value that may open `depth` brackets within one another. -/
def reread : (depth : Nat) → Json → Except Malformed Json
  | _, .null => .ok .null
  | _, .bool b => .ok (.bool b)
  | _, .number n => n.reread
  | _, .string s => .ok (.string s)
  | 0, .array _ => .error .tooDeep
  | 0, .object _ => .error .tooDeep
  | depth + 1, .array items => do .ok (.array (← items.mapM (reread depth)))
  | depth + 1, .object fields => do
    .ok (ofFields (← fields.mapM (onValue (reread depth))))

theorem ends_cons {c : Char} (rest : List Char) (hdigit : c.isDigit = false) (hpoint : c ≠ '.')
    (hmark : Number.isExponentMark c = false) : Ends (c :: rest) := by
  refine ⟨List.cons_ne_nil c rest, ?_⟩
  rintro d ⟨⟩
  exact ⟨hdigit, hpoint, hmark⟩

theorem ends_comma (rest : List Char) : Ends (',' :: rest) := ends_cons rest rfl (by decide) rfl

theorem ends_bracket (rest : List Char) : Ends (']' :: rest) := ends_cons rest rfl (by decide) rfl

theorem ends_brace (rest : List Char) : Ends ('}' :: rest) := ends_cons rest rfl (by decide) rfl

theorem skipSpace_cons {c : Char} (hc : isSpace c = false) (rest : List Char) :
    skipSpace (c :: rest) = c :: rest := by
  simp [skipSpace, hc]

theorem isSpace_of_isDigit {c : Char} (hc : c.isDigit = true) : isSpace c = false := by
  rw [Bool.eq_false_iff]
  intro h
  simp only [isSpace, Bool.or_eq_true, beq_iff_eq] at h
  rcases h with ((rfl | rfl) | rfl) | rfl <;> exact absurd hc (by decide)

theorem readValue_digit (depth : Nat) {c : Char} (hc : c.isDigit = true) (s : List Char) :
    readValue depth (c :: s) =
      (Number.read false (c :: s)).map fun p => (Json.number p.1, p.2) := by
  have hne : ∀ d : Char, d.isDigit = false → c ≠ d := by
    rintro d hd rfl
    rw [hd] at hc
    cases hc
  unfold readValue
  rw [skipSpace_cons (isSpace_of_isDigit hc)]
  simp only [hne 'n' rfl, hne 't' rfl, hne 'f' rfl, hne '-' rfl, hc, if_false, if_true]
  cases Number.read false (c :: s) <;> rfl

theorem readValue_minus (depth : Nat) (s : List Char) :
    readValue depth ('-' :: s) =
      (Number.read true s).map fun p => (Json.number p.1, p.2) := by
  unfold readValue
  rw [skipSpace_cons rfl]
  simp only [Char.reduceEq, if_false, if_true]
  cases Number.read true s <;> rfl

theorem readValue_unknown (depth : Nat) {c : Char} (hc : c = 'e' ∨ c = '.') (s : List Char) :
    readValue depth (c :: s) = .error .expectedValue := by
  unfold readValue
  rcases hc with rfl | rfl <;> rw [skipSpace_cons rfl] <;> rfl

theorem Number.text_float_eq_cons (x : Binary64) : ∃ c rest, x.text = c :: rest ∧
    (c.isDigit = true ∨ c = '-' ∨ c = 'e' ∨ c = '.') := by
  obtain ⟨whole, more, hwhole, hmore, hne, htext⟩ := x.text_eq
  rw [htext]
  by_cases hneg : x.negative
  · exact ⟨'-', whole ++ more, by simp [hneg], by simp⟩
  rw [if_neg hneg, List.nil_append]
  cases whole with
  | cons d whole => exact ⟨d, whole ++ more, rfl, Or.inl (hwhole d List.mem_cons_self)⟩
  | nil =>
    rcases hmore with (rfl | ⟨sign, digits, rfl, _, _⟩) | ⟨digits, scale, rfl, _, _⟩
    · exact absurd rfl hne
    · exact ⟨'e', sign :: digits, rfl, by simp⟩
    · exact ⟨'.', digits ++ scale, rfl, by simp⟩

theorem Number.readValue_natural (n : UInt64) (depth : Nat) {rest : List Char}
    (hrest : Ends rest) :
    readValue depth ((natural n).text ++ rest) = .ok (.number (natural n), rest) := by
  obtain ⟨c, more, hd, _⟩ := decimal_eq_cons n.toNat
  have hc : c.isDigit = true := isDigit_of_mem_decimal (by rw [hd]; exact List.mem_cons_self)
  have hread := read_natural n hrest.2
  rw [Number.text, hd, List.cons_append] at hread ⊢
  rw [readValue_digit depth hc, hread]
  rfl

theorem Number.readValue_negative (k : BitVec 63) (depth : Nat) {rest : List Char}
    (hrest : Ends rest) :
    readValue depth ((negative k).text ++ rest) = .ok (.number (negative k), rest) := by
  rw [Number.text, List.cons_append, readValue_minus, read_negative k hrest.2]
  rfl

/-- A written number is read to its end, at every depth to the same value. -/
theorem Number.exists_readValue (n : Number) : ∃ result : Except Malformed Json, ∀ depth rest,
    Ends rest → readValue depth (n.text ++ rest) = result.map fun v => (v, rest) := by
  cases n with
  | natural n =>
    exact ⟨.ok (.number (natural n)), fun depth rest hrest => readValue_natural n depth hrest⟩
  | negative k =>
    exact ⟨.ok (.number (negative k)), fun depth rest hrest => readValue_negative k depth hrest⟩
  | float x =>
    obtain ⟨whole, more, hwhole, hmore, hne, htext⟩ := x.text_eq
    have hnumber : ∀ negative, ∃ result : Except Malformed Json, ∀ rest, Ends rest →
        (Number.read negative (whole ++ (more ++ rest))).map (fun p => (Json.number p.1, p.2)) =
          result.map fun v => (v, rest) := by
      intro negative
      obtain ⟨result, hresult⟩ := settles_read negative hwhole hmore
      refine ⟨result.map Json.number, fun rest hrest => ?_⟩
      have heq := hresult rest hrest
      simp only at heq
      rw [heq]
      cases result <;> rfl
    rw [Number.text, htext]
    by_cases hneg : x.negative
    · obtain ⟨result, hresult⟩ := hnumber true
      refine ⟨result, fun depth rest hrest => ?_⟩
      rw [if_pos hneg, List.singleton_append, List.cons_append, List.append_assoc, readValue_minus]
      exact hresult rest hrest
    · rw [if_neg hneg, List.nil_append]
      cases whole with
      | cons d whole =>
        obtain ⟨result, hresult⟩ := hnumber false
        refine ⟨result, fun depth rest hrest => ?_⟩
        rw [List.append_assoc, List.cons_append, readValue_digit depth (hwhole d List.mem_cons_self)]
        exact hresult rest hrest
      | nil =>
        refine ⟨.error .expectedValue, fun depth rest _ => ?_⟩
        rcases hmore with (rfl | ⟨sign, digits, rfl, _, _⟩) | ⟨digits, scale, rfl, _, _⟩
        · exact absurd rfl hne
        · exact readValue_unknown depth (by simp) _
        · exact readValue_unknown depth (by simp) _

theorem Number.readValue_text (n : Number) (depth : Nat) {rest : List Char} (hrest : Ends rest) :
    readValue depth (n.text ++ rest) = n.reread.map fun v => (v, rest) := by
  obtain ⟨result, hresult⟩ := n.exists_readValue
  have hself : n.reread = result := by
    rw [Number.reread, hresult 0 [','] (ends_comma [])]
    cases result <;> rfl
  rw [hself]
  exact hresult depth rest hrest

/-- A written value begins with a character that is neither blank nor a closing bracket, and only
null begins with its letter. -/
theorem text_eq_cons (v : Json) : ∃ c rest, v.text = c :: rest ∧ isSpace c = false ∧ c ≠ ']' ∧
    (v ≠ .null → c ≠ 'n') := by
  have hdigit : ∀ c : Char, c.isDigit = true →
      isSpace c = false ∧ c ≠ ']' ∧ (v ≠ .null → c ≠ 'n') := by
    intro c hc
    refine ⟨isSpace_of_isDigit hc, ?_, fun _ => ?_⟩ <;> rintro rfl <;> exact absurd hc (by decide)
  match v with
  | .null => exact ⟨_, _, by rw [text], rfl, by decide, fun h => absurd rfl h⟩
  | .bool true => exact ⟨_, _, by rw [text], rfl, by decide, fun _ => by decide⟩
  | .bool false => exact ⟨_, _, by rw [text], rfl, by decide, fun _ => by decide⟩
  | .string s => exact ⟨_, _, by rw [text]; rfl, rfl, by decide, fun _ => by decide⟩
  | .array [] => exact ⟨_, _, by rw [text], rfl, by decide, fun _ => by decide⟩
  | .array (_ :: _) => exact ⟨_, _, by rw [text]; rfl, rfl, by decide, fun _ => by decide⟩
  | .object [] => exact ⟨_, _, by rw [text], rfl, by decide, fun _ => by decide⟩
  | .object ((_, _) :: _) => exact ⟨_, _, by rw [text]; rfl, rfl, by decide, fun _ => by decide⟩
  | .number (.natural n) =>
    obtain ⟨c, more, hd, _⟩ := decimal_eq_cons n.toNat
    have hc : c.isDigit = true := isDigit_of_mem_decimal (by rw [hd]; exact List.mem_cons_self)
    exact ⟨c, more, by rw [text, Number.text, hd], hdigit c hc⟩
  | .number (.negative k) =>
    exact ⟨_, _, by rw [text, Number.text], rfl, by decide, fun _ => by decide⟩
  | .number (.float x) =>
    obtain ⟨c, rest, htext, hc⟩ := Number.text_float_eq_cons x
    refine ⟨c, rest, by rw [text, Number.text, htext], ?_⟩
    rcases hc with hc | rfl | rfl | rfl
    · exact hdigit c hc
    · exact ⟨rfl, by decide, fun _ => by decide⟩
    · exact ⟨rfl, by decide, fun _ => by decide⟩
    · exact ⟨rfl, by decide, fun _ => by decide⟩

theorem nextItem_text (v : Json) (s : List Char) :
    nextItem true (v.text ++ s) = .ok (.item (v.text ++ s)) := by
  obtain ⟨c, rest, htext, hspace, hclose, _⟩ := v.text_eq_cons
  rw [htext, List.cons_append, nextItem, skipSpace_cons hspace]
  simp [hclose]

theorem nextItem_comma (v : Json) (s : List Char) :
    nextItem false (',' :: (v.text ++ s)) = .ok (.item (v.text ++ s)) := by
  obtain ⟨c, rest, htext, hspace, hclose, _⟩ := v.text_eq_cons
  rw [htext, List.cons_append, nextItem, skipSpace_cons rfl]
  simp [skipSpace_cons hspace, hclose]

theorem ends_itemsTail (items : List Json) (rest : List Char) : Ends (itemsTail items ++ rest) := by
  cases items with
  | nil => exact ends_bracket rest
  | cons v items => exact ends_comma _

theorem ends_fieldsTail (fields : List (String × Json)) (rest : List Char) :
    Ends (fieldsTail fields ++ rest) := by
  cases fields with
  | nil => exact ends_brace rest
  | cons field fields => exact ends_comma _

theorem length_lt_itemsTail (items : List Json) : items.length < (itemsTail items).length := by
  induction items with
  | nil => exact Nat.zero_lt_one
  | cons v items ih =>
    simp only [itemsTail, List.length_cons, List.length_append]
    omega

theorem length_lt_fieldsTail (fields : List (String × Json)) :
    fields.length < (fieldsTail fields).length := by
  induction fields with
  | nil => exact Nat.zero_lt_one
  | cons field fields ih =>
    simp only [fieldsTail, List.length_cons, List.length_append]
    omega

section Contents

variable {read : List Char → Except Malformed (Json × List Char)} {made : Json → Except Malformed Json}
variable (hread : ∀ v rest, Ends rest → read (v.text ++ rest) = (made v).map fun w => (w, rest))

include hread

theorem readItems_item {first : Bool} {s rest : List Char} {v : Json} {items : List Json}
    {fuel : Nat} (hnext : nextItem first s = .ok (.item (v.text ++ (itemsTail items ++ rest))))
    (htail : readItems read fuel false (itemsTail items ++ rest) =
      (items.mapM made).map fun made => (made, rest)) :
    readItems read (fuel + 1) first s =
      ((v :: items).mapM made).map fun made => (made, rest) := by
  rw [readItems, hnext, List.mapM_cons]
  simp only [bind, Except.bind]
  rw [hread v _ (ends_itemsTail items rest)]
  cases made v with
  | error fault => rfl
  | ok w =>
    simp only [Except.map, htail]
    cases items.mapM made <;> rfl

theorem readItems_itemsTail (items : List Json) (fuel : Nat) (hfuel : items.length < fuel)
    (rest : List Char) :
    readItems read fuel false (itemsTail items ++ rest) =
      (items.mapM made).map fun made => (made, rest) := by
  induction items generalizing fuel with
  | nil =>
    cases fuel with
    | zero => exact absurd hfuel (Nat.not_lt_zero 0)
    | succ fuel => rfl
  | cons v items ih =>
    cases fuel with
    | zero => exact absurd hfuel (Nat.not_lt_zero _)
    | succ fuel =>
      refine readItems_item hread ?_ (ih fuel (Nat.lt_of_succ_lt_succ hfuel))
      rw [itemsTail, List.cons_append, List.cons_append, List.append_assoc]
      exact nextItem_comma v _

theorem readFields_field {first : Bool} {s rest : List Char} {key : String} {v : Json}
    {fields : List (String × Json)} {fuel : Nat}
    (hnext : nextField first s = .ok (.item (key.toList.flatMap escapeChar ++
      '"' :: ':' :: (v.text ++ (fieldsTail fields ++ rest)))))
    (htail : readFields read fuel false (fieldsTail fields ++ rest) =
      (fields.mapM (onValue made)).map fun made => (made, rest)) :
    readFields read (fuel + 1) first s =
      (((key, v) :: fields).mapM (onValue made)).map fun made => (made, rest) := by
  rw [readFields, hnext, List.mapM_cons]
  simp only [bind, Except.bind]
  rw [readString_quote]
  simp only [readColon, skipSpace_cons (c := ':') rfl, if_true, String.ofList_toList]
  rw [hread v _ (ends_fieldsTail fields rest), onValue]
  cases made v with
  | error fault => rfl
  | ok w =>
    simp only [Except.map, htail]
    cases fields.mapM (onValue made) <;> rfl

theorem readFields_fieldsTail (fields : List (String × Json)) (fuel : Nat)
    (hfuel : fields.length < fuel) (rest : List Char) :
    readFields read fuel false (fieldsTail fields ++ rest) =
      (fields.mapM (onValue made)).map fun made => (made, rest) := by
  induction fields generalizing fuel with
  | nil =>
    cases fuel with
    | zero => exact absurd hfuel (Nat.not_lt_zero 0)
    | succ fuel => rfl
  | cons field fields ih =>
    cases fuel with
    | zero => exact absurd hfuel (Nat.not_lt_zero _)
    | succ fuel =>
      refine readFields_field hread ?_ (ih fuel (Nat.lt_of_succ_lt_succ hfuel))
      simp [fieldsTail, nextField, skipSpace, isSpace, quote]

end Contents

theorem readValue_array (depth : Nat) (s : List Char) :
    readValue (depth + 1) ('[' :: s) = (readItems (readValue depth) (s.length + 1) true s).map
      fun p => (array p.1, p.2) := by
  rw [readValue, skipSpace_cons rfl]
  simp only [Char.reduceEq, if_false, if_true]
  cases readItems (readValue depth) (s.length + 1) true s <;> rfl

theorem readValue_object (depth : Nat) (s : List Char) :
    readValue (depth + 1) ('{' :: s) = (readFields (readValue depth) (s.length + 1) true s).map
      fun p => (ofFields p.1, p.2) := by
  rw [readValue, skipSpace_cons rfl]
  simp only [Char.reduceEq, if_false, if_true]
  cases readFields (readValue depth) (s.length + 1) true s <;> rfl

theorem readValue_bracket {c : Char} (hc : c = '[' ∨ c = '{') (s : List Char) :
    readValue 0 (c :: s) = .error .tooDeep := by
  rcases hc with rfl | rfl <;> rw [readValue, skipSpace_cons rfl] <;> rfl

theorem readValue_leaf {v : Json} (hleaf : v.depth = 0) (limit : Nat) {rest : List Char}
    (hrest : Ends rest) :
    readValue limit (v.text ++ rest) = (v.reread limit).map fun w => (w, rest) := by
  match v with
  | .null =>
    rw [text, reread, List.cons_append, readValue, skipSpace_cons rfl]
    rfl
  | .bool true =>
    rw [text, reread, List.cons_append, readValue, skipSpace_cons rfl]
    rfl
  | .bool false =>
    rw [text, reread, List.cons_append, readValue, skipSpace_cons rfl]
    rfl
  | .number n =>
    rw [text, reread]
    exact n.readValue_text limit hrest
  | .string s =>
    rw [text, reread, quote_append, readValue, skipSpace_cons rfl]
    simp only [Char.reduceEq, if_false, if_true, readString_quote]
    exact congrArg (fun s => Except.ok (Json.string s, rest)) String.ofList_toList
  | .array items => simp [depth] at hleaf
  | .object fields => simp [depth] at hleaf

/-- What is read of a written value, and where reading stops. -/
theorem readValue_text (v : Json) (limit : Nat) {rest : List Char} (hrest : Ends rest) :
    readValue limit (v.text ++ rest) = (v.reread limit).map fun w => (w, rest) := by
  induction limit generalizing v rest with
  | zero =>
    match v with
    | .array [] => exact readValue_bracket (Or.inl rfl) _
    | .array (_ :: _) => exact readValue_bracket (Or.inl rfl) _
    | .object [] => exact readValue_bracket (Or.inr rfl) _
    | .object ((_, _) :: _) => exact readValue_bracket (Or.inr rfl) _
    | .null | .bool _ | .number _ | .string _ => exact readValue_leaf (by rw [depth]) 0 hrest
  | succ limit ih =>
    match v with
    | .array [] =>
      rw [text, List.cons_append, readValue_array]
      rfl
    | .array (v :: items) =>
      have hlong := length_lt_itemsTail items
      have htail := readItems_itemsTail (fun v rest hrest => ih v hrest) items
        (v.text ++ (itemsTail items ++ rest)).length
        (by simp only [List.length_append]; omega) rest
      rw [text, List.cons_append, List.cons_append, List.append_assoc, readValue_array,
        readItems_item (fun v rest hrest => ih v hrest) (nextItem_text v _) htail, reread]
      cases (v :: items).mapM (reread limit) <;> rfl
    | .object [] =>
      rw [text, List.cons_append, readValue_object]
      rfl
    | .object ((key, v) :: fields) =>
      have hlong := length_lt_fieldsTail fields
      have htext : (object ((key, v) :: fields)).text ++ rest = '{' :: '"' ::
          (key.toList.flatMap escapeChar ++
            '"' :: ':' :: (v.text ++ (fieldsTail fields ++ rest))) := by
        simp [text, quote]
      have htail := readFields_fieldsTail (fun v rest hrest => ih v hrest) fields
        ('"' :: (key.toList.flatMap escapeChar ++
            '"' :: ':' :: (v.text ++ (fieldsTail fields ++ rest)))).length
        (by simp only [List.length_append, List.length_cons]; omega) rest
      rw [htext, readValue_object, readFields_field (fun v rest hrest => ih v hrest)
        (by rw [nextField, skipSpace_cons rfl]; rfl) htail, reread]
      cases ((key, v) :: fields).mapM (onValue (reread limit)) <;> rfl
    | .null | .bool _ | .number _ | .string _ => exact readValue_leaf (by rw [depth]) _ hrest

end StackJournal.Json
