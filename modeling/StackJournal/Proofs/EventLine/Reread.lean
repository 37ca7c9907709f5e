import StackJournal.EventLine.Writer
import StackJournal.Proofs.Json.OneLine
import StackJournal.Proofs.Json.Reread
import StackJournal.Proofs.Outcome
import StackJournal.Proofs.Timestamp
import StackJournal.Proofs.Uuid

/-! # Written events read back

What reading makes of the line of an event, for every event whose numbers fit 64 bits: the event,
with its payload as reading makes it. A payload of null is read as none.
-/
namespace StackJournal

open EventLine Json Text

def Json.rereadPayload (payload : Json) : Except EventLine.Error (Option Json) :=
  match payload with
  | .null => .ok none
  | value => plain ((value.reread (depthLimit - 1)).map some)

def Event.reread (event : Event) : Except EventLine.Error Event :=
  match event.payload with
  | none => .ok event
  | some payload => payload.rereadPayload.map fun read => { event with payload := read }

namespace EventLine

theorem readNat_decimal {n : Nat} (hn : n < UInt64.size) {rest : List Char}
    (hrest : Number.Stops rest) : readNat (decimal n ++ rest) = .ok (n, rest) := by
  obtain ⟨c, more, hd, _⟩ := decimal_eq_cons n
  have hc : c.isDigit = true := isDigit_of_mem_decimal (by rw [hd]; exact List.mem_cons_self)
  have hminus : c ≠ '-' := by
    rintro rfl
    cases hc
  have hread := Number.read_decimal hn hrest false
  rw [hd, List.cons_append] at hread ⊢
  rw [readNat, skipSpace_cons (isSpace_of_isDigit hc)]
  simp only [hc, hminus, false_or, if_true, if_false, hread, plain]
  simp [bind, Except.bind, Number.ofMagnitude, UInt64.toNat_ofNat_of_lt' hn]

theorem readText_quote (wanted : String) (s rest : List Char) :
    readText wanted (quote s ++ rest) = .ok (s, rest) := by
  rw [quote_append, readText, skipSpace_cons rfl]
  simp only [if_true, readString_quote]
  rfl

theorem readUuid_quote (id : Uuid) (rest : List Char) :
    readUuid (quote id.text ++ rest) = .ok (id, rest) := by
  rw [readUuid, readText_quote]
  simp only [bind, Except.bind, Uuid.ofText_text]
  rfl

theorem readTimestamp_quote (t : Timestamp) (rest : List Char) :
    readTimestamp (quote t.text ++ rest) = .ok (t, rest) := by
  rw [readTimestamp, readText_quote]
  simp only [bind, Except.bind, Timestamp.ofText_text]
  rfl

theorem readKind_quote (kind : EventKind) (rest : List Char) :
    readKind (quote kind.name.toList ++ rest) = .ok (kind, rest) := by
  rw [quote_append, readKind, readName, skipSpace_cons rfl]
  simp only [if_true, readString_quote, plain, mapError_ok, bind, Except.bind]
  simp only [lookUp, String.ofList_toList, EventKind.ofName?_name]

theorem readPayload_text (payload : Json) {rest : List Char} (hrest : Ends rest) :
    readPayload (payload.text ++ rest) = payload.rereadPayload.map fun read => (read, rest) := by
  by_cases hnull : payload = .null
  · subst hnull
    rw [text, readPayload, List.cons_append, skipSpace_cons rfl]
    rfl
  obtain ⟨c, more, htext, hspace, _, hc⟩ := payload.text_eq_cons
  have hfirst : (some c = some 'n') = False := by
    rw [Option.some.injEq]
    exact eq_false (hc hnull)
  have hread := readValue_text payload (depthLimit - 1) hrest
  rw [htext, List.cons_append] at hread ⊢
  rw [readPayload, skipSpace_cons hspace]
  simp only [List.head?_cons, hfirst, if_false, hread]
  have hreread : payload.rereadPayload = plain ((payload.reread (depthLimit - 1)).map some) := by
    unfold rereadPayload
    split
    · exact absurd rfl hnull
    · rfl
  rw [hreread]
  cases payload.reread (depthLimit - 1) <;> rfl

theorem Field.ofKey?_key (field : Field) : Field.ofKey? field.key = some field := by
  cases field <;> decide

theorem member_append (key : String) (value rest : List Char) : member key value ++ rest =
    '"' :: (key.toList.flatMap escapeChar ++ '"' :: ':' :: (value ++ rest)) := by
  rw [member, List.append_assoc, quote_append, List.cons_append]

section Members

variable {fuel : Nat} {draft : Draft} (field : Field) (value rest : List Char)

/-- One step of reading the fields of an object. -/
theorem readMembers_item {first : Bool} {s : List Char} (hnew : draft.has field = false)
    (hnext : nextField first s =
      .ok (.item (field.key.toList.flatMap escapeChar ++ '"' :: ':' :: (value ++ rest)))) :
    readMembers (fuel + 1) first draft s = (draft.readField field (value ++ rest)).bind fun p =>
      readMembers fuel false p.1 p.2 := by
  rw [readMembers, hnext]
  simp only [plain, mapError_ok, bind, Except.bind]
  rw [readString_quote]
  simp only [mapError_ok, String.ofList_toList, Field.ofKey?_key, hnew, readColon,
    skipSpace_cons (c := ':') rfl, if_true]
  rfl

theorem readMembers_first (hnew : draft.has field = false) :
    readMembers (fuel + 1) true draft (member field.key value ++ rest) =
      (draft.readField field (value ++ rest)).bind fun p => readMembers fuel false p.1 p.2 := by
  refine readMembers_item field value rest hnew ?_
  rw [member_append, nextField, skipSpace_cons rfl]
  rfl

theorem readMembers_next (hnew : draft.has field = false) :
    readMembers (fuel + 1) false draft (',' :: (member field.key value ++ rest)) =
      (draft.readField field (value ++ rest)).bind fun p => readMembers fuel false p.1 p.2 := by
  refine readMembers_item field value rest hnew ?_
  rw [member_append, nextField, skipSpace_cons rfl]
  rfl

end Members

theorem readMembers_brace (fuel : Nat) (draft : Draft) (rest : List Char) :
    readMembers (fuel + 1) false draft ('}' :: rest) = .ok (draft, rest) := by
  rw [readMembers, nextField, skipSpace_cons rfl]
  rfl

/-- The fields before the payload. -/
theorem readMembers_front (fuel : Nat) (stack : Uuid) {sequence : Nat}
    (hsequence : sequence < UInt64.size) (kind : EventKind) (rest : List Char) :
    readMembers (fuel + 3) true Draft.empty (member Field.stack.key (quote stack.text) ++
      ',' :: (member Field.sequence.key (decimal sequence) ++
      ',' :: (member Field.kind.key (quote kind.name.toList) ++ ',' :: rest))) =
    readMembers fuel false ⟨some stack, some sequence, some kind, none, none, none⟩
      (',' :: rest) := by
  rw [readMembers_first .stack _ _ rfl]
  simp only [Draft.readField, readUuid_quote, bind, Except.bind]
  rw [readMembers_next .sequence _ _ rfl]
  simp only [Draft.readField, readNat_decimal hsequence (ends_comma _).2, bind, Except.bind]
  rw [readMembers_next .kind _ _ rfl]
  simp only [Draft.readField, readKind_quote, bind, Except.bind]
  rfl

/-- The fields after the payload. -/
theorem readMembers_back (fuel : Nat) (draft : Draft) (hp : draft.has .position = false)
    (hr : draft.has .recordedAt = false) {position : Nat} (hposition : position < UInt64.size)
    (recordedAt : Timestamp) (rest : List Char) :
    readMembers (fuel + 3) false draft (',' :: (member Field.position.key (decimal position) ++
      ',' :: (member Field.recordedAt.key (quote recordedAt.text) ++ '}' :: rest))) =
    .ok ({ draft with position := some position, recordedAt := some recordedAt }, rest) := by
  have hr : Draft.has { draft with position := some position } .recordedAt = false := hr
  rw [readMembers_next .position _ _ hp]
  simp only [Draft.readField, readNat_decimal hposition (ends_comma _).2, bind, Except.bind]
  rw [readMembers_next .recordedAt _ _ hr]
  simp only [Draft.readField, readTimestamp_quote, bind, Except.bind]
  rw [readMembers_brace]

theorem readEvent_brace (s : List Char) :
    readEvent ('{' :: s) = (readMembers (s.length + 1) true Draft.empty s).bind fun p =>
      p.1.complete.map fun event => (event, p.2) := by
  rw [readEvent, skipSpace_cons rfl]
  simp only [if_true, bind, Except.bind]
  cases readMembers (s.length + 1) true Draft.empty s with
  | error _ => rfl
  | ok p =>
    simp only
    cases p.1.complete <;> rfl

end EventLine

/-- A written event is read to its end. -/
theorem Event.readEvent_lineText {event : Event} (hsequence : event.sequence < UInt64.size)
    (hposition : event.position < UInt64.size) (rest : List Char) :
    readEvent (event.lineText ++ rest) = event.reread.map fun read => (read, rest) := by
  obtain ⟨stack, sequence, kind, payload, position, recordedAt⟩ := event
  simp only at hsequence hposition
  have hfront := fun k t => readMembers_front k stack hsequence kind t
  have hback := fun k draft hp hr => readMembers_back k draft hp hr hposition recordedAt rest
  cases payload with
  | none =>
    simp only [lineText, List.cons_append, List.append_assoc, List.nil_append]
    rw [readEvent_brace]
    generalize hs : member Field.stack.key (quote stack.text) ++ _ = s
    obtain ⟨k, hk⟩ : ∃ k, s.length + 1 = k + 3 + 3 := by
      refine ⟨s.length - 5, ?_⟩
      subst hs
      simp only [List.length_append, List.length_cons]
      omega
    rw [hk, ← hs, hfront, hback k _ rfl rfl]
    rfl
  | some payload =>
    simp only [lineText, List.cons_append, List.append_assoc, List.nil_append]
    rw [readEvent_brace]
    generalize hs : member Field.stack.key (quote stack.text) ++ _ = s
    obtain ⟨k, hk⟩ : ∃ k, s.length + 1 = k + 3 + 1 + 3 := by
      refine ⟨s.length - 6, ?_⟩
      subst hs
      simp only [List.length_append, List.length_cons]
      omega
    rw [hk, ← hs, hfront, readMembers_next .payload _ _ rfl]
    simp only [Draft.readField, readPayload_text _ (ends_comma _), Event.reread]
    cases payload.rereadPayload with
    | error _ => rfl
    | ok read =>
      simp only [Except.map, bind, Except.bind]
      rw [hback k _ rfl rfl]
      rfl

/-- The line of an event is read as what reading makes of the event. -/
theorem Event.ofLine_line {event : Event} (hsequence : event.sequence < UInt64.size)
    (hposition : event.position < UInt64.size) : Event.ofLine event.line = event.reread := by
  have hread := event.readEvent_lineText hsequence hposition []
  rw [List.append_nil] at hread
  rw [ofLine, line, String.toList_ofList, hread]
  cases event.reread <;> rfl

/-- Reading changes nothing but the payload. -/
theorem Event.reread_eq_ok {event read : Event} (h : event.reread = .ok read) :
    read.position = event.position ∧ read.sequence = event.sequence ∧
      read.stack = event.stack := by
  unfold reread at h
  split at h
  · cases h
    exact ⟨rfl, rfl, rfl⟩
  · obtain ⟨_, _, rfl⟩ := map_eq_ok_iff.mp h
    exact ⟨rfl, rfl, rfl⟩

theorem Event.exists_reread {event : Event} (h : ∀ payload, event.payload = some payload →
    ∃ read, payload.rereadPayload = .ok read) : ∃ read, event.reread = .ok read := by
  unfold reread
  cases hpayload : event.payload with
  | none => exact ⟨event, rfl⟩
  | some payload =>
    obtain ⟨read, hread⟩ := h payload hpayload
    exact ⟨_, map_eq_ok_iff.mpr ⟨read, hread, rfl⟩⟩

theorem EventLine.unbroken_member (key : String) {value : List Char} (hvalue : Unbroken value) :
    Unbroken (member key value) := (unbroken_quote _).append (.cons (by decide) hvalue)

/-- The line of an event has no line end in it. -/
theorem Event.unbroken_lineText (event : Event) : Unbroken event.lineText := by
  have hcomma : ∀ (key : String) {value : List Char}, Unbroken value →
      Unbroken (',' :: member key value) :=
    fun key _ hvalue => .cons (by decide) (unbroken_member key hvalue)
  have hstack : Unbroken ('{' :: member Field.stack.key (quote event.stack.text)) :=
    .cons (by decide) (unbroken_member _ (unbroken_quote _))
  have hbrace : Unbroken ['}'] := .cons (by decide) unbroken_nil
  have hline : ∀ {payload : List Char}, Unbroken payload →
      Unbroken ('{' :: member Field.stack.key (quote event.stack.text) ++
        ',' :: member Field.sequence.key (decimal event.sequence) ++
        ',' :: member Field.kind.key (quote event.kind.name.toList) ++ payload ++
        ',' :: member Field.position.key (decimal event.position) ++
        ',' :: member Field.recordedAt.key (quote event.recordedAt.text) ++ ['}']) :=
    fun hpayload => ((((((hstack.append (hcomma _ (unbroken_decimal _))).append
      (hcomma _ (unbroken_quote _))).append hpayload).append
      (hcomma _ (unbroken_decimal _))).append (hcomma _ (unbroken_quote _))).append hbrace)
  unfold lineText
  cases event.payload with
  | none => exact hline unbroken_nil
  | some value => exact hline (hcomma _ value.unbroken_text)

end StackJournal
