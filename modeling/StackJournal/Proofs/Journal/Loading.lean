import StackJournal.Journal
import StackJournal.Proofs.EventLine.Joined
import StackJournal.Proofs.Log.Index
import StackJournal.Proofs.Text.Encoding
import StackJournal.Proofs.Text.Lines

/-! # Loading a file that grew

Bytes written at the end of a file continue its last line if that line is not ended. The lines
before are loaded as before; what becomes of the last line depends on what it was begun with.
-/
namespace StackJournal.Journal

open Text Json

theorem accept_eq_ok_iff {log log' : Log} {number : Nat} {event : Event} :
    accept log number event = .ok log' ↔ event.position = log.lastPosition + 1 ∧
      event.sequence = log.version event.stack + 1 ∧ log' = log.insert event := by
  unfold accept
  constructor
  · intro h
    simp only at h
    split at h
    · cases h
    next hposition =>
    split at h
    · cases h
    next hsequence =>
    cases h
    exact ⟨Decidable.of_not_not hposition, Decidable.of_not_not hsequence, rfl⟩
  · rintro ⟨hposition, hsequence, rfl⟩
    simp [hposition, hsequence]

theorem loadLine_encode (log : Log) (number : Nat) (s : List Char) :
    loadLine log number (encode s) = if trim s = [] then .ok log
      else match Event.ofLine (String.ofList s) with
        | .error error => .error (.invalidEvent number (.unreadable error))
        | .ok event => accept log number event := by
  cases hread : Event.ofLine (String.ofList s) with
  | error error => simp only [loadLine, decodeLine_encode, String.toList_ofList, hread]
  | ok event => simp only [loadLine, decodeLine_encode, String.toList_ofList, hread]

/-- A line that is loaded is blank or an event. -/
theorem exists_of_loadLine {log log' : Log} {number : Nat} {line : List UInt8}
    (h : loadLine log number line = .ok log') : ∃ s, line = encode s ∧
      ((trim s = [] ∧ log' = log) ∨ ∃ event, Event.ofLine (String.ofList s) = .ok event ∧
        accept log number event = .ok log') := by
  cases htext : decodeLine line with
  | none =>
    rw [loadLine, htext] at h
    cases h
  | some text =>
    have hline := decodeLine_eq_some_iff.mp htext
    refine ⟨text.toList, hline, ?_⟩
    rw [hline, loadLine_encode] at h
    split at h
    · next hblank =>
      cases h
      exact Or.inl ⟨hblank, rfl⟩
    · split at h
      · cases h
      · next event hevent => exact Or.inr ⟨event, hevent, h⟩

section Keeps

variable {P : Log → Prop} (keeps : ∀ {log : Log} {event : Event}, P log →
  event.position = log.lastPosition + 1 → event.sequence = log.version event.stack + 1 →
    P (log.insert event))

include keeps

/-- Loading keeps what inserting the next event keeps. -/
theorem loadLine_keeps {log log' : Log} {number : Nat} {line : List UInt8}
    (h : loadLine log number line = .ok log') (hlog : P log) : P log' := by
  obtain ⟨_, _, ⟨_, rfl⟩ | ⟨event, _, haccept⟩⟩ := exists_of_loadLine h
  · exact hlog
  · obtain ⟨hposition, hsequence, rfl⟩ := accept_eq_ok_iff.mp haccept
    exact keeps hlog hposition hsequence

theorem loadLines_keeps {log log' : Log} {number : Nat} {lines : List (List UInt8)}
    (h : loadLines log number lines = .ok log') (hlog : P log) : P log' := by
  induction lines generalizing log number with
  | nil =>
    cases h
    exact hlog
  | cons line lines ih =>
    obtain ⟨middle, hline, hlines⟩ := bind_eq_ok_iff.mp h
    exact ih hlines (loadLine_keeps keeps hline hlog)

theorem load_keeps {file : ByteArray} {log : Log} (h : load file = .ok log)
    (hempty : P Log.empty) : P log := loadLines_keeps keeps h hempty

end Keeps

def Space (line : List UInt8) : Prop := ∀ b ∈ line, b = 0x20 ∨ b = 0x09 ∨ b = 0x0D

theorem space_encode_iff {s : List Char} (hline : lineFeed ∉ encode s) :
    Space (encode s) ↔ skipSpace s = [] := by
  have hbyte : ∀ b : UInt8, (b = 0x20 ∨ b = 0x09 ∨ b = 0x0D) ↔
      (b.toNat = 0x20 ∨ b.toNat = 0x09 ∨ b.toNat = 0x0D) := by
    intro b
    simp only [← UInt8.toNat_inj]
    rfl
  rw [skipSpace_eq_nil_iff]
  constructor
  · intro h c hc
    have hchars := (forall_mem_encode_iff (P := fun n => n = 0x20 ∨ n = 0x09 ∨ n = 0x0D)
      (by omega) s).mp (fun b hb => (hbyte b).mp (h b hb)) c hc
    rw [isSpace_iff]
    omega
  · intro h b hb
    have hbytes := (forall_mem_encode_iff
      (P := fun n => n = 0x20 ∨ n = 0x0A ∨ n = 0x09 ∨ n = 0x0D) (by omega) s).mpr
      (fun c hc => (isSpace_iff c).mp (h c hc)) b hb
    have hne : b.toNat ≠ 0x0A := by
      intro heq
      have hfeed : b = lineFeed := UInt8.toNat_inj.mp heq
      exact hline (hfeed ▸ hb)
    rw [hbyte]
    omega

section Line

variable {log log' : Log} {number : Nat} {event : Event}

/-- The line of the next event is loaded as reading makes it. -/
theorem loadLine_line (hposition : event.position = log.lastPosition + 1)
    (hsequence : event.sequence = log.version event.stack + 1)
    (hsmall : event.position < UInt64.size) (hless : event.sequence < UInt64.size) :
    loadLine log number (encode event.lineText) = match event.reread with
      | .error error => .error (.invalidEvent number (.unreadable error))
      | .ok read => .ok (log.insert read) := by
  have hnonblank : trim event.lineText ≠ [] := trim_ne_nil List.mem_cons_self rfl
  have hread := Event.ofLine_line hless hsmall
  rw [Event.line] at hread
  rw [loadLine_encode, if_neg hnonblank, hread]
  cases hreread : event.reread with
  | error error => rfl
  | ok read =>
    obtain ⟨hp, hs, hst⟩ := Event.reread_eq_ok hreread
    exact accept_eq_ok_iff.mpr ⟨hp ▸ hposition, by rw [hs, hst]; exact hsequence, rfl⟩

/-- Bytes that begin a line are no text, or the beginning of its text. -/
theorem loadLine_prefix_cases (log : Log) (number : Nat) (s : List Char) {line : List Char}
    {t rest : List UInt8} (ht : t ++ rest = encode line) :
    (∃ error, loadLine log number (encode s ++ t) = .error error) ∨
      ∃ u v, t = encode u ∧ rest = encode v ∧ u ++ v = line := by
  cases htext : decodeLine (encode s ++ t) with
  | none => exact Or.inl ⟨.io none, by rw [loadLine, htext]⟩
  | some text =>
    right
    have henc := decodeLine_eq_some_iff.mp htext
    obtain ⟨u, hu⟩ := prefix_of_encode_append henc
    rw [← hu, encode_append] at henc
    have ht' : t = encode u := List.append_cancel_left henc
    rw [ht'] at ht
    obtain ⟨v, hv⟩ := prefix_of_encode_append ht
    rw [← hv, encode_append] at ht
    exact ⟨u, v, ht', List.append_cancel_left ht, hv⟩

theorem mem_brace {u v : List Char} (huv : u ++ v = event.lineText) (hu : u ≠ []) : '{' ∈ u := by
  cases u with
  | nil => exact absurd rfl hu
  | cons c u =>
    have hc : c = '{' := (List.cons.inj huv).1
    exact hc ▸ List.mem_cons_self

/-- A line that was begun and is no white space is spoilt by the line of an event. -/
theorem loadLine_spoilt {begun t rest : List UInt8} (hbegun : loadLine log number begun = .ok log')
    (hfeed : lineFeed ∉ begun) (hspace : ¬Space begun) (ht : t ++ rest = encode event.lineText)
    (hne : t ≠ []) : ∃ error, loadLine log number (begun ++ t) = .error error := by
  obtain ⟨s, rfl, hs⟩ := exists_of_loadLine hbegun
  rcases loadLine_prefix_cases log number s ht with herror | ⟨u, v, rfl, _, huv⟩
  · exact herror
  have hbrace : '{' ∈ u := mem_brace huv (by rintro rfl; exact hne rfl)
  have hs' : skipSpace s ≠ [] := fun hnil => hspace ((space_encode_iff hfeed).mpr hnil)
  have hrefused : ∃ error, Event.ofLine (String.ofList (s ++ u)) = .error error := by
    rcases hs with ⟨hblank, _⟩ | ⟨event, hevent, _⟩
    · exact Event.ofLine_blank_append ((trim_eq_nil_iff s).mp hblank) hs' u
    · refine Event.ofLine_append hevent ?_
      intro hnil
      have hc := (skipSpace_eq_nil_iff u).mp hnil '{' hbrace
      cases hc
  have hnonblank : trim (s ++ u) ≠ [] := trim_ne_nil (List.mem_append_right s hbrace) rfl
  obtain ⟨error, herror⟩ := hrefused
  exact ⟨_, by rw [← encode_append, loadLine_encode, if_neg hnonblank, herror]⟩

/-- White space at the beginning of a line holds nothing and changes nothing. -/
theorem loadLine_space (event : Event) {begun : List UInt8}
    (hbegun : loadLine log number begun = .ok log')
    (hfeed : lineFeed ∉ begun) (hspace : Space begun) :
    log' = log ∧ loadLine log number (begun ++ encode event.lineText) =
      loadLine log number (encode event.lineText) := by
  obtain ⟨s, rfl, hs⟩ := exists_of_loadLine hbegun
  have hnil : skipSpace s = [] := (space_encode_iff hfeed).mp hspace
  have hblank : trim s = [] := by
    rw [trim_eq_nil_iff]
    exact fun c hc => isBlank_of_isSpace ((skipSpace_eq_nil_iff s).mp hnil c hc)
  have halone : trim event.lineText ≠ [] := trim_ne_nil List.mem_cons_self rfl
  have hafter : trim (s ++ event.lineText) ≠ [] :=
    trim_ne_nil (List.mem_append_right s List.mem_cons_self) rfl
  refine ⟨?_, ?_⟩
  · rw [loadLine_encode, if_pos hblank] at hbegun
    cases hbegun
    rfl
  · rw [← encode_append, loadLine_encode, loadLine_encode, if_neg hafter,
      if_neg halone, Event.ofLine_space_append hnil]

/-- A line that was cut is refused, whatever it was begun with. -/
theorem loadLine_torn {begun t rest : List UInt8} (hbegun : loadLine log number begun = .ok log')
    (hfeed : lineFeed ∉ begun) (ht : t ++ rest = encode event.lineText) (hne : t ≠ [])
    (hrest : rest ≠ []) (hsmall : event.position < UInt64.size)
    (hless : event.sequence < UInt64.size) :
    ∃ error, loadLine log number (begun ++ t) = .error error := by
  by_cases hspace : Space begun
  · obtain ⟨s, rfl, _⟩ := exists_of_loadLine hbegun
    rcases loadLine_prefix_cases log number s ht with herror | ⟨u, v, rfl, rfl, huv⟩
    · exact herror
    have hnil : skipSpace s = [] := (space_encode_iff hfeed).mp hspace
    have hbrace : '{' ∈ u := mem_brace huv (by rintro rfl; exact hne rfl)
    have hv : v ≠ [] := by
      rintro rfl
      exact hrest rfl
    obtain ⟨error, herror⟩ := Event.ofLine_prefix hless hsmall huv hv
    have hnonblank : trim (s ++ u) ≠ [] := trim_ne_nil (List.mem_append_right s hbrace) rfl
    exact ⟨_, by rw [← encode_append, loadLine_encode, if_neg hnonblank,
      Event.ofLine_space_append hnil, herror]⟩
  · exact loadLine_spoilt hbegun hfeed hspace ht hne

end Line

end StackJournal.Journal
