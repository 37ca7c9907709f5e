import StackJournal.Proofs.Journal.Loading

/-! # What a write does to a file

The bytes of an event that a write lets through decide what the file holds afterwards, together with
what the file ended in. A file that ends in a whole line gets one more line, and is refused if the
line was cut; a file that ends in a line begun is spoilt by any byte.
-/
namespace StackJournal

open Text Json

/-- The bytes of an event are those of its line and a line feed. -/
theorem Event.toList_bytes (event : Event) :
    event.bytes.data.toList = encode event.lineText ++ [lineFeed] := by
  rw [bytes, toList_toUTF8, String.toList_append, encode_append, line, String.toList_ofList]
  rfl

theorem Event.lineFeed_not_mem (event : Event) : lineFeed ∉ encode event.lineText := by
  intro hmem
  have hle := le_of_mem_encode event.unbroken_lineText hmem
  exact absurd hle (by decide)

/-- The line of an event does not end in a carriage return. -/
theorem Event.encode_lineText (event : Event) :
    ∃ front, encode event.lineText = front ++ [0x7D] := by
  obtain ⟨front, hfront⟩ : ∃ front, event.lineText = front ++ ['}'] := ⟨_, rfl⟩
  exact ⟨encode front, by rw [hfront, encode_append]; rfl⟩

theorem Event.size_bytes (event : Event) :
    event.bytes.size = (encode event.lineText).length + 1 := by
  have hlength := congrArg List.length event.toList_bytes
  rw [Array.length_toList, List.length_append] at hlength
  exact hlength

theorem Event.length_encode_pos (event : Event) : 0 < (encode event.lineText).length := by
  obtain ⟨front, hfront⟩ := event.encode_lineText
  rw [hfront, List.length_append]
  exact Nat.succ_pos _

theorem Event.size_bytes_pos (event : Event) : 0 < event.bytes.size := by
  rw [event.size_bytes]
  exact Nat.succ_pos _

namespace Journal

def endedLines (file : ByteArray) : List (List UInt8) := linesFrom [] (whole file.data.toList)

theorem loadLines_append (log : Log) (number : Nat) (front back : List (List UInt8)) :
    loadLines log number (front ++ back) = (loadLines log number front).bind fun log =>
      loadLines log (number + front.length) back := by
  induction front generalizing log number with
  | nil => rfl
  | cons line front ih =>
    rw [List.cons_append, loadLines, loadLines]
    cases loadLine log number line with
    | error _ => rfl
    | ok log =>
      simp only [bind, Except.bind]
      rw [ih, List.length_cons, Nat.add_assoc, Nat.add_comm 1]
      rfl

theorem loadLines_singleton (log : Log) (number : Nat) (line : List UInt8) :
    loadLines log number [line] = loadLine log number line := by
  rw [loadLines]
  cases loadLine log number line <;> rfl

def loadOpen (file : ByteArray) (line : List UInt8) : Except StoreError Log :=
  (loadLines Log.empty 1 (endedLines file)).bind fun log =>
    loadLine log (1 + (endedLines file).length) line

variable {file longer : ByteArray} {t : List UInt8}

/-- A line that goes on. -/
theorem load_begun (ht : lineFeed ∉ t) (hlonger : longer.data.toList = file.data.toList ++ t) :
    load longer = loadOpen file (openEnd file.data.toList ++ t) := by
  have hfeed : lineFeed ∉ openEnd file.data.toList ++ t := by
    intro hmem
    rcases List.mem_append.mp hmem with hmem | hmem
    · exact not_mem_openEnd _ hmem
    · exact ht hmem
  have hbytes : longer.data.toList =
      whole file.data.toList ++ (openEnd file.data.toList ++ t) := by
    rw [hlonger, ← List.append_assoc, whole_append_openEnd]
  rw [load, lines, hbytes, linesFrom_whole_append, loadLines_append, linesFrom_open hfeed]
  unfold loadOpen endedLines
  congr 1
  funext log
  by_cases hnil : openEnd file.data.toList ++ t = []
  · rw [if_pos ⟨rfl, hnil⟩, hnil]
    rfl
  · rw [if_neg fun h => hnil h.2]
    exact loadLines_singleton _ _ _

/-- A line that goes on and ends. -/
theorem load_ended {front : List UInt8} {b : UInt8} (ht : lineFeed ∉ front ++ [b])
    (hb : b ≠ carriageReturn)
    (hlonger : longer.data.toList = file.data.toList ++ (front ++ [b] ++ [lineFeed])) :
    load longer = loadOpen file (openEnd file.data.toList ++ (front ++ [b])) := by
  have hfeed : lineFeed ∉ openEnd file.data.toList ++ (front ++ [b]) := by
    intro hmem
    rcases List.mem_append.mp hmem with hmem | hmem
    · exact not_mem_openEnd _ hmem
    · exact ht hmem
  have hbytes : longer.data.toList = whole file.data.toList ++
      (openEnd file.data.toList ++ (front ++ [b]) ++ [lineFeed]) := by
    rw [hlonger, List.append_assoc (openEnd _), ← List.append_assoc (whole _),
      whole_append_openEnd]
  rw [load, lines, hbytes, linesFrom_whole_append, loadLines_append, linesFrom_ended hfeed,
    List.append_nil, ← List.append_assoc, endLine_reverse hb]
  unfold loadOpen endedLines
  congr 1
  funext log
  rw [List.append_assoc]
  exact loadLines_singleton _ _ _

theorem load_eq_loadOpen (file : ByteArray) :
    load file = loadOpen file (openEnd file.data.toList) := by
  rw [load_begun (t := []) (List.not_mem_nil) (List.append_nil _).symm, List.append_nil]

/-- The bytes of an event that a write lets through: those of the beginning of its line, or those
of its line, with the line feed or without. -/
theorem load_write_cases (file : ByteArray) (event : Event) {written : Nat} (hpos : 0 < written) :
    ∃ t rest, t ++ rest = encode event.lineText ∧ t ≠ [] ∧
      (rest ≠ [] ↔ written + 1 < event.bytes.size) ∧
      load (file ++ event.bytes.extract 0 written) = loadOpen file (openEnd file.data.toList ++ t) := by
  have hbytes : (file ++ event.bytes.extract 0 written).data.toList = file.data.toList ++
      (encode event.lineText ++ [lineFeed]).take written := by
    rw [← event.toList_bytes]
    simp
  have hsize := event.size_bytes
  have hlong := event.length_encode_pos
  have hne : encode event.lineText ≠ [] := List.length_pos_iff.mp hlong
  have hfeed := event.lineFeed_not_mem
  by_cases hend : written ≤ (encode event.lineText).length
  · refine ⟨(encode event.lineText).take written, (encode event.lineText).drop written,
      List.take_append_drop _ _, ?_, ?_, ?_⟩
    · rw [← List.length_pos_iff, List.length_take]
      omega
    · rw [← List.length_pos_iff, List.length_drop]
      omega
    · refine load_begun (fun hmem => hfeed (List.mem_of_mem_take hmem)) ?_
      rw [hbytes, List.take_append_of_le_length hend]
  · refine ⟨encode event.lineText, [], List.append_nil _, hne, ?_, ?_⟩
    · rw [hsize]
      simp only [ne_eq, not_true_eq_false, false_iff]
      omega
    · have hall : (encode event.lineText ++ [lineFeed]).take written =
          encode event.lineText ++ [lineFeed] := by
        apply List.take_of_length_le
        rw [List.length_append, List.length_singleton]
        omega
      obtain ⟨front, hfront⟩ := event.encode_lineText
      rw [hall] at hbytes
      rw [hfront] at hbytes hfeed ⊢
      exact load_ended hfeed (by decide) hbytes

theorem exists_of_load {file : ByteArray} {log : Log} (h : load file = .ok log) :
    ∃ before, loadLines Log.empty 1 (endedLines file) = .ok before ∧
      loadLine before (1 + (endedLines file).length) (openEnd file.data.toList) = .ok log := by
  rw [load_eq_loadOpen] at h
  exact bind_eq_ok_iff.mp h

section Write

variable {file : ByteArray} {log : Log} {written : Nat}
variable (hload : load file = .ok log) (hpos : 0 < written)

include hload hpos

/-- A file that ends in a line begun is spoilt by any byte. -/
theorem load_spoilt (event : Event) (hfresh : ¬Fresh file) :
    ∃ error, load (file ++ event.bytes.extract 0 written) = .error error := by
  obtain ⟨before, hbefore, hopen⟩ := exists_of_load hload
  obtain ⟨t, rest, ht, hne, _, hwrite⟩ := load_write_cases file event hpos
  obtain ⟨error, herror⟩ := loadLine_spoilt hopen (not_mem_openEnd _) hfresh ht hne
  exact ⟨error, by rw [hwrite, loadOpen, hbefore]; exact herror⟩

/-- A line that was cut is refused. -/
theorem load_torn {event : Event} (hcut : written + 1 < event.bytes.size)
    (hposition : event.position < UInt64.size)
    (hsequence : event.sequence < UInt64.size) :
    ∃ error, load (file ++ event.bytes.extract 0 written) = .error error := by
  obtain ⟨before, hbefore, hopen⟩ := exists_of_load hload
  obtain ⟨t, rest, ht, hne, hrest, hwrite⟩ := load_write_cases file event hpos
  obtain ⟨error, herror⟩ := loadLine_torn hopen (not_mem_openEnd _) ht hne (hrest.mpr hcut)
    hposition hsequence
  exact ⟨error, by rw [hwrite, loadOpen, hbefore]; exact herror⟩

/-- A whole line after whole lines is loaded as reading makes it, even without its line feed. -/
theorem load_written {event : Event} (hfresh : Fresh file) (hwhole : event.bytes.size ≤ written + 1)
    (hnext : event.position = log.lastPosition + 1)
    (hcount : event.sequence = log.version event.stack + 1)
    (hposition : event.position < UInt64.size) (hsequence : event.sequence < UInt64.size) :
    load (file ++ event.bytes.extract 0 written) = match event.reread with
      | .error error => .error (.invalidEvent (1 + (endedLines file).length) (.unreadable error))
      | .ok read => .ok (log.insert read) := by
  obtain ⟨before, hbefore, hopen⟩ := exists_of_load hload
  obtain ⟨t, rest, ht, _, hrest, hwrite⟩ := load_write_cases file event hpos
  have hnil : rest = [] := by
    cases rest with
    | nil => rfl
    | cons b rest =>
      have hcut := hrest.mp (List.cons_ne_nil b rest)
      omega
  rw [hnil, List.append_nil] at ht
  obtain ⟨rfl, hline⟩ := loadLine_space event hopen (not_mem_openEnd _) hfresh
  rw [hwrite, loadOpen, hbefore, ht]
  exact hline.trans (loadLine_line hnext hcount hposition hsequence)

end Write

/-- A file whose ended lines are refused stays refused. -/
theorem load_stuck {file : ByteArray} (hended : openEnd file.data.toList = [])
    (hload : ∃ error, load file = .error error) (event : Event) (written : Nat) :
    ∃ error, load (file ++ event.bytes.extract 0 written) = .error error := by
  obtain ⟨error, herror⟩ := hload
  by_cases hpos : 0 < written
  · have hlines : loadLines Log.empty 1 (endedLines file) = .error error := by
      rw [load_eq_loadOpen, hended, loadOpen] at herror
      cases hlines : loadLines Log.empty 1 (endedLines file) with
      | error _ =>
        rw [hlines] at herror
        exact herror
      | ok log =>
        have hempty : loadLine log (1 + (endedLines file).length) [] = .ok log :=
          loadLine_encode log _ []
        rw [hlines] at herror
        cases hempty.symm.trans herror
    obtain ⟨t, _, _, _, _, hwrite⟩ := load_write_cases file event hpos
    exact ⟨error, by rw [hwrite, loadOpen, hlines]; rfl⟩
  · have hzero : written = 0 := Nat.eq_zero_of_not_pos hpos
    refine ⟨error, ?_⟩
    rw [hzero, ByteArray.extract_same, ByteArray.append_empty]
    exact herror

theorem openEnd_append_bytes (file : ByteArray) (event : Event) :
    openEnd (file ++ event.bytes).data.toList = [] := by
  have hbytes : (file ++ event.bytes).data.toList =
      (file.data.toList ++ encode event.lineText) ++ [lineFeed] := by
    rw [List.append_assoc, ← event.toList_bytes]
    simp
  rw [hbytes, openEnd_lineFeed]

end Journal

theorem Text.fresh_of_openEnd {file : ByteArray} (h : openEnd file.data.toList = []) :
    Fresh file := by
  intro b hb
  rw [h] at hb
  cases hb

end StackJournal
