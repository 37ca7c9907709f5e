import Mathlib.Logic.Basic
import StackJournal.Console.Sink
import StackJournal.Proofs.Text.Encoding

/-! # Sinks with limits

A sink takes an answer as if it had no limits, up to the first of its limits. If the bytes do not fit it
has filled up, and if it lets itself be flushed no more it has taken them all. So what a limited sink
holds begins what a sink without limits would hold.
-/
namespace StackJournal.Sink

def bytesOf (texts : List String) : ByteArray := (String.ofList (texts.flatMap String.toList)).toUTF8

theorem toList_bytesOf (texts : List String) :
    (bytesOf texts).data.toList = Text.encode (texts.flatMap String.toList) := by
  rw [bytesOf, Text.toList_toUTF8, String.toList_ofList]

theorem bytesOf_append (texts more : List String) :
    bytesOf (texts ++ more) = bytesOf texts ++ bytesOf more := by
  apply ByteArray.ext
  apply Array.toList_inj.mp
  simp only [toList_bytesOf, ByteArray.toList_data_append, List.flatMap_append, Text.encode_append]

theorem bytesOf_cons (text : String) (texts : List String) :
    bytesOf (text :: texts) = text.toUTF8 ++ bytesOf texts := by
  simp [bytesOf]

def printed (lines : List String) : ByteArray := bytesOf (lines.map (· ++ "\n"))

theorem printed_append (lines more : List String) :
    printed (lines ++ more) = printed lines ++ printed more := by
  rw [printed, List.map_append, bytesOf_append]
  rfl

def flushed (sink : Sink) : Sink := { sink with flushes := sink.flushes.push sink.lineCount }

def holding (sink : Sink) (texts : List String) : Sink :=
  { sink with written := sink.written ++ bytesOf texts }

def taking (sink : Sink) (lines : List String) : Sink :=
  (sink.holding (lines.map (· ++ "\n"))).flushed

def limitedTo (sink : Sink) (capacity patience : Option Nat) : Sink :=
  { sink with capacity, patience }

def Unlimited (sink : Sink) : Prop := sink.capacity = none ∧ sink.patience = none

structure Fits (capacity patience : Option Nat) (sink : Sink) : Prop where
  written : ∀ most ∈ capacity, sink.written.size ≤ most
  flushed : ∀ most ∈ patience, sink.flushes.size ≤ most

/-- How a sink with limits that was like `before` ends where one without limits would be `after`. -/
inductive Ends (capacity patience : Option Nat) (before after : Sink) :
    Option Breakdown × Sink → Prop where
  | taken (fits : after.Fits capacity patience) :
      Ends capacity patience before after (none, after.limitedTo capacity patience)
  | full {most : Nat} (limit : capacity = some most) (beyond : most < after.written.size) :
      Ends capacity patience before after (some .sinkFull,
        { before.limitedTo capacity patience with written := after.written.extract 0 most })
  | refused {most : Nat} (limit : patience = some most) (beyond : most < after.flushes.size)
      (room : ∀ most ∈ capacity, after.written.size ≤ most) :
      Ends capacity patience before after (some .flushRefused,
        { before.limitedTo capacity patience with written := after.written })

theorem extract_append_of_le {a b : ByteArray} {n : Nat} (h : n ≤ a.size) :
    (a ++ b).extract 0 n = a.extract 0 n := by
  rw [ByteArray.extract_append, Nat.sub_eq_zero_of_le h, Nat.zero_sub, ByteArray.extract_same,
    ByteArray.append_empty]

theorem extract_append_of_size_le {a b : ByteArray} {n : Nat} (h : a.size ≤ n) :
    (a ++ b).extract 0 n = a ++ b.extract 0 (n - a.size) := by
  have hwhole := a.extract_zero_max_size (i := n)
  rw [Nat.max_eq_left h] at hwhole
  rw [ByteArray.extract_append, hwhole, Nat.zero_sub]

variable (sink : Sink) {capacity patience : Option Nat} {most : Nat}

theorem write_fits {text : String}
    (fits : ∀ most ∈ sink.capacity, (sink.written ++ text.toUTF8).size ≤ most) :
    sink.write text = (none, { sink with written := sink.written ++ text.toUTF8 }) := by
  rw [write]
  cases hcapacity : sink.capacity with
  | none => rfl
  | some most =>
    have hmost := fits most hcapacity
    rw [ByteArray.size_append] at hmost
    exact if_pos (by omega)

theorem write_full {text : String} (limit : sink.capacity = some most)
    (room : sink.written.size ≤ most) (beyond : most < (sink.written ++ text.toUTF8).size) :
    sink.write text = (some .sinkFull,
      { sink with written := (sink.written ++ text.toUTF8).extract 0 most }) := by
  rw [ByteArray.size_append] at beyond
  rw [write, limit, extract_append_of_size_le room]
  exact if_neg (by omega)

theorem writeAll_fits {texts : List String}
    (fits : ∀ most ∈ sink.capacity, (sink.holding texts).written.size ≤ most) :
    sink.writeAll texts = (none, sink.holding texts) := by
  induction texts generalizing sink with
  | nil => simp [writeAll, holding, bytesOf]
  | cons text texts ih =>
    rw [holding, bytesOf_cons, ← ByteArray.append_assoc] at fits ⊢
    have htext : ∀ most ∈ sink.capacity, (sink.written ++ text.toUTF8).size ≤ most := by
      intro most hmost
      have hall := fits most hmost
      rw [ByteArray.size_append] at hall
      omega
    rw [writeAll, sink.write_fits htext]
    exact ih { sink with written := sink.written ++ text.toUTF8 } fits

theorem writeAll_full {texts : List String} (limit : sink.capacity = some most)
    (room : sink.written.size ≤ most) (beyond : most < (sink.holding texts).written.size) :
    sink.writeAll texts = (some .sinkFull,
      { sink with written := (sink.holding texts).written.extract 0 most }) := by
  induction texts generalizing sink with
  | nil =>
    simp [holding, bytesOf] at beyond
    omega
  | cons text texts ih =>
    rw [holding, bytesOf_cons, ← ByteArray.append_assoc] at beyond ⊢
    rcases Nat.lt_or_ge most (sink.written ++ text.toUTF8).size with hover | hroom
    · rw [writeAll, sink.write_full limit room hover, extract_append_of_le (Nat.le_of_lt hover)]
    · have htext : ∀ n ∈ sink.capacity, (sink.written ++ text.toUTF8).size ≤ n := by
        intro n hn
        rw [limit, Option.mem_some_iff] at hn
        exact hn ▸ hroom
      rw [writeAll, sink.write_fits htext]
      exact ih { sink with written := sink.written ++ text.toUTF8 } limit hroom beyond

theorem flush_fits (fits : ∀ most ∈ sink.patience, sink.flushes.size < most) :
    sink.flush = (none, sink.flushed) := by
  refine if_neg fun hspent => ?_
  obtain ⟨most, hmost, hle⟩ := (Option.any_eq_true _ _).mp hspent
  have hlt := fits most hmost
  simp at hle
  omega

theorem flush_refused (limit : sink.patience = some most) (spent : most ≤ sink.flushes.size) :
    sink.flush = (some .flushRefused, sink) := by
  refine if_pos ?_
  rw [limit]
  simpa using spent

/-- An answer that there is room for is taken, and a flush follows. -/
theorem deliver_fits {lines : List String}
    (fits : ∀ most ∈ sink.capacity, (sink.taking lines).written.size ≤ most) :
    sink.deliver lines = (sink.holding (lines.map (· ++ "\n"))).flush := by
  rw [deliver, sink.writeAll_fits fits]

/-- Without limits every answer is taken. -/
theorem deliver_unlimited (unlimited : sink.Unlimited) (lines : List String) :
    sink.deliver lines = (none, sink.taking lines) := by
  rw [sink.deliver_fits (by simp [unlimited.1])]
  exact flush_fits _ (by simp [holding, unlimited.2])

theorem size_flushes_taking (lines : List String) :
    (sink.taking lines).flushes.size = sink.flushes.size + 1 := by
  simp [taking, flushed, holding]

/-- With limits an answer is taken up to the first of them. -/
theorem ends_deliver {sink : Sink} (fits : sink.Fits capacity patience) (lines : List String) :
    Ends capacity patience sink (sink.taking lines)
      ((sink.limitedTo capacity patience).deliver lines) := by
  have hsize := sink.size_flushes_taking lines
  by_cases hroom : ∀ most ∈ capacity, (sink.taking lines).written.size ≤ most
  · rw [(sink.limitedTo capacity patience).deliver_fits hroom]
    by_cases hpatience : ∀ most ∈ patience, (sink.taking lines).flushes.size ≤ most
    · have hspare : ∀ most ∈ patience, sink.flushes.size < most := by
        intro most hmost
        have hmost := hpatience most hmost
        omega
      rw [flush_fits _ hspare]
      exact .taken ⟨hroom, hpatience⟩
    · obtain ⟨most, hpatience⟩ := not_forall.mp hpatience
      obtain ⟨hmost, hover⟩ := Classical.not_imp.mp hpatience
      rw [Nat.not_le] at hover
      have hspent : most ≤ sink.flushes.size := by omega
      rw [flush_refused ((sink.limitedTo capacity patience).holding _) hmost hspent]
      exact .refused hmost hover hroom
  · obtain ⟨most, hroom⟩ := not_forall.mp hroom
    obtain ⟨hmost, hover⟩ := Classical.not_imp.mp hroom
    rw [Nat.not_le] at hover
    rw [deliver, (sink.limitedTo capacity patience).writeAll_full hmost
      (fits.written most hmost) hover]
    exact .full hmost hover

section Precedes

variable {sink before after : Sink} {breakdown : Breakdown}

def Precedes (before after : Sink) : Prop :=
  (∃ more, after.written = before.written ++ more) ∧ before.flushes.size ≤ after.flushes.size

theorem precedes_self (sink : Sink) : sink.Precedes sink :=
  ⟨⟨.empty, ByteArray.append_empty.symm⟩, Nat.le_refl _⟩

theorem Precedes.trans {last : Sink} (h : before.Precedes after) (h' : after.Precedes last) :
    before.Precedes last := by
  obtain ⟨⟨more, hmore⟩, hsize⟩ := h
  obtain ⟨⟨rest, hrest⟩, hsize'⟩ := h'
  refine ⟨⟨more ++ rest, ?_⟩, Nat.le_trans hsize hsize'⟩
  rw [hrest, hmore, ByteArray.append_assoc]

theorem precedes_taking (sink : Sink) (lines : List String) : sink.Precedes (sink.taking lines) :=
  ⟨⟨bytesOf _, rfl⟩, by simp [taking, flushed, holding]⟩

theorem Precedes.fits (h : before.Precedes after) (fits : after.Fits capacity patience) :
    before.Fits capacity patience := by
  obtain ⟨⟨more, hmore⟩, hsize⟩ := h
  refine ⟨fun most hmost => ?_, fun most hmost => Nat.le_trans hsize (fits.flushed most hmost)⟩
  have hall := fits.written most hmost
  rw [hmore, ByteArray.size_append] at hall
  omega

theorem Ends.not_fits (h : Ends capacity patience before after (some breakdown, sink)) :
    ¬after.Fits capacity patience := by
  intro fits
  cases h with
  | full limit beyond => exact Nat.not_le_of_lt beyond (fits.written _ limit)
  | refused limit beyond _ => exact Nat.not_le_of_lt beyond (fits.flushed _ limit)

theorem Ends.eq_none_iff {breakdown : Option Breakdown}
    (h : Ends capacity patience before after (breakdown, sink)) :
    breakdown = none ↔ after.Fits capacity patience := by
  cases breakdown with
  | none =>
    cases h with
    | taken fits => exact iff_of_true rfl fits
  | some breakdown => exact iff_of_false (by simp) h.not_fits

/-- The bytes that were taken are a beginning of all that was written from there on. -/
theorem Ends.written {breakdown : Option Breakdown} {last : Sink}
    (h : Ends capacity patience before after (breakdown, sink)) (precedes : after.Precedes last) :
    ∃ more, last.written = sink.written ++ more := by
  obtain ⟨more, hmore⟩ := precedes.1
  rw [hmore]
  cases h with
  | taken _ => exact ⟨more, rfl⟩
  | @full most limit beyond =>
    refine ⟨after.written.extract most after.written.size ++ more, ?_⟩
    have hwhole := after.written.extract_eq_extract_append_extract most (Nat.zero_le most)
      (Nat.le_of_lt beyond)
    rw [ByteArray.extract_zero_size] at hwhole
    rw [← ByteArray.append_assoc, ← hwhole]
  | refused _ _ _ => exact ⟨more, rfl⟩

theorem Ends.filled {last : Sink} (h : Ends capacity patience before after (some .sinkFull, sink))
    (precedes : after.Precedes last) : ∃ most ∈ capacity, most < last.written.size ∧
      sink.written = last.written.extract 0 most := by
  obtain ⟨more, hmore⟩ := precedes.1
  cases h with
  | @full most limit beyond =>
    refine ⟨most, limit, ?_, ?_⟩
    · rw [hmore, ByteArray.size_append]
      exact Nat.lt_add_right more.size beyond
    · rw [hmore, extract_append_of_le (Nat.le_of_lt beyond)]

theorem taking_nil (sink : Sink) : sink.taking [] = sink.flushed := by
  simp [taking, holding, bytesOf]

theorem precedes_flushed (sink : Sink) : sink.Precedes sink.flushed :=
  sink.taking_nil ▸ precedes_taking sink []

theorem Unlimited.taking {sink : Sink} (h : sink.Unlimited) (lines : List String) :
    (sink.taking lines).Unlimited := h

end Precedes

end StackJournal.Sink
