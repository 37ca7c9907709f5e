import StackJournal.Text.Basic

/-! # Bytes of text

Text is stored in UTF-8. Decoding undoes encoding, a stored text that begins another one is also a
beginning of its characters, and below 128 bytes and characters are the same.
-/
namespace StackJournal.Text

def encode (s : List Char) : List UInt8 := s.flatMap String.utf8EncodeChar

theorem encode_append (s t : List Char) : encode (s ++ t) = encode s ++ encode t :=
  List.flatMap_append

theorem toByteArray_encode (s : List Char) : (encode s).toByteArray = s.utf8Encode := rfl

theorem toList_toUTF8 (s : String) : s.toUTF8.data.toList = encode s.toList := by
  rw [String.toUTF8_eq_toByteArray, ← String.utf8Encode_toList, ← toByteArray_encode]
  exact List.toList_data_toByteArray

theorem decodeLine_eq_some_iff {line : List UInt8} {text : String} :
    decodeLine line = some text ↔ line = encode text.toList := by
  have hbytes : text.toByteArray = (encode text.toList).toByteArray := by
    rw [toByteArray_encode, String.utf8Encode_toList]
  unfold decodeLine String.fromUTF8?
  constructor
  · intro h
    split at h
    · next hv =>
      have ht : line.toByteArray = text.toByteArray := by
        rw [← Option.some.inj h]
        rfl
      exact List.toByteArray_inj.mp (ht.trans hbytes)
    · cases h
  · rintro rfl
    have hv : (encode text.toList).toByteArray.IsValidUTF8 := hbytes ▸ text.isValidUTF8
    rw [dif_pos hv]
    congr 1
    exact String.toByteArray_inj.mp hbytes.symm

theorem decodeLine_encode (s : List Char) : decodeLine (encode s) = some (String.ofList s) := by
  rw [decodeLine_eq_some_iff, String.toList_ofList]

theorem prefix_of_encode_append {s t : List Char} {rest : List UInt8}
    (h : encode s ++ rest = encode t) : s <+: t := by
  apply List.isPrefix_of_utf8Encode_append_eq_utf8Encode rest.toByteArray
  rw [← toByteArray_encode, ← toByteArray_encode, ← h, List.toByteArray_append]

/-- A byte below 128 is written for the character of that number only. -/
theorem toNat_of_mem_utf8EncodeChar {c : Char} {b : UInt8} (h : b ∈ String.utf8EncodeChar c) :
    128 ≤ b.toNat ∨ (String.utf8EncodeChar c = [b] ∧ c.toNat = b.toNat) := by
  have hc : c.val.toNat = c.toNat := rfl
  unfold String.utf8EncodeChar at h ⊢
  simp only [hc] at h ⊢
  split at h
  · next hsmall =>
    right
    rw [if_pos hsmall]
    rw [List.mem_singleton] at h
    subst h
    exact ⟨rfl, by rw [UInt8.toNat_ofNat']; omega⟩
  · left
    split at h
    · simp only [List.mem_cons, List.not_mem_nil, or_false] at h
      rcases h with rfl | rfl <;> rw [UInt8.toNat_ofNat'] <;> omega
    · split at h
      · simp only [List.mem_cons, List.not_mem_nil, or_false] at h
        rcases h with rfl | rfl | rfl <;> rw [UInt8.toNat_ofNat'] <;> omega
      · simp only [List.mem_cons, List.not_mem_nil, or_false] at h
        rcases h with rfl | rfl | rfl | rfl <;> rw [UInt8.toNat_ofNat'] <;> omega

theorem le_of_mem_encode {s : List Char} (hs : ∀ c ∈ s, 0x20 ≤ c.toNat) {b : UInt8}
    (h : b ∈ encode s) : 0x20 ≤ b.toNat := by
  obtain ⟨c, hc, hb⟩ := List.mem_flatMap.mp h
  rcases toNat_of_mem_utf8EncodeChar hb with h128 | ⟨_, heq⟩
  · omega
  · have := hs c hc
    omega

/-- The bytes of a text are among some bytes below 128 just if its characters are. -/
theorem forall_mem_encode_iff {P : Nat → Prop} (hP : ∀ n, P n → n < 128) (s : List Char) :
    (∀ b ∈ encode s, P b.toNat) ↔ ∀ c ∈ s, P c.toNat := by
  constructor
  · intro h c hc
    obtain ⟨b, hb⟩ := List.exists_mem_of_ne_nil _ (String.utf8EncodeChar_ne_nil (c := c))
    have hp := h b (List.mem_flatMap.mpr ⟨c, hc, hb⟩)
    rcases toNat_of_mem_utf8EncodeChar hb with h128 | ⟨_, heq⟩
    · have := hP _ hp
      omega
    · exact heq ▸ hp
  · intro h b hb
    obtain ⟨c, hc, hb⟩ := List.mem_flatMap.mp hb
    have hp := h c hc
    rcases toNat_of_mem_utf8EncodeChar hb with h128 | ⟨_, heq⟩
    · have hsmall := hP _ hp
      have hone : String.utf8EncodeChar c = [UInt8.ofNat c.toNat] := by
        unfold String.utf8EncodeChar
        exact if_pos (by show c.toNat ≤ 127; omega)
      rw [hone, List.mem_singleton] at hb
      rw [hb, UInt8.toNat_ofNat'] at h128
      omega
    · exact heq ▸ hp

end StackJournal.Text
