import StackJournal.Json.Reader
import StackJournal.Proofs.Json.Number

/-! # Floating-point numbers in text

The digits of a floating-point number need not be read back as the same number, but they are read to
their end: what is made of them does not depend on the text that follows.
-/
namespace StackJournal.Json

open Text Number

def Ends (rest : List Char) : Prop := rest ≠ [] ∧ Stops rest

/-- A reader that stops where the rest begins and makes the same of what stands before every rest. -/
def Settles {α : Type} (read : List Char → Except Malformed (α × List Char)) : Prop :=
  ∃ result : Except Malformed α, ∀ rest, Ends rest → read rest = result.map fun a => (a, rest)

theorem Settles.congr {α : Type} {f g : List Char → Except Malformed (α × List Char)}
    (hg : Settles g) (h : ∀ rest, Ends rest → f rest = g rest) : Settles f := by
  obtain ⟨result, hresult⟩ := hg
  exact ⟨result, fun rest hrest => (h rest hrest).trans (hresult rest hrest)⟩

theorem settles_error {α : Type} (fault : Malformed) :
    Settles (fun _ => (.error fault : Except Malformed (α × List Char))) :=
  ⟨.error fault, fun _ _ => rfl⟩

namespace Number

variable (negative : Bool) (significand : Nat) (exponent : Int)

theorem settles_ofScaled : Settles (ofScaled negative significand exponent) := by
  unfold ofScaled
  cases Binary64.ofParts? significand exponent with
  | none => exact settles_error .numberOutOfRange
  | some x => exact ⟨.ok (float (x.withSign negative)), fun _ _ => rfl⟩

theorem settles_readScale : Settles (readScale negative significand exponent) := by
  refine (settles_ofScaled negative significand exponent).congr ?_
  rintro rest ⟨hne, hstops⟩
  cases rest with
  | nil => exact absurd rfl hne
  | cons c rest =>
    obtain ⟨_, _, hmark⟩ := hstops c rfl
    simp [readScale, hmark]

theorem settles_readExponent {sign : Char} (hsign : sign = '-' ∨ sign = '+') {digits : List Char}
    (hdigits : ∀ c ∈ digits, c.isDigit = true) :
    Settles (fun rest => readExponent negative significand exponent (sign :: (digits ++ rest))) := by
  have hskip : ((some sign == some '-') || (some sign == some '+')) = true := by
    rcases hsign with rfl | rfl <;> decide
  cases digits with
  | nil =>
    refine (settles_error .invalidNumber).congr ?_
    rintro rest ⟨hne, hstops⟩
    cases rest with
    | nil => exact absurd rfl hne
    | cons c rest =>
      obtain ⟨hc, _, _⟩ := hstops c rfl
      simp [readExponent, hsign, hc]
  | cons d digits =>
    have hd : d.isDigit = true := hdigits d List.mem_cons_self
    let shift := decimalValue (d :: digits)
    let down := some sign == some '-'
    have hread : ∀ rest, Ends rest →
        readExponent negative significand exponent (sign :: (d :: digits ++ rest)) =
          if shift < exponentLimit then
            ofScaled negative significand (if down then exponent - shift else exponent + shift) rest
          else if significand = 0 ∨ down then
            .ok (float (Binary64.zero.withSign negative), rest)
          else .error .numberOutOfRange := by
      rintro rest ⟨hne, hstops⟩
      have hnone : rest.takeWhile Char.isDigit = [] ∧ rest.dropWhile Char.isDigit = rest := by
        cases rest with
        | nil => exact absurd rfl hne
        | cons c rest => simp [(hstops c rfl).1]
      have htake : (d :: (digits ++ rest)).takeWhile Char.isDigit = d :: digits := by
        rw [← List.cons_append, List.takeWhile_append_of_pos hdigits, hnone.1, List.append_nil]
      have hdrop : (d :: (digits ++ rest)).dropWhile Char.isDigit = rest := by
        rw [← List.cons_append, List.dropWhile_append_of_pos hdigits, hnone.2]
      simp only [readExponent, List.head?_cons, hskip, if_true, List.drop_succ_cons, List.drop_zero,
        List.cons_append, hd, htake, hdrop]
      rfl
    by_cases hlimit : shift < exponentLimit
    · have hscaled := settles_ofScaled negative significand
        (if down then exponent - shift else exponent + shift)
      refine hscaled.congr fun rest hrest => ?_
      rw [hread rest hrest, if_pos hlimit]
    · by_cases hzero : significand = 0 ∨ down = true
      · refine ⟨.ok (float (Binary64.zero.withSign negative)), fun rest hrest => ?_⟩
        show readExponent negative significand exponent (sign :: (d :: digits ++ rest)) = _
        rw [hread rest hrest, if_neg hlimit, if_pos hzero]
        rfl
      · refine (settles_error .numberOutOfRange).congr fun rest hrest => ?_
        rw [hread rest hrest, if_neg hlimit, if_neg hzero]

def Scale (s : List Char) : Prop :=
  s = [] ∨ ∃ sign digits, s = 'e' :: sign :: digits ∧ (sign = '-' ∨ sign = '+') ∧
    ∀ c ∈ digits, c.isDigit = true

theorem settles_scale {s : List Char} (hs : Scale s) :
    Settles (fun rest => readScale negative significand exponent (s ++ rest)) := by
  rcases hs with rfl | ⟨sign, digits, rfl, hsign, hdigits⟩
  · exact settles_readScale negative significand exponent
  · exact settles_readExponent negative significand exponent hsign hdigits

def Continues (s : List Char) : Prop :=
  Scale s ∨ ∃ digits scale, s = '.' :: (digits ++ scale) ∧ (∀ c ∈ digits, c.isDigit = true) ∧
    Scale scale

theorem Scale.append_ends {s rest : List Char} (hs : Scale s) (hrest : Ends rest) :
    s ++ rest ≠ [] ∧ startsWithDigit (s ++ rest) = false := by
  rcases hs with rfl | ⟨sign, digits, rfl, _, _⟩
  · exact ⟨hrest.1, hrest.2.not_digit⟩
  · exact ⟨List.cons_ne_nil _ _, rfl⟩

theorem Continues.append_ends {s rest : List Char} (hs : Continues s) (hrest : Ends rest) :
    s ++ rest ≠ [] ∧ startsWithDigit (s ++ rest) = false := by
  rcases hs with hs | ⟨digits, scale, rfl, _, _⟩
  · exact hs.append_ends hrest
  · exact ⟨List.cons_ne_nil _ _, rfl⟩

/-- Which of some digits are taken does not depend on the text after them. -/
theorem takeDigits_split {digits : List Char} (hdigits : ∀ c ∈ digits, c.isDigit = true)
    (value count : Nat) :
    ∃ value' count' left, (∀ c ∈ left, c.isDigit = true) ∧ ∀ rest, startsWithDigit rest = false →
      takeDigits value count (digits ++ rest) = (value', count', left ++ rest) := by
  induction digits generalizing value count with
  | nil =>
    refine ⟨value, count, [], by simp, fun rest hrest => ?_⟩
    cases rest with
    | nil => rfl
    | cons c rest =>
      have hc : c.isDigit = false := hrest
      simp [takeDigits, hc]
  | cons c digits ih =>
    have htail : ∀ d ∈ digits, d.isDigit = true := fun d hd => hdigits d (List.mem_cons_of_mem c hd)
    by_cases hfit : c.isDigit ∧ 10 * value + digitValue c < UInt64.size
    · obtain ⟨value', count', left, hleft, htake⟩ :=
        ih htail (10 * value + digitValue c) (count + 1)
      refine ⟨value', count', left, hleft, fun rest hrest => ?_⟩
      rw [List.cons_append, takeDigits, if_pos hfit]
      exact htake rest hrest
    · refine ⟨value, count, c :: digits, hdigits, fun rest _ => ?_⟩
      rw [List.cons_append, takeDigits, if_neg hfit]

theorem dropWhile_digits {digits rest : List Char} (hdigits : ∀ c ∈ digits, c.isDigit = true)
    (hrest : startsWithDigit rest = false) : (digits ++ rest).dropWhile Char.isDigit = rest := by
  rw [List.dropWhile_append_of_pos hdigits]
  cases rest with
  | nil => rfl
  | cons c rest =>
    have hc : c.isDigit = false := hrest
    simp [hc]

theorem takeWhile_digits {digits rest : List Char} (hdigits : ∀ c ∈ digits, c.isDigit = true)
    (hrest : startsWithDigit rest = false) :
    (digits ++ rest).takeWhile Char.isDigit = digits := by
  rw [List.takeWhile_append_of_pos hdigits]
  cases rest with
  | nil => simp
  | cons c rest =>
    have hc : c.isDigit = false := hrest
    simp [hc]

theorem settles_readFraction {digits scale : List Char}
    (hdigits : ∀ c ∈ digits, c.isDigit = true) (hscale : Scale scale) :
    Settles (fun rest => readFraction negative significand exponent (digits ++ (scale ++ rest))) := by
  obtain ⟨value, count, left, hleft, htake⟩ := takeDigits_split hdigits significand 0
  cases left with
  | nil =>
    by_cases hcount : count = 0
    · refine (settles_error .invalidNumber).congr fun rest hrest => ?_
      obtain ⟨hne, hdigit⟩ := hscale.append_ends hrest
      simp [readFraction, htake _ hdigit, hdigit, hcount, hne]
    · refine (settles_scale negative value (exponent - count) hscale).congr fun rest hrest => ?_
      obtain ⟨hne, hdigit⟩ := hscale.append_ends hrest
      simp [readFraction, htake _ hdigit, hdigit, hcount]
  | cons d left =>
    refine (settles_scale negative value (exponent - count) hscale).congr fun rest hrest => ?_
    obtain ⟨hne, hdigit⟩ := hscale.append_ends hrest
    have hd : startsWithDigit (d :: left ++ (scale ++ rest)) = true := hleft d List.mem_cons_self
    simp only [readFraction, htake _ hdigit, hd, if_true, dropWhile_digits hleft hdigit]

theorem settles_readWhole (n : Nat) {s : List Char} (hs : Continues s) :
    Settles (fun rest => readWhole negative n (s ++ rest)) := by
  rcases hs with (rfl | ⟨sign, digits, rfl, hsign, hdigits⟩) | ⟨digits, scale, rfl, hdigits, hscale⟩
  · exact ⟨.ok (ofMagnitude negative n), fun rest hrest => readWhole_stops hrest.2 negative n⟩
  · exact settles_readExponent negative n 0 hsign hdigits
  · refine (settles_readFraction negative n 0 hdigits hscale).congr fun rest _ => ?_
    rw [List.cons_append, List.append_assoc]
    rfl

theorem settles_readLong (n : Nat) {digits s : List Char} (hdigits : ∀ c ∈ digits, c.isDigit = true)
    (hs : Continues s) : Settles (fun rest => readLong negative n (digits ++ (s ++ rest))) := by
  have htake : ∀ rest, Ends rest →
      (digits ++ (s ++ rest)).takeWhile Char.isDigit = digits ∧
        (digits ++ (s ++ rest)).dropWhile Char.isDigit = s ++ rest := fun rest hrest =>
    ⟨takeWhile_digits hdigits (hs.append_ends hrest).2,
      dropWhile_digits hdigits (hs.append_ends hrest).2⟩
  rcases hs with hs | ⟨fraction, scale, rfl, hfraction, hscale⟩
  · refine (settles_scale negative n digits.length hs).congr fun rest hrest => ?_
    obtain ⟨hdigit, hother⟩ := htake rest hrest
    rcases hs with rfl | ⟨sign, shift, rfl, _, _⟩
    · obtain ⟨hne, hstops⟩ := hrest
      cases rest with
      | nil => exact absurd rfl hne
      | cons c rest =>
        obtain ⟨_, hpoint, _⟩ := hstops c rfl
        simp only [List.nil_append] at hdigit hother
        simp [readLong, hdigit, hother, hpoint]
    · simp only [List.cons_append] at hdigit hother
      simp [readLong, hdigit, hother]
  · refine (settles_readFraction negative n digits.length hfraction hscale).congr
      fun rest hrest => ?_
    obtain ⟨hdigit, hother⟩ := htake rest hrest
    simp only [List.cons_append, List.append_assoc] at hdigit hother
    simp [readLong, hdigit, hother]

/-- A number whose parts are written in order is read to its end. -/
theorem settles_read {digits s : List Char} (hdigits : ∀ c ∈ digits, c.isDigit = true)
    (hs : Continues s) : Settles (fun rest => read negative (digits ++ (s ++ rest))) := by
  cases digits with
  | nil =>
    refine (settles_error .invalidNumber).congr fun rest hrest => ?_
    obtain ⟨hne, hdigit⟩ := hs.append_ends hrest
    rw [List.nil_append]
    cases hmore : s ++ rest with
    | nil => exact absurd hmore hne
    | cons c more =>
      rw [hmore] at hdigit
      have hc : c.isDigit = false := hdigit
      have hzero : c ≠ '0' := by
        rintro rfl
        exact absurd hc (by decide)
      simp [read, hc, hzero]
  | cons c digits =>
    have hc : c.isDigit = true := hdigits c List.mem_cons_self
    by_cases hzero : c = '0'
    · cases digits with
      | nil =>
        refine (settles_readWhole negative 0 hs).congr fun rest hrest => ?_
        simp [read, hzero, (hs.append_ends hrest).2]
      | cons d digits =>
        refine (settles_error .invalidNumber).congr fun rest _ => ?_
        have hd : startsWithDigit (d :: (digits ++ (s ++ rest))) = true :=
          hdigits d (List.mem_cons_of_mem c List.mem_cons_self)
        simp [read, hzero, hd]
    · obtain ⟨value, count, left, hleft, htake⟩ := takeDigits_split hdigits 0 0
      cases left with
      | nil =>
        refine (settles_readWhole negative value hs).congr fun rest hrest => ?_
        have hdigit := (hs.append_ends hrest).2
        have htake := htake _ hdigit
        rw [List.cons_append, List.nil_append] at htake
        simp [read, hzero, hc, htake, hdigit]
      | cons d left =>
        refine (settles_readLong negative value hleft hs).congr fun rest hrest => ?_
        have hdigit := (hs.append_ends hrest).2
        have htake := htake _ hdigit
        rw [List.cons_append] at htake
        have hd : startsWithDigit (d :: (left ++ (s ++ rest))) = true := hleft d List.mem_cons_self
        simp only [read, hzero, hc, htake, hd, List.cons_append, if_false, if_true]

end Number

end StackJournal.Json

namespace StackJournal.Binary64

open Text Json Json.Number

theorem isDigit_of_mem_shortest {x : Binary64} {c : Char} (h : c ∈ x.shortest.1) :
    c.isDigit = true := by
  unfold shortest at h
  split at h
  · rw [List.mem_singleton.mp h]
    rfl
  · simp only [List.mem_reverse] at h
    have hmem := (List.dropWhile_sublist (· == '0')).subset h
    rw [List.mem_reverse] at hmem
    generalize hfound : (List.range 17).findSome? _ = found at hmem
    cases found with
    | none =>
      rw [Option.getD_none, List.mem_singleton] at hmem
      rw [hmem]
      rfl
    | some p =>
      obtain ⟨n, _, hn⟩ := List.exists_of_findSome?_eq_some hfound
      obtain ⟨units, _, rfl⟩ := Option.map_eq_some_iff.mp hn
      exact isDigit_of_mem_decimal hmem

theorem isDigit_of_mem_zeros {n : Nat} {c : Char} (h : c ∈ List.replicate n '0') :
    c.isDigit = true := by
  rw [List.eq_of_mem_replicate h]
  rfl

/-- A floating-point number is written in order: a whole part, and what may stand after one. -/
theorem text_eq (x : Binary64) : ∃ whole more, (∀ c ∈ whole, c.isDigit = true) ∧ Continues more ∧
    whole ++ more ≠ [] ∧ x.text = (if x.negative then ['-'] else []) ++ (whole ++ more) := by
  have hdigits : ∀ c ∈ x.shortest.1, c.isDigit = true := fun c hc => isDigit_of_mem_shortest hc
  unfold text
  generalize x.shortest = form at hdigits
  obtain ⟨digits, first⟩ := form
  simp only at hdigits ⊢
  have hsign : ∀ s : List Char,
      (if x.negative then '-' :: s else s) = (if x.negative then ['-'] else []) ++ s := by
    intro s
    split <;> rfl
  have hpoint : Continues ['.', '0'] := Or.inr ⟨['0'], [], rfl, by simp, Or.inl rfl⟩
  by_cases hwhole : 0 ≤ first ∧ first < 16
  · rw [if_pos hwhole]
    by_cases hlength : digits.length ≤ first.toNat + 1
    · rw [if_pos hlength, hsign]
      refine ⟨digits ++ List.replicate (first.toNat + 1 - digits.length) '0', ['.', '0'], ?_,
        hpoint, by simp, rfl⟩
      intro c hc
      rcases List.mem_append.mp hc with hc | hc
      · exact hdigits c hc
      · exact isDigit_of_mem_zeros hc
    · rw [if_neg hlength, hsign]
      exact ⟨digits.take (first.toNat + 1), '.' :: digits.drop (first.toNat + 1),
        fun c hc => hdigits c (List.mem_of_mem_take hc),
        Or.inr ⟨digits.drop (first.toNat + 1), [], by simp,
          fun c hc => hdigits c (List.mem_of_mem_drop hc), Or.inl rfl⟩, by simp, rfl⟩
  · rw [if_neg hwhole]
    by_cases hsmall : -5 ≤ first ∧ first < 0
    · rw [if_pos hsmall, hsign]
      refine ⟨['0'], '.' :: (List.replicate (first.natAbs - 1) '0' ++ digits), by simp,
        Or.inr ⟨List.replicate (first.natAbs - 1) '0' ++ digits, [], by simp, ?_, Or.inl rfl⟩,
        by simp, by simp⟩
      intro c hc
      rcases List.mem_append.mp hc with hc | hc
      · exact isDigit_of_mem_zeros hc
      · exact hdigits c hc
    · rw [if_neg hsmall, hsign]
      have hscale : Scale ('e' :: (if first < 0 then '-' else '+') :: decimal first.natAbs) := by
        refine Or.inr ⟨_, _, rfl, ?_, fun c hc => isDigit_of_mem_decimal hc⟩
        split
        · exact Or.inl rfl
        · exact Or.inr rfl
      match digits with
      | [] => exact ⟨[], _, by simp, Or.inl hscale, by simp, rfl⟩
      | [d] => exact ⟨[d], _, hdigits, Or.inl hscale, by simp, rfl⟩
      | d :: e :: more =>
        refine ⟨[d], '.' :: (e :: more ++ _), ?_,
          Or.inr ⟨e :: more, _, rfl, ?_, hscale⟩, by simp, rfl⟩
        · intro c hc
          exact hdigits c (List.mem_cons.mpr (Or.inl (List.mem_singleton.mp hc)))
        · exact fun c hc => hdigits c (List.mem_cons_of_mem d hc)

end StackJournal.Binary64
