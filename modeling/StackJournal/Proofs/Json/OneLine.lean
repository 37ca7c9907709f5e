import StackJournal.Json.Writer
import StackJournal.Proofs.Json.FloatText
import StackJournal.Proofs.Json.Quoted

/-! # Written values have no control characters

A written value stands on one line: every control character in it is escaped.
-/
namespace StackJournal.Json

open Text

def Unbroken (s : List Char) : Prop := ∀ c ∈ s, 0x20 ≤ c.toNat

theorem Unbroken.append {s t : List Char} (hs : Unbroken s) (ht : Unbroken t) :
    Unbroken (s ++ t) := by
  intro c hc
  rcases List.mem_append.mp hc with hc | hc
  · exact hs c hc
  · exact ht c hc

theorem Unbroken.cons {c : Char} {s : List Char} (hc : 0x20 ≤ c.toNat) (hs : Unbroken s) :
    Unbroken (c :: s) := by
  intro d hd
  rcases List.mem_cons.mp hd with rfl | hd
  · exact hc
  · exact hs d hd

theorem unbroken_nil : Unbroken [] := fun _ hc => nomatch hc

theorem unbroken_of_all {s : List Char} (h : s.all (0x20 ≤ ·.toNat) = true) : Unbroken s := by
  intro c hc
  exact of_decide_eq_true (List.all_eq_true.mp h c hc)

theorem unbroken_quote (s : List Char) : Unbroken (quote s) := fun _ => le_of_mem_quote

theorem unbroken_digits {s : List Char} (hs : ∀ c ∈ s, c.isDigit = true) : Unbroken s := by
  intro c hc
  exact Nat.le_trans (by decide) (Char.isDigit_iff_toNat.mp (hs c hc)).1

theorem unbroken_decimal (n : Nat) : Unbroken (decimal n) :=
  unbroken_digits fun _ => isDigit_of_mem_decimal

theorem Number.unbroken_scale {s : List Char} (hs : Scale s) : Unbroken s := by
  rcases hs with rfl | ⟨sign, digits, rfl, hsign, hdigits⟩
  · exact unbroken_nil
  · refine .cons (by decide) (.cons ?_ (unbroken_digits hdigits))
    rcases hsign with rfl | rfl <;> decide

theorem Number.unbroken_text (n : Number) : Unbroken n.text := by
  cases n with
  | natural n => exact unbroken_decimal _
  | negative k => exact .cons (by decide) (unbroken_decimal _)
  | float x =>
    obtain ⟨whole, more, hwhole, hmore, _, htext⟩ := x.text_eq
    rw [Number.text, htext]
    have hsign : Unbroken (if x.negative then ['-'] else []) := by
      split
      · exact .cons (by decide) unbroken_nil
      · exact unbroken_nil
    refine hsign.append ((unbroken_digits hwhole).append ?_)
    rcases hmore with hscale | ⟨digits, scale, rfl, hdigits, hscale⟩
    · exact Number.unbroken_scale hscale
    · exact .cons (by decide) ((unbroken_digits hdigits).append (Number.unbroken_scale hscale))

mutual

theorem unbroken_text : (v : Json) → Unbroken v.text
  | .null => by
    rw [text]
    exact unbroken_of_all (by decide)
  | .bool true => by
    rw [text]
    exact unbroken_of_all (by decide)
  | .bool false => by
    rw [text]
    exact unbroken_of_all (by decide)
  | .number n => by
    rw [text]
    exact n.unbroken_text
  | .string s => by
    rw [text]
    exact unbroken_quote _
  | .array [] => by
    rw [text]
    exact .cons (by decide) (.cons (by decide) unbroken_nil)
  | .array (v :: rest) => by
    rw [text]
    exact (Unbroken.cons (by decide) (unbroken_text v)).append (unbroken_itemsTail rest)
  | .object [] => by
    rw [text]
    exact .cons (by decide) (.cons (by decide) unbroken_nil)
  | .object ((key, v) :: rest) => by
    rw [text]
    exact ((Unbroken.cons (by decide) (unbroken_quote _)).append
      (.cons (by decide) (unbroken_text v))).append (unbroken_fieldsTail rest)

theorem unbroken_itemsTail : (items : List Json) → Unbroken (itemsTail items)
  | [] => by
    rw [itemsTail]
    exact .cons (by decide) unbroken_nil
  | v :: rest => by
    rw [itemsTail]
    exact (Unbroken.cons (by decide) (unbroken_text v)).append (unbroken_itemsTail rest)

theorem unbroken_fieldsTail : (fields : List (String × Json)) → Unbroken (fieldsTail fields)
  | [] => by
    rw [fieldsTail]
    exact .cons (by decide) unbroken_nil
  | (key, v) :: rest => by
    rw [fieldsTail]
    exact ((Unbroken.cons (by decide) (unbroken_quote _)).append
      (.cons (by decide) (unbroken_text v))).append (unbroken_fieldsTail rest)

end

end StackJournal.Json
