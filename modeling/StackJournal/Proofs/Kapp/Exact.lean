import StackJournal.Proofs.Stack.Verdict

/-! # Kapps without bounds

The kapps act as well on integers without bound. A stack of items goes along with such integers, each
item the integer wrapped around, as long as nothing is divided: overflow on the way is forgotten where
the integer is back in range. How many items there are never depends on the items.
-/
namespace StackJournal

/-- What a kapp does to integers without bound, the top one first. -/
def Kapp.exact : Kapp → List Int → List Int
  | pop, _ :: items => items
  | dup, a :: items => a :: a :: items
  | swap, a :: b :: items => b :: a :: items
  | zero, items => 0 :: items
  | succ, a :: items => (a + 1) :: items
  | pred, a :: items => (a - 1) :: items
  | add, a :: b :: items => (b + a) :: items
  | sub, a :: b :: items => (b - a) :: items
  | mul, a :: b :: items => (b * a) :: items
  | div, a :: b :: items => b.fdiv a :: items
  | _, items => items

def EventKind.exact : EventKind → List Int → List Int
  | create, _ => []
  | kapp k, items => k.exact items

def Kapp.depth : Kapp → Nat → Nat
  | pop, depth + 1 => depth
  | dup, depth + 1 => depth + 2
  | zero, depth => depth + 1
  | add, depth + 2 | sub, depth + 2 | mul, depth + 2 | div, depth + 2 => depth + 1
  | _, depth => depth

def EventKind.depth : EventKind → Nat → Nat
  | create, _ => 0
  | kapp k, depth => k.depth depth

def exactItems (kinds : List EventKind) : List Int :=
  kinds.foldl (fun items kind => kind.exact items) []

def depthAfter (kinds : List EventKind) : Nat := kinds.foldl (fun depth kind => kind.depth depth) 0

theorem Kapp.length_act (k : Kapp) (items : List Int64) :
    (k.act items).length = k.depth items.length := by
  rcases items with _ | ⟨a, _ | ⟨b, items⟩⟩ <;> cases k <;> rfl

/-- Wrapping around goes with every kapp but division. -/
theorem Kapp.act_map_ofInt {k : Kapp} (hk : k ≠ div) (items : List Int) :
    k.act (items.map Int64.ofInt) = (k.exact items).map Int64.ofInt := by
  cases k with
  | div => exact absurd rfl hk
  | _ => rcases items with _ | ⟨a, _ | ⟨b, items⟩⟩ <;> simp [act, exact]

namespace EventKind

theorem length_act (kind : EventKind) (items : List Int64) :
    (kind.act items).length = kind.depth items.length := by
  cases kind with
  | create => rfl
  | kapp k => exact k.length_act items

theorem act_map_ofInt {kind : EventKind} (hkind : kind ≠ .kapp .div) (items : List Int) :
    kind.act (items.map Int64.ofInt) = (kind.exact items).map Int64.ofInt := by
  cases kind with
  | create => rfl
  | kapp k => exact Kapp.act_map_ofInt (fun hk => hkind (by rw [hk])) items

theorem length_foldl_act (kinds : List EventKind) (items : List Int64) :
    (kinds.foldl (fun items kind => kind.act items) items).length =
      kinds.foldl (fun depth kind => kind.depth depth) items.length := by
  induction kinds generalizing items with
  | nil => rfl
  | cons kind kinds ih => rw [List.foldl_cons, List.foldl_cons, ih, length_act]

theorem foldl_act_map_ofInt {kinds : List EventKind} (hdiv : kapp .div ∉ kinds) (items : List Int) :
    kinds.foldl (fun items kind => kind.act items) (items.map Int64.ofInt) =
      (kinds.foldl (fun items kind => kind.exact items) items).map Int64.ofInt := by
  induction kinds generalizing items with
  | nil => rfl
  | cons kind kinds ih =>
    obtain ⟨hkind, hkinds⟩ := not_or.mp (mt List.mem_cons.mpr hdiv)
    rw [List.foldl_cons, List.foldl_cons, act_map_ofInt fun h => hkind h.symm, ih hkinds]

end EventKind

/-- Items that are integers wrapped around, the same where these are within range. -/
structure Wraps (cells : List Int64) (exact : List Int) : Prop where
  depth : cells.length = exact.length
  reduced : cells.map Int64.toInt = exact.map (Int.bmod · Int64.size)
  within : (∀ x ∈ exact, Int64.minValue.toInt ≤ x ∧ x ≤ Int64.maxValue.toInt) →
    cells.map Int64.toInt = exact

theorem wraps_map_ofInt (exact : List Int) : Wraps (exact.map Int64.ofInt) exact where
  depth := List.length_map _
  reduced := by simp [Int64.toInt_ofInt]
  within fits := by
    rw [List.map_map]
    refine (List.map_congr_left fun x hx => ?_).trans (List.map_id exact)
    obtain ⟨hmin, hmax⟩ := fits x hx
    exact Int64.toInt_ofInt_of_le hmin (Int.lt_add_one_iff.mpr hmax)

/-- After every step of a history the number of items is told by the kinds alone. Where nothing was
divided, the items are the exact ones wrapped around, and the exact ones themselves if these are all
within range, whatever was out of range before. -/
theorem history_wraps {id : Uuid} {events front : List Event} {stack : Stack}
    (accepted : Stack.ofHistory id events = .ok stack) (hfront : front <+: events)
    (begun : front ≠ []) : ∃ reached, Stack.ofHistory id front = .ok reached ∧
      reached.cells.length = depthAfter (front.map (·.kind)) ∧
      (.kapp .div ∉ front.map (·.kind) →
        Wraps reached.cells (exactItems (front.map (·.kind)))) := by
  have hlawful : Stack.Lawful id events := (Stack.ofHistory_eq_ok_iff.mp accepted).1
  have hkeeps : Stack.Replayable id front := Stack.Replayable.front (Or.inr hlawful) hfront
  refine ⟨_, Stack.ofHistory_eq_ok_iff.mpr ⟨hkeeps.resolve_left begun, rfl⟩, ?_⟩
  rw [Stack.applyAll_blank]
  refine ⟨EventKind.length_foldl_act _ [], fun hdiv => ?_⟩
  have hcells := EventKind.foldl_act_map_ofInt hdiv []
  rw [List.map_nil] at hcells
  rw [hcells]
  exact wraps_map_ofInt _

def recordedFrom (id : Uuid) (kinds : List EventKind) : List Event :=
  kinds.zipIdx.map fun (kind, place) => ⟨id, place + 1, kind, none, place + 1, .epoch⟩

/-- Squares 2 until it is out of range, and takes the result from itself. -/
def squared : List EventKind :=
  [.create, .kapp .zero, .kapp .succ, .kapp .succ] ++
    (List.replicate 6 [.kapp .dup, .kapp .mul]).flatten ++ [.kapp .dup, .kapp .sub]

theorem squared_wraps : ∃ reached last,
    Stack.ofHistory ⟨0⟩ ((recordedFrom ⟨0⟩ squared).take 16) = .ok reached ∧
      exactItems (squared.take 16) = [18446744073709551616] ∧
      reached.cells.map Int64.toInt = [0] ∧
    Stack.ofHistory ⟨0⟩ (recordedFrom ⟨0⟩ squared) = .ok last ∧
      exactItems squared = [0] ∧ last.cells.map Int64.toInt = [0] := by
  have haccepted : Stack.ofHistory ⟨0⟩ (recordedFrom ⟨0⟩ squared) = .ok ⟨⟨0⟩, 18, [0], #[]⟩ := rfl
  have hout : exactItems (squared.take 16) = [18446744073709551616] := by decide
  have hback : exactItems squared = [0] := by decide
  obtain ⟨reached, hreached, _, hwraps⟩ := history_wraps haccepted
    (List.take_prefix 16 (recordedFrom ⟨0⟩ squared)) (by decide)
  obtain ⟨last, hlast, _, hwraps'⟩ := history_wraps haccepted
    (List.prefix_refl (recordedFrom ⟨0⟩ squared)) (by decide)
  have hreduced := (hwraps (by decide)).reduced
  have hwithin := (hwraps' (by decide)).within
  rw [show ((recordedFrom ⟨0⟩ squared).take 16).map (·.kind) = squared.take 16 from rfl, hout]
    at hreduced
  rw [show (recordedFrom ⟨0⟩ squared).map (·.kind) = squared from rfl, hback] at hwithin
  exact ⟨reached, last, hreached, hout, hreduced, hlast, hback, hwithin (by decide)⟩

end StackJournal
