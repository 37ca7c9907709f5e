import StackJournal.Binary64

/-! # JSON values

An integer is kept exactly when it fits 64 bits, with or without sign; every other number is a
binary floating-point number. The fields of an object are kept sorted by key, each key once.
-/
namespace StackJournal.Json

inductive Number where
  | natural (n : UInt64)
  /-- The integer `-(k + 1)`. -/
  | negative (k : BitVec 63)
  | float (x : Binary64)
  deriving DecidableEq, Repr

end StackJournal.Json

namespace StackJournal

inductive Json where
  | null
  | bool (b : Bool)
  | number (n : Json.Number)
  | string (s : String)
  | array (items : List Json)
  | object (fields : List (String × Json))
  deriving Repr

namespace Json

mutual

def decEq : (v w : Json) → Decidable (v = w)
  | null, w =>
    match w with
    | null => isTrue rfl
    | bool _ | number _ | string _ | array _ | object _ => isFalse (by simp)
  | bool b, w =>
    match w with
    | bool c => decidable_of_iff (b = c) (by simp)
    | null | number _ | string _ | array _ | object _ => isFalse (by simp)
  | number m, w =>
    match w with
    | number n => decidable_of_iff (m = n) (by simp)
    | null | bool _ | string _ | array _ | object _ => isFalse (by simp)
  | string s, w =>
    match w with
    | string t => decidable_of_iff (s = t) (by simp)
    | null | bool _ | number _ | array _ | object _ => isFalse (by simp)
  | array items, w =>
    match w with
    | array others =>
      have := decEqItems items others
      decidable_of_iff (items = others) (by simp)
    | null | bool _ | number _ | string _ | object _ => isFalse (by simp)
  | object fields, w =>
    match w with
    | object others =>
      have := decEqFields fields others
      decidable_of_iff (fields = others) (by simp)
    | null | bool _ | number _ | string _ | array _ => isFalse (by simp)

def decEqItems : (vs ws : List Json) → Decidable (vs = ws)
  | [], [] => isTrue rfl
  | [], _ :: _ | _ :: _, [] => isFalse (by simp)
  | v :: vs, w :: ws =>
    have := decEq v w
    have := decEqItems vs ws
    decidable_of_iff (v = w ∧ vs = ws) (by simp)

def decEqFields : (fs gs : List (String × Json)) → Decidable (fs = gs)
  | [], [] => isTrue rfl
  | [], _ :: _ | _ :: _, [] => isFalse (by simp)
  | (k, v) :: fs, (l, w) :: gs =>
    have := decEq v w
    have := decEqFields fs gs
    decidable_of_iff (k = l ∧ v = w ∧ fs = gs) (by simp [and_assoc])

end

instance : DecidableEq Json := decEq

/-- Adds a field to sorted fields; a field of the same key is replaced. -/
def insertField (key : String) (value : Json) : List (String × Json) → List (String × Json)
  | [] => [(key, value)]
  | (k, v) :: rest =>
    if key < k then (key, value) :: (k, v) :: rest
    else if key = k then (key, value) :: rest
    else (k, v) :: insertField key value rest

/-- The object with the given fields; of fields with one key the last counts. -/
def ofFields (fields : List (String × Json)) : Json :=
  object (fields.foldl (fun sorted field => insertField field.1 field.2 sorted) [])

end Json

end StackJournal
