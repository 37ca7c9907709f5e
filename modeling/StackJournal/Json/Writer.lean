import StackJournal.Json.Number
import StackJournal.Json.Text

/-! # Writing JSON values

The compact form: no blanks, fields in the order of their keys, every character raw that need not
be escaped.
-/
namespace StackJournal.Json

mutual

def text : Json → List Char
  | .null => ['n', 'u', 'l', 'l']
  | .bool true => ['t', 'r', 'u', 'e']
  | .bool false => ['f', 'a', 'l', 's', 'e']
  | .number n => n.text
  | .string s => quote s.toList
  | .array [] => ['[', ']']
  | .array (value :: rest) => '[' :: value.text ++ itemsTail rest
  | .object [] => ['{', '}']
  | .object ((key, value) :: rest) => '{' :: quote key.toList ++ ':' :: value.text ++ fieldsTail rest

def itemsTail : List Json → List Char
  | [] => [']']
  | value :: rest => ',' :: value.text ++ itemsTail rest

def fieldsTail : List (String × Json) → List Char
  | [] => ['}']
  | (key, value) :: rest => ',' :: quote key.toList ++ ':' :: value.text ++ fieldsTail rest

end

def ofNat (n : Nat) : Json := .number (.ofMagnitude false n)

def ofInt64 (i : Int64) : Json := .number (.ofMagnitude (decide (i < 0)) i.toInt.natAbs)

protected def toString (value : Json) : String := String.ofList value.text

end StackJournal.Json
