import StackJournal.Json.Malformed
import StackJournal.Json.Number
import StackJournal.Text.Shown
import StackJournal.Timestamp.Reader
import StackJournal.Uuid

/-! # Refused lines

Why a line of text is no event: it is malformed, or a field holds something else than it should.
-/
namespace StackJournal.EventLine

/-- What stands where something else was wanted. -/
inductive Found where
  | null
  | bool (b : Bool)
  | number (n : Json.Number)
  | string (s : String)
  | array
  | object

def Found.describe : Found → String
  | null => "null"
  | bool b => s!"boolean `{b}`"
  | number (.float x) => s!"floating point `{x.toString}`"
  | number n => s!"integer `{String.ofList n.text}`"
  | string s => s!"string {Text.shown s}"
  | array => "sequence"
  | object => "map"

inductive Error where
  | malformed (fault : Json.Malformed)
  | wrongType (found : Found) (wanted : String)
  | wrongValue (found : Found) (wanted : String)
  | unknownName (name : String) (known : List String)
  | missingField (key : String)
  | duplicateField (key : String)
  /-- An event written as an array that ends too early. -/
  | tooFewItems (count : Nat)
  | badUuid (cause : Uuid.Error)
  | badTimestamp (cause : Timestamp.Error)

/-- What an event is called where something else stands in its place. -/
def recordName : String := "struct RecordedEvent"

def Error.message : Error → String
  | malformed fault => fault.message
  | wrongType found wanted => s!"invalid type: {found.describe}, expected {wanted}"
  | wrongValue found wanted => s!"invalid value: {found.describe}, expected {wanted}"
  | unknownName name known =>
    let names := String.intercalate ", " (known.map fun k => "`" ++ k ++ "`")
    s!"unknown variant `{name}`, expected one of {names}"
  | missingField key => s!"missing field `{key}`"
  | duplicateField key => s!"duplicate field `{key}`"
  | tooFewItems count => s!"invalid length {count}, expected {recordName} with 6 elements"
  | badUuid cause => s!"UUID parsing failed: {cause.message}"
  | badTimestamp cause => cause.message

end StackJournal.EventLine
