import StackJournal.Text.Basic

/-! # Locations

Where the journal of a data directory is, and whether each append is to reach the disk at once. A
location is given by settings: texts that may be absent.
-/
namespace StackJournal

structure Location where
  directory : String
  /-- Whether each append waits until it is on the disk. -/
  sync : Bool
  deriving DecidableEq, Repr

namespace Location

def standardDirectory : String := "data"

def standard : Location := ⟨standardDirectory, true⟩

def isAbsolute (path : String) : Bool := path.toList.head? == some '/'

/-- A path seen from a base. An absolute path stands for itself; between the base and another path
stands one separator, which an empty base does without and a base that ends in one has already. -/
def join (base path : String) : String :=
  if isAbsolute path then path
  else if base.isEmpty || base.toList.getLast? == some '/' then base ++ path
  else base ++ "/" ++ path

def file (location : Location) : String := join location.directory "events.jsonl"

def offWords : List String := ["0", "false", "no", "off"]

/-- A setting switches something off by one of the words for it, in any case and with blanks around
it. -/
def isOn (setting : String) : Bool :=
  !offWords.contains (String.ofList ((Text.trim setting.toList).map Char.toLower))

/-- The location that settings give, with the directory seen from the working directory. -/
def ofSettings (workingDirectory : String) (directory sync : Option String) : Location :=
  ⟨join workingDirectory (directory.getD standardDirectory), (sync.map isOn).getD standard.sync⟩

end Location

end StackJournal
