import StackJournal.Location
import StackJournal.Program
import Std.Time.DateTime

/-! # The command line

Runs the console between standard input and standard output on the journal that the environment
names. Here the requests that write reach the disk; what is written and what follows from it is
decided by `Journal.prepare` and `Journal.settle`.
-/
namespace StackJournal.Program

def clock : IO Timestamp := do
  let now := Std.Time.PlainDateTime.ofWallTime
    (Std.Time.WallTime.ofTimestamp (← Std.Time.Timestamp.now) .zero)
  let date : Date := ⟨now.date.year.toInt, now.date.month.toNat, now.date.day.toNat⟩
  let time : TimeOfDay :=
    ⟨now.time.hour.toNat, now.time.minute.toNat, now.time.second.toNat, now.time.nanosecond.toNat⟩
  match Timestamp.ofLocal? date time 0 with
  | some moment => return moment
  | none => throw (IO.userError "the clock is out of range")

def freshId : IO Uuid := do
  let bytes ← IO.getRandomBytes 16
  return Uuid.ofRandom (bytes.data.toList.foldl (fun n byte => n * 256 + byte.toNat) 0)

def shrink (path : String) (size : Nat) : IO Unit := do
  let file ← IO.FS.Handle.mk path .readWrite
  let _ ← file.read size.toUSize
  file.truncate

/-- Writes bytes after the first `size` bytes of a file, or cuts off what got through. -/
def record (path : String) (file : IO.FS.Handle) (size : Nat) (bytes : ByteArray) :
    IO (Option WriteFault) := do
  try
    file.write bytes
    file.flush
    return none
  catch _ =>
    try
      shrink path size
      return some ⟨0, true⟩
    catch _ => return some ⟨0, false⟩

/-- Answers a request from the journal; an event to append is written first. -/
def serve (path : String) (file : IO.FS.Handle) :
    (request : Request) → StateT Journal IO request.Reply
  | .append stack expected kind payload => do
    let journal ← get
    match journal.prepare (← clock) stack expected kind payload with
    | .error error => return .error error
    | .ok event =>
      let (reply, journal) := journal.settle event (← record path file journal.file.size event.bytes)
      set journal
      return reply
  | .load stack => look (.load stack)
  | .version stack => look (.version stack)
  | .read position limit => look (.read position limit)
  | .last => look .last
where
  look (request : Request) : StateT Journal IO request.Reply := do
    return ((← get).answers (← clock) .sound request).1

/-- The bytes of the next line with its end; none at the end of the input. -/
partial def nextLine (input : IO.FS.Stream) (line : ByteArray) : IO ByteArray := do
  let byte ← input.read 1
  if byte.isEmpty || byte.toList = [Text.lineFeed] then return line ++ byte
  nextLine input (line ++ byte)

/-- Takes lines until the input ends or the console breaks down. -/
partial def converse (path : String) (file : IO.FS.Handle) (console : Console) :
    StateT Journal IO UInt32 := do
  let line ← nextLine (← IO.getStdin) .empty
  if line.isEmpty then return 0
  let console := { console with sink := .unlimited }
  let (breakdown, console) ←
    (console.takeLine .standard (← freshId) line.toList).runIn (serve path file)
  let output ← IO.getStdout
  output.write console.sink.written
  output.flush
  if breakdown.isSome then return (codeOf breakdown).toUInt32
  converse path file console

def runHere : IO UInt32 := do
  let directory := (← IO.currentDir).toString
  let location := Location.ofSettings directory
    (← IO.getEnv "KAPPLANG_DATA_DIR") (← IO.getEnv "KAPPLANG_SYNC")
  IO.FS.createDirAll location.directory
  let file ← IO.FS.Handle.mk location.file .append
  match Journal.ofFile (← IO.FS.readBinFile location.file) with
  | .error error =>
    IO.eprintln error.message
    return 1
  | .ok journal => (converse location.file file (.start .unlimited)).run' journal

end StackJournal.Program

def main : IO UInt32 := do
  try StackJournal.Program.runHere
  catch error =>
    IO.eprintln (toString error)
    return 1
