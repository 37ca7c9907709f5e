import StackJournal.Journal
import StackJournal.Plan

/-! # Stores

A store answers requests from its log: a log in memory, or a journal on a disk. All requests but
`append` only read, and read the same from both.
-/
namespace StackJournal

def Log.answers (log : Log) (now : Timestamp) : (request : Request) → request.Reply × Log
  | .append stack expected kind payload => log.append now stack expected kind payload
  | .load stack => (.ok (log.load stack), log)
  | .version stack => (.ok (log.version stack), log)
  | .read position limit => (.ok (log.readFrom position limit), log)
  | .last => (.ok log.lastPosition, log)

def Journal.answers (journal : Journal) (now : Timestamp) (disk : Disk) :
    (request : Request) → request.Reply × Journal
  | .append stack expected kind payload => journal.append now disk stack expected kind payload
  | .load stack => (.ok (journal.log.load stack), journal)
  | .version stack => (.ok (journal.log.version stack), journal)
  | .read position limit => (.ok (journal.log.readFrom position limit), journal)
  | .last => (.ok journal.log.lastPosition, journal)

inductive Store where
  | memory (log : Log)
  | journal (journal : Journal)

namespace Store

def log : Store → Log
  | .memory log => log
  | .journal j => j.log

def answers (now : Timestamp) (disk : Disk) : Answers Store := fun request store =>
  match store with
  | .memory log =>
    let (reply, log) := log.answers now request
    (reply, .memory log)
  | .journal j =>
    let (reply, j) := j.answers now disk request
    (reply, .journal j)

end Store

end StackJournal
