import StackJournal.Main
import StackJournal.Store.Trouble
import StackJournal.Proofs.Kapp.Division
import StackJournal.Proofs.Kapp.Exact
import StackJournal.Proofs.Stack.Live
import StackJournal.Proofs.Stack.Verdict
import StackJournal.Proofs.Log.Opened
import StackJournal.Proofs.Journal.Refinement
import StackJournal.Proofs.Journal.Accepted
import StackJournal.Proofs.Journal.Recovery
import StackJournal.Proofs.Journal.Payload
import StackJournal.Proofs.Journal.WellOrdered
import StackJournal.Proofs.Journal.Failures
import StackJournal.Proofs.Feed.Delivery
import StackJournal.Proofs.Feed.Drained
import StackJournal.Proofs.App.Trail
import StackJournal.Proofs.Feed.Resumed
import StackJournal.Proofs.Feed.Schedule
import StackJournal.Proofs.Clients.Serial
import StackJournal.Proofs.Clients.Histories
import StackJournal.Proofs.Clients.Apart
import StackJournal.Proofs.Clients.Contested
import StackJournal.Proofs.Clients.Push
import StackJournal.Proofs.Console.Line
import StackJournal.Proofs.Console.Selection
import StackJournal.Proofs.Console.Layout
import StackJournal.Proofs.Console.Breakdown
import StackJournal.Proofs.Console.Typed
