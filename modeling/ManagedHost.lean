import ManagedHost.Actor
import ManagedHost.Cancel.Token
import ManagedHost.Cancel.Tree
import ManagedHost.Channel.Basic
import ManagedHost.Channel.Parties
import ManagedHost.Channel.Select
import ManagedHost.Command.Help
import ManagedHost.Command.Report
import ManagedHost.Command.Request
import ManagedHost.Command.Run
import ManagedHost.Coroutine.Basic
import ManagedHost.Coroutine.Stream
import ManagedHost.Duration
import ManagedHost.Fault
import ManagedHost.Heap.Basic
import ManagedHost.Heap.Batch
import ManagedHost.Heap.Collect
import ManagedHost.Heap.ObjectType
import ManagedHost.Heap.Pacing
import ManagedHost.Heap.Workers
import ManagedHost.Log.Event
import ManagedHost.Log.Level
import ManagedHost.Loop.Basic
import ManagedHost.Loop.Machine
import ManagedHost.Loop.Run
import ManagedHost.Main
import ManagedHost.Memory.Arena
import ManagedHost.Memory.Pool
import ManagedHost.Memory.Size
import ManagedHost.Memory.Store
import ManagedHost.Number.Binary64
import ManagedHost.Number.Numeral
import ManagedHost.Number.Shortest
import ManagedHost.Proofs.Actor.Handling
import ManagedHost.Proofs.Actor.Stopping
import ManagedHost.Proofs.Cancel.Subtree
import ManagedHost.Proofs.Channel.Closing
import ManagedHost.Proofs.Channel.Order
import ManagedHost.Proofs.Channel.Selecting
import ManagedHost.Proofs.Channel.Waiting
import ManagedHost.Proofs.Coroutine.Delivery
import ManagedHost.Proofs.Coroutine.Ending
import ManagedHost.Proofs.Coroutine.Script
import ManagedHost.Proofs.Coroutine.Session
import ManagedHost.Proofs.Heap.Averaging
import ManagedHost.Proofs.Heap.Collection
import ManagedHost.Proofs.Heap.Contents
import ManagedHost.Proofs.Heap.Counters
import ManagedHost.Proofs.Heap.Cycle
import ManagedHost.Proofs.Heap.Decision
import ManagedHost.Proofs.Heap.Declaring
import ManagedHost.Proofs.Heap.Draining
import ManagedHost.Proofs.Heap.History
import ManagedHost.Proofs.Heap.InPlace
import ManagedHost.Proofs.Heap.Interleaving
import ManagedHost.Proofs.Heap.Layout
import ManagedHost.Proofs.Heap.Limit
import ManagedHost.Proofs.Heap.Marking
import ManagedHost.Proofs.Heap.PointerWords
import ManagedHost.Proofs.Heap.Pointers
import ManagedHost.Proofs.Heap.Stalling
import ManagedHost.Proofs.Heap.Thresholds
import ManagedHost.Proofs.Loop.Active
import ManagedHost.Proofs.Loop.Audit
import ManagedHost.Proofs.Loop.Awaiting
import ManagedHost.Proofs.Loop.Batches
import ManagedHost.Proofs.Loop.Bearers
import ManagedHost.Proofs.Loop.Books
import ManagedHost.Proofs.Loop.Cancelling
import ManagedHost.Proofs.Loop.Collecting
import ManagedHost.Proofs.Loop.Counting
import ManagedHost.Proofs.Loop.Erasing
import ManagedHost.Proofs.Loop.Journal
import ManagedHost.Proofs.Loop.Leftovers
import ManagedHost.Proofs.Loop.Lifecycle
import ManagedHost.Proofs.Loop.Outcomes
import ManagedHost.Proofs.Loop.Pledges
import ManagedHost.Proofs.Loop.Promises
import ManagedHost.Proofs.Loop.Refusals
import ManagedHost.Proofs.Loop.Stopped
import ManagedHost.Proofs.Loop.Tally
import ManagedHost.Proofs.Memory.Alignment
import ManagedHost.Proofs.Memory.Bumping
import ManagedHost.Proofs.Memory.Carving
import ManagedHost.Proofs.Memory.Pieces
import ManagedHost.Proofs.Memory.Pooling
import ManagedHost.Proofs.Memory.Repeating
import ManagedHost.Proofs.Memory.Rewinding
import ManagedHost.Proofs.Memory.Rounding
import ManagedHost.Proofs.Number.Decimals
import ManagedHost.Proofs.Schedule.Agenda
import ManagedHost.Proofs.Schedule.Closed
import ManagedHost.Proofs.Settings.Layers
import ManagedHost.Proofs.Settings.Precedence
import ManagedHost.Proofs.Settings.RoundTrip
import ManagedHost.Proofs.Task.Settlement
import ManagedHost.Proofs.Timer.Appointments
import ManagedHost.Proofs.Toml.Quoting
import ManagedHost.Proofs.Toml.Scalars
import ManagedHost.Proofs.Toml.Sections
import ManagedHost.Proofs.Toml.Tidiness
import ManagedHost.Schedule.DeadlineQueue
import ManagedHost.Schedule.Pile
import ManagedHost.Schedule.Scheduler
import ManagedHost.Settings.Basic
import ManagedHost.Settings.Document
import ManagedHost.Settings.Sources
import ManagedHost.Task.Basic
import ManagedHost.Task.Error
import ManagedHost.Text.Blank
import ManagedHost.Text.Hidden
import ManagedHost.Text.Record
import ManagedHost.Toml.Document
import ManagedHost.Toml.Draft
import ManagedHost.Toml.Entries
import ManagedHost.Toml.Moment
import ManagedHost.Toml.Printer
import ManagedHost.Toml.Quoted
import ManagedHost.Toml.Scalar
import ManagedHost.Toml.Value
import ManagedHost.Proofs.Heap.Crews
import ManagedHost.Proofs.Heap.Finishing
