import ManagedHost.Duration
import ManagedHost.Task.Basic

/-!
# Event loops and timers

The shared state of an event loop: a bounded queue of tasks, a list of microtasks, the tasks it is
responsible for, its timers and its counters.
-/

namespace ManagedHost

/-- The length of a loop's queue when none is asked for. -/
def defaultQueueCapacity : Nat := 1024

/-- How a loop is set up; intervals are in milliseconds. -/
structure LoopConfig where
  /-- Number of workers. -/
  workers : Nat
  queueCapacity : Nat := defaultQueueCapacity
  microtaskInterval : Nat := 1
  timerInterval : Nat := 10
deriving DecidableEq, Inhabited

/-- The default set-up with the given number of workers, at least one. -/
def LoopConfig.ofWorkers (workers : Nat) : LoopConfig := { workers := max workers 1 }

/-- Why there can be no loop of this set-up: its queue cannot be numbered or reserved. -/
def LoopConfig.queueFault? (c : LoopConfig) : Option Fault :=
  if c.queueCapacity ≥ Nat.pow 2 62 then some .queueTooLong else Size.itemsFault? 24 c.queueCapacity

/-- Why the workers and the two tickers of a loop can never be started. -/
def LoopConfig.threadsFault? (c : LoopConfig) : Option Fault :=
  if c.workers + 2 ≥ Size.limit then some .addOverflow else Size.itemsFault? 24 (c.workers + 2)

/-- Where a loop or a scheduler is in its life. -/
inductive LoopPhase where
  | idle
  | running
  | stopped
deriving DecidableEq, Inhabited

/-- The name of a phase. -/
def LoopPhase.name : LoopPhase → String
  | idle => "Idle"
  | running => "Running"
  | stopped => "Stopped"

/-- What a loop counts. -/
structure LoopStats where
  scheduled : Nat := 0
  completed : Nat := 0
  failed : Nat := 0
  cancelled : Nat := 0
  microtasks : Nat := 0
  timers : Nat := 0
deriving DecidableEq, Inhabited

/-- Count a task that has been run, by the state it is in. -/
def LoopStats.record (s : LoopStats) : TaskState → LoopStats
  | .completed => { s with completed := s.completed + 1 }
  | .failed => { s with failed := s.failed + 1 }
  | .cancelled => { s with cancelled := s.cancelled + 1 }
  | .pending | .running => s

/-- How many tasks were counted by their final state. -/
def LoopStats.finished (s : LoopStats) : Nat := s.completed + s.failed + s.cancelled

/-- An event loop. -/
structure EventLoop where
  config : LoopConfig
  phase : LoopPhase := .idle
  /-- Whether the threads of the loop have been told to stop. -/
  stopSignal : Bool := false
  /-- Submitted tasks that no worker has taken yet, oldest first. -/
  queue : List TaskId := []
  /-- Microtasks that have not been taken yet, oldest first. -/
  microtasks : List TaskId := []
  /-- The tasks that the loop is responsible for, each once. -/
  active : List TaskId := []
  /-- The numbers of the registered timers, oldest first. -/
  timers : List Nat := []
  stats : LoopStats := {}
  /-- When the loop was started. -/
  startedAt : Nat := 0
  /-- When the timers were last looked at. -/
  lastScan : Nat := 0
  /-- How many submissions are under way. -/
  submitting : Nat := 0
deriving DecidableEq, Inhabited

namespace EventLoop

/-- The loop on one line. -/
def describe (l : EventLoop) : String :=
  Text.record "EventLoop" [("state", l.phase.name), ("workers", toString l.config.workers)]

/-- Whether a ticker of the given interval in milliseconds has ticked by `now`. -/
def hasTicked (l : EventLoop) (interval now : Nat) : Bool := l.startedAt + interval * 1000 ≤ now

/-- The first tick, of a ticker with the given interval in milliseconds, that is not before
`time`. -/
def tickFrom (l : EventLoop) (interval time : Nat) : Nat :=
  let period := max (interval * 1000) 1
  l.startedAt + max 1 ((time - l.startedAt + period - 1) / period) * period

/-- Take responsibility for a task. -/
def adopt (l : EventLoop) (t : TaskId) : EventLoop := { l with active := l.active.insert t }

/-- Give up responsibility for a task. -/
def release (l : EventLoop) (t : TaskId) : EventLoop := { l with active := l.active.erase t }

end EventLoop

/-- A timer; times and intervals are in microseconds. -/
structure TimerCell (α : Type) where
  /-- The interval of a repeating timer and the body of its tasks. -/
  repeating : Option (Nat × Body α)
  /-- When the timer fires next. -/
  nextRun : Nat
  /-- The task that the timer submits when it fires. -/
  armed : TaskId
  cancelled : Bool := false
  /-- How often the timer has fired. -/
  fired : Nat := 0

/-- The timer after it has fired at the time `now`; one that repeats arms the task `fresh`. -/
def TimerCell.fire {α : Type} (t : TimerCell α) (now : Nat) (fresh : TaskId) : TimerCell α :=
  match t.repeating with
  | some (interval, _) =>
    { t with fired := t.fired + 1, armed := fresh, nextRun := now + interval }
  | none => { t with fired := t.fired + 1 }

/-- The timer on one line; its number is shown as given. -/
def TimerCell.describe {α : Type} (t : TimerCell α) (id : String) : String :=
  let interval := match t.repeating with
    | some (interval, _) =>
      Text.tagged "Some" (Duration.ofParts 0 (interval * 1000)).describe
    | none => "None"
  Text.record "Timer" [("id", id), ("interval", interval), ("cancelled", toString t.cancelled),
    ("fired", toString t.fired)]

end ManagedHost
