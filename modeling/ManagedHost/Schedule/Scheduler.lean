import ManagedHost.Loop.Basic
import ManagedHost.Schedule.DeadlineQueue

/-!
# Schedulers

A scheduler holds tasks in a deadline queue and hands each to its event loop once it is due.
-/

namespace ManagedHost

/-- The priority of a task that is scheduled at once. -/
def priorityImmediate : Int := 10

/-- The priority of a task that is scheduled with a delay. -/
def priorityDelayed : Int := 5

/-- The state of a scheduler beside its event loop. -/
structure Scheduler where
  workers : Nat
  phase : LoopPhase := .idle
  queue : DeadlineQueue TaskId := {}
  /-- How many submissions were accepted. -/
  scheduled : Nat := 0
  /-- How many tasks were handed to the loop. -/
  dispatched : Nat := 0
  /-- How many tasks the loop did not take. -/
  failures : Nat := 0
deriving DecidableEq, Inhabited

namespace Scheduler

/-- Accept a task, unless the scheduler has stopped. -/
def submit (s : Scheduler) (t : TaskId) (priority : Int) (deadline : Nat) :
    Except TaskError Scheduler :=
  if s.phase = .stopped then .error .stopped
  else .ok { s with queue := s.queue.push t priority deadline, scheduled := s.scheduled + 1 }

/-- The scheduler on one line. -/
def describe (s : Scheduler) : String :=
  Text.record "Scheduler" [("state", s.phase.name), ("pending", toString s.queue.length),
    ("workers", toString s.workers)]

end Scheduler

end ManagedHost
