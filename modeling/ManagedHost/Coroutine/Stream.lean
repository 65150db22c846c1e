import ManagedHost.Task.Error

/-!
# Streams of yielded values

The queue between the producer and the consumer of a coroutine.  Yielding waits while the queue is
full and fails once the stream is cancelled; values yielded before stay in the queue.
-/

namespace ManagedHost

/-- The values on their way from a producer to a consumer. -/
structure YieldStream (α : Type) where
  /-- Values not consumed yet, oldest first. -/
  values : List α := []
  /-- Whether the producer has ended. -/
  done : Bool := false
  /-- Most values that the queue holds; `none` for no bound. -/
  bound : Option Nat := none
  cancelled : Bool := false
deriving DecidableEq, Inhabited

/-- How a yield ended, or that it waits for room. -/
inductive YieldResult where
  | yielded
  | refused (error : TaskError)
  | blocked
deriving DecidableEq, Inhabited

/-- How a blocking read ended, or that it waits for a value. -/
inductive NextResult (α : Type) where
  | got (value : α)
  | ended
  | blocked
deriving DecidableEq, Inhabited

namespace YieldStream

variable {α : Type}

/-- An empty stream; a bound of zero counts as one. -/
def ofCapacity (capacity : Option Nat) : YieldStream α := { bound := capacity.map (max · 1) }

/-- Whether no further value fits. -/
def isFull (s : YieldStream α) : Bool :=
  match s.bound with
  | some bound => s.values.length ≥ bound
  | none => false

/-- Put a value into the queue. -/
def yield (s : YieldStream α) (value : α) : YieldResult × YieldStream α :=
  if s.cancelled then (.refused .cancelled, s)
  else if s.isFull then (.blocked, s)
  else (.yielded, { s with values := s.values ++ [value] })

/-- Take the oldest value, if there is one. -/
def tryPop (s : YieldStream α) : Option α × YieldStream α :=
  match s.values with
  | value :: rest => (some value, { s with values := rest })
  | [] => (none, s)

/-- Take the oldest value, or see the end of the stream. -/
def pop (s : YieldStream α) : NextResult α × YieldStream α :=
  match s.values with
  | value :: rest => (.got value, { s with values := rest })
  | [] => (if s.done then .ended else .blocked, s)

/-- The producer has ended. -/
def finish (s : YieldStream α) : YieldStream α := { s with done := true }

/-- Refuse all further yields. -/
def cancel (s : YieldStream α) : YieldStream α := { s with cancelled := true }

/-- Whether the producer has ended and everything is consumed. -/
def isFinished (s : YieldStream α) : Bool := s.done && s.values.isEmpty

end YieldStream

end ManagedHost
