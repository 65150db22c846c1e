import ManagedHost.Coroutine.Stream

/-!
# Coroutines

A coroutine is a producer that yields values into a stream while a consumer takes them out.  The
producer is a script of actions; it runs until it ends or is *held*, by a full queue, at a gate, or
waiting for its cancellation.
-/

namespace ManagedHost

/-- How a producer ends when its script is worked off. -/
abbrev ProducerResult := Except TaskError Unit

/-- One action of a producer. -/
inductive ProducerAction (α : Type) where
  /-- Yield a value.  A failure is noted; it ends the producer unless `keepOn` is set. -/
  | yield (value : α) (keepOn : Bool)
  /-- Wait until released. -/
  | gate
  /-- Wait until cancelled. -/
  | waitCancel
  /-- Note whether the coroutine is cancelled. -/
  | noteCancelled
  /-- Note how many values wait in the queue. -/
  | noteQueue
  /-- Cancel the coroutine from within. -/
  | cancelSelf
  /-- Panic with a message. -/
  | panic (message : String)
deriving DecidableEq, Inhabited

/-- What a producer takes note of. -/
inductive ProducerNote where
  | error (error : TaskError)
  | cancelled (value : Bool)
  | queued (length : Nat)
deriving DecidableEq, Inhabited

/-- A producer at work, its stream, and the notes it has taken. -/
structure Coroutine (α : Type) where
  stream : YieldStream α
  /-- The actions ahead. -/
  script : List (ProducerAction α)
  /-- How the producer ends after its script. -/
  ending : ProducerResult := .ok ()
  /-- How the producer has ended; `none` while it is at work. -/
  outcome : Option ProducerResult := none
  notes : List ProducerNote := []

namespace Coroutine

variable {α : Type}

/-- The producer ends. -/
def finish (c : Coroutine α) (result : ProducerResult) : Coroutine α :=
  { c with stream := c.stream.finish, script := [], outcome := some result }

/-- Take a note. -/
def note (c : Coroutine α) (n : ProducerNote) : Coroutine α := { c with notes := c.notes ++ [n] }

/-- Perform the next action, if the producer is not held. -/
def advance? (c : Coroutine α) : Option (Coroutine α) :=
  if c.outcome.isSome then none
  else
    match c.script with
    | [] => some (c.finish c.ending)
    | action :: rest =>
      let next := { c with script := rest }
      match action with
      | .yield value keepOn =>
        match c.stream.yield value with
        | (.yielded, stream) => some { next with stream }
        | (.refused e, _) =>
          let next := next.note (.error e)
          some (if keepOn then next else next.finish (.error e))
        | (.blocked, _) => none
      | .gate => none
      | .waitCancel => if c.stream.cancelled then some next else none
      | .noteCancelled => some (next.note (.cancelled c.stream.cancelled))
      | .noteQueue => some (next.note (.queued c.stream.values.length))
      | .cancelSelf => some { next with stream := c.stream.cancel }
      | .panic message => some (next.finish (.error (.panicked message)))

/-- Perform up to `fuel` actions, until the producer is held or has ended. -/
def runUpTo : Nat → Coroutine α → Coroutine α
  | 0, c => c
  | fuel + 1, c =>
    match c.advance? with
    | some c => runUpTo fuel c
    | none => c

/-- Run until the producer is held or has ended.  Every action shortens the script, and one more
step ends the producer. -/
def run (c : Coroutine α) : Coroutine α := runUpTo (c.script.length + 1) c

/-- Start a producer. -/
def start (capacity : Option Nat) (script : List (ProducerAction α)) (ending : ProducerResult) :
    Coroutine α :=
  run { stream := .ofCapacity capacity, script, ending }

/-- Whether the producer has ended. -/
def returned (c : Coroutine α) : Bool := c.outcome.isSome

/-- Take a value if one is there. -/
def tryNext (c : Coroutine α) : Option α × Coroutine α :=
  let (value, stream) := c.stream.tryPop
  (value, run { c with stream })

/-- Take a value, or see the end of the stream. -/
def next (c : Coroutine α) : NextResult α × Coroutine α :=
  let (r, stream) := c.stream.pop
  (r, run { c with stream })

/-- Take up to `fuel` values, until the stream has ended or the producer is held with nothing in the
queue.  Also returns whether the producer is held. -/
def drainUpTo : Nat → Coroutine α → List α × Bool × Coroutine α
  | 0, c => ([], true, c)
  | fuel + 1, c =>
    match c.next with
    | (.got value, c) =>
      let (values, held, c) := drainUpTo fuel c
      (value :: values, held, c)
    | (.ended, c) => ([], false, c)
    | (.blocked, c) => ([], true, c)

/-- Take values until the stream has ended or the producer is held with nothing in the queue. -/
def drain (c : Coroutine α) : List α × Bool × Coroutine α :=
  drainUpTo (c.stream.values.length + c.script.length + 1) c

/-- Cancel the coroutine. -/
def cancel (c : Coroutine α) : Coroutine α := run { c with stream := c.stream.cancel }

/-- Open the gate that holds the producer.  Returns whether there was one. -/
def release (c : Coroutine α) : Bool × Coroutine α :=
  match c.script with
  | .gate :: rest => (true, run { c with script := rest })
  | _ => (false, c)

/-- The coroutine on one line. -/
def describe (c : Coroutine α) : String :=
  Text.record "Coroutine" [("buffered", toString c.stream.values.length),
    ("done", toString c.stream.isFinished), ("cancelled", toString c.stream.cancelled)]

end Coroutine

end ManagedHost
