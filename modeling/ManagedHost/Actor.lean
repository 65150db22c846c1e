import ManagedHost.Channel.Basic

/-!
# Actors

An actor owns a mailbox and a worker that takes one message after the other and gives it to the
handler.  Some messages *hold* the handler until it is released; which ones, is a parameter of the
functions that run the worker.
-/

namespace ManagedHost

/-- Where an actor's worker is. -/
inductive ActorWorker (μ : Type) where
  /-- The actor has not been started. -/
  | unborn
  /-- About to take the next message. -/
  | ready
  /-- Parked at the empty mailbox. -/
  | parked (waiter : Nat)
  /-- Inside the handler. -/
  | handling (message : μ)
  /-- The mailbox is closed and empty. -/
  | exited
deriving DecidableEq, Inhabited

/-- An actor with messages of type `μ`. -/
structure Actor (μ : Type) where
  id : String
  mailbox : Channel μ
  running : Bool := false
  /-- How many handler calls have ended. -/
  processed : Nat := 0
  worker : ActorWorker μ := .unborn
  /-- The messages given to the handler, oldest first. -/
  seen : List μ := []
deriving DecidableEq, Inhabited

namespace Actor

variable {μ : Type}

/-- An actor that has not been started. -/
def ofMailbox (id : String) (capacity : Nat) : Actor μ := { id, mailbox := .ofCapacity capacity }

/-- An actor whose mailbox is reserved at once, for messages of `bytes` bytes. -/
def reserve (bytes : Nat) (id : String) (capacity : Nat) : Except Fault (Actor μ) :=
  (Channel.reserve bytes capacity).map fun mailbox => { id, mailbox }

/-- Whether the actor was ever started. -/
def started (a : Actor μ) : Bool :=
  match a.worker with
  | .unborn => false
  | _ => true

/-- Why the worker cannot be started.  The thread is named after the actor, and a name has no zero
byte. -/
def startFault? (a : Actor μ) : Option Fault :=
  let bytes := ("actor-" ++ a.id).toUTF8.toList.map UInt8.toNat
  if a.started then none
  else if bytes.contains 0 then some (.threadName (bytes.idxOf 0) bytes)
  else none

/-- Start the worker, once. -/
def start (a : Actor μ) : Actor μ :=
  match a.worker with
  | .unborn => { a with running := true, worker := .ready }
  | _ => a

/-- Refuse further messages; those accepted are still handled.  Stopping an actor that is not
running does nothing. -/
def stop (a : Actor μ) : Actor μ :=
  if a.running then { a with running := false, mailbox := a.mailbox.close } else a

/-- Give the message to the handler. -/
def handle (a : Actor μ) (message : μ) : Actor μ :=
  { a with worker := .handling message, seen := a.seen ++ [message] }

/-- The handler call ends, by returning or by a panic. -/
def finishHandling (a : Actor μ) : Actor μ :=
  match a.worker with
  | .handling _ => { a with worker := .ready, processed := a.processed + 1 }
  | _ => a

/-- One step of the worker, `none` when it can take none. -/
def advance? (holds : μ → Bool) (a : Actor μ) : Option (Actor μ) :=
  match a.worker with
  | .ready =>
    match a.mailbox.receive with
    | (.got message, mailbox) => some ({ a with mailbox }.handle message)
    | (.ended, mailbox) => some { a with mailbox, worker := .exited }
    | (.parked w, mailbox) => some { a with mailbox, worker := .parked w }
  | .parked w =>
    match a.mailbox.recvOutcome w with
    | some (.got message) => some (a.handle message)
    | some _ => some { a with worker := .exited }
    | none => none
  | .handling message => if holds message then none else some a.finishHandling
  | _ => none

/-- Up to `fuel` steps of the worker. -/
def runUpTo (holds : μ → Bool) : Nat → Actor μ → Actor μ
  | 0, a => a
  | fuel + 1, a =>
    match a.advance? holds with
    | some a => runUpTo holds fuel a
    | none => a

/-- Run the worker until it is parked, held or has exited.  A message takes at most two steps. -/
def run (holds : μ → Bool) (a : Actor μ) : Actor μ :=
  runUpTo holds (2 * (a.mailbox.buffer.length + a.mailbox.senders.length) + 4) a

/-- Whether the worker is inside the handler. -/
def isHeld (a : Actor μ) : Bool :=
  match a.worker with
  | .handling _ => true
  | _ => false

/-- Let the handler that is held go on.  Returns whether there was one. -/
def release (a : Actor μ) : Bool × Actor μ := (a.isHeld, a.finishHandling)

/-- Look at numbered blocking sends.  Once the actor was started, those that have ended are reported
with whether the message was accepted; the others are kept. -/
def reportSends (a : Actor μ) (sends : List (Nat × SendResult)) :
    List (Nat × Bool) × List (Nat × SendResult) :=
  let now := sends.map fun (i, r) => (i, a.mailbox.sendStands r)
  if a.started then
    let (kept, ended) := now.partition fun (_, r) => match r with
      | .parked _ => true
      | _ => false
    (ended.map fun (i, r) => (i, r == .sent), kept)
  else ([], now)

/-- The actor on one line. -/
def describe (a : Actor μ) : String :=
  Text.record "Actor" [("id", Text.quoted a.id), ("running", toString a.running),
    ("mailbox", a.mailbox.describe)]

end Actor

end ManagedHost
