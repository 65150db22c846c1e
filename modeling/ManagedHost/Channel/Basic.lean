import ManagedHost.Memory.Size
import ManagedHost.Text.Record

/-!
# Channels

A channel carries values from senders to receivers, in order, through a buffer of bounded size.  A
sender that finds the buffer full and a receiver that finds nothing to take *park*: the caller gets
the number of a waiter, and the waiter's slot tells later how the call ended.  A channel of capacity
zero has no buffer, so that every value passes from hand to hand.

After `close` no value is accepted any more; the values in the buffer can still be received.
-/

namespace ManagedHost

/-- How a parked send stands. -/
inductive SendSlot (α : Type) where
  /-- The value has not been taken yet. -/
  | pending (value : α)
  /-- The value was taken: the send succeeded. -/
  | taken
  /-- The channel was closed before anybody took the value. -/
  | closed
deriving DecidableEq, Inhabited

/-- How a parked receive stands. -/
inductive RecvSlot (α : Type) where
  | waiting
  /-- A sender handed over a value. -/
  | ready (value : α)
  /-- The channel was closed. -/
  | closed
deriving DecidableEq, Inhabited

/-- A first-in, first-out channel. -/
structure Channel (α : Type) where
  capacity : Nat
  /-- The values in the buffer, oldest first. -/
  buffer : List α := []
  closed : Bool := false
  /-- The waiters of parked senders, oldest first. -/
  senders : List Nat := []
  /-- The waiters of parked receivers, oldest first. -/
  receivers : List Nat := []
  /-- The slots of all senders that ever parked, by waiter. -/
  sendSlots : List (SendSlot α) := []
  /-- The slots of all receivers that ever parked, by waiter. -/
  recvSlots : List (RecvSlot α) := []
deriving DecidableEq, Inhabited

/-- How a send ended, or that it parked. -/
inductive SendResult where
  | sent
  /-- The channel is closed. -/
  | refused
  | parked (waiter : Nat)
deriving DecidableEq, Inhabited

/-- How a receive ended, or that it parked. -/
inductive RecvResult (α : Type) where
  | got (value : α)
  /-- The channel is closed and empty. -/
  | ended
  | parked (waiter : Nat)
deriving DecidableEq, Inhabited

/-- Why a send that does not wait failed.  It hands its value back. -/
inductive TrySendError (α : Type) where
  | full (value : α)
  | closed (value : α)
deriving DecidableEq, Inhabited

/-- Why a receive that does not wait brought nothing. -/
inductive TryRecvError where
  | empty
  | closed
deriving DecidableEq, Inhabited

/-- The text of the error of a send on a closed channel. -/
def closedMessage : String := "send on closed channel"

/-- The value that could not be sent. -/
def TrySendError.value {α : Type} : TrySendError α → α
  | full value => value
  | closed value => value

/-- The name of the kind of error. -/
def TrySendError.kind {α : Type} : TrySendError α → String
  | full _ => "Full"
  | closed _ => "Closed"

/-- The text of the error. -/
def TrySendError.message {α : Type} : TrySendError α → String
  | full _ => "channel is full"
  | closed _ => closedMessage

/-- The name of the kind of error. -/
def TryRecvError.kind : TryRecvError → String
  | empty => "Empty"
  | closed => "Closed"

/-- The text of the error. -/
def TryRecvError.message : TryRecvError → String
  | empty => "channel is empty"
  | closed => "channel is closed"

namespace Channel

variable {α : Type}

/-- An empty channel. -/
def ofCapacity (capacity : Nat) : Channel α := { capacity }

/-- An empty channel whose buffer is reserved at once, for values of `bytes` bytes. -/
def reserve (bytes capacity : Nat) : Except Fault (Channel α) :=
  match Size.itemsFault? bytes capacity with
  | some fault => .error fault
  | none => .ok (ofCapacity capacity)

/-! ### Sending -/

/-- Hand the value to the oldest parked receiver, or put it into the buffer; `none` when there is
neither a receiver nor room. -/
def offer (c : Channel α) (value : α) : Option (Channel α) :=
  match c.receivers with
  | w :: rest => some { c with receivers := rest, recvSlots := c.recvSlots.set w (.ready value) }
  | [] =>
    if c.buffer.length < c.capacity then some { c with buffer := c.buffer ++ [value] } else none

/-- Send a value, parking when there is no room for it. -/
def send (c : Channel α) (value : α) : SendResult × Channel α :=
  if c.closed then (.refused, c)
  else
    match c.offer value with
    | some c => (.sent, c)
    | none =>
      let w := c.sendSlots.length
      (.parked w,
        { c with senders := c.senders ++ [w], sendSlots := c.sendSlots ++ [.pending value] })

/-- Send a value if that is possible at once. -/
def trySend (c : Channel α) (value : α) : Except (TrySendError α) Unit × Channel α :=
  if c.closed then (.error (.closed value), c)
  else
    match c.offer value with
    | some c => (.ok (), c)
    | none => (.error (.full value), c)

/-! ### Receiving -/

/-- Take the value of the oldest of the given waiters whose send is pending. -/
def takeFrom (c : Channel α) : List Nat → Option α × Channel α
  | [] => (none, { c with senders := [] })
  | w :: rest =>
    match c.sendSlots[w]? with
    | some (.pending value) =>
      (some value, { c with senders := rest, sendSlots := c.sendSlots.set w .taken })
    | _ => takeFrom c rest

/-- Take the value of the oldest parked sender. -/
def takeParked (c : Channel α) : Option α × Channel α := c.takeFrom c.senders

/-- Take the oldest value: from the buffer, which the oldest parked sender then refills, or straight
from a parked sender. -/
def dequeue (c : Channel α) : Option α × Channel α :=
  match c.buffer with
  | value :: rest =>
    match { c with buffer := rest }.takeParked with
    | (some refill, c) => (some value, { c with buffer := c.buffer ++ [refill] })
    | (none, c) => (some value, c)
  | [] => c.takeParked

/-- Receive a value, parking when there is none and one may still come. -/
def receive (c : Channel α) : RecvResult α × Channel α :=
  match c.dequeue with
  | (some value, c) => (.got value, c)
  | (none, c) =>
    if c.closed then (.ended, c)
    else
      let w := c.recvSlots.length
      (.parked w,
        { c with receivers := c.receivers ++ [w], recvSlots := c.recvSlots ++ [.waiting] })

/-- Receive a value if there is one. -/
def tryReceive (c : Channel α) : Except TryRecvError α × Channel α :=
  match c.dequeue with
  | (some value, c) => (.ok value, c)
  | (none, c) => (.error (if c.closed then .closed else .empty), c)

/-! ### Closing -/

/-- Close the channel: parked receivers see the end of the stream, parked senders are refused. -/
def close (c : Channel α) : Channel α :=
  if c.closed then c
  else
    { c with
      closed := true
      receivers := []
      senders := []
      recvSlots := c.receivers.foldl (fun slots w => slots.set w .closed) c.recvSlots
      sendSlots := c.senders.foldl (fun slots w => slots.set w .closed) c.sendSlots }

/-! ### Observation -/

/-- How the parked send stands: its result, or `none` while it is parked. -/
def sendOutcome (c : Channel α) (waiter : Nat) : Option SendResult :=
  match c.sendSlots[waiter]? with
  | some .taken => some .sent
  | some .closed => some .refused
  | _ => none

/-- How a send with the given result stands now: a parked one may have ended since. -/
def sendStands (c : Channel α) : SendResult → SendResult
  | .parked w => (c.sendOutcome w).getD (.parked w)
  | r => r

/-- How the parked receive stands: its result, or `none` while it is parked. -/
def recvOutcome (c : Channel α) (waiter : Nat) : Option (RecvResult α) :=
  match c.recvSlots[waiter]? with
  | some (.ready value) => some (.got value)
  | some .closed => some .ended
  | _ => none

/-- The channel on one line. -/
def describe (c : Channel α) : String :=
  Text.record "Channel" [("capacity", toString c.capacity), ("len", toString c.buffer.length),
    ("closed", toString c.closed)]

end Channel

end ManagedHost
