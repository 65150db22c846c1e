import ManagedHost.Coroutine.Basic
import Mathlib.Data.List.Infix
import Mathlib.Logic.Function.Basic
import Mathlib.Tactic.SplitIfs

/-!
# A stream and its parties

Any number of callers yield into a stream, read from it and cancel it, while its producer ends when
it likes.  A `Session` is a stream in the middle of that: with the calls that have not returned, and
the `Event`s so far, the oldest first.

All that is done to the queue is done by whoever holds it.  Most calls take it, do all they have to
do and give it back, which is one move.  A yield is two: it takes the queue and looks whether the
stream was cancelled (`Session.enter`), and then puts its value in or goes to sleep
(`Session.commit`), and in between a cancellation can be signalled.  Whoever sleeps is woken by
notifications, some of which come only after the queue was given back (`Session.owed`).

What an event says has to be right for the events before it: `Answers`.
-/

namespace ManagedHost

namespace YieldStream

variable {α : Type}

/-! ### Yielding in two halves -/

/-- The second half of a yield, which has seen no cancellation. -/
def put (s : YieldStream α) (value : α) : YieldResult × YieldStream α :=
  if s.isFull then (.blocked, s) else (.yielded, { s with values := s.values ++ [value] })

theorem yield_eq_put (s : YieldStream α) (value : α) :
    s.yield value = if s.cancelled then (.refused .cancelled, s) else s.put value := rfl

/-- The queue is full exactly if it is as long as its bound. -/
theorem isFull_eq_false {s : YieldStream α} :
    s.isFull = false ↔ ∀ n, s.bound = some n → s.values.length < n := by
  unfold isFull
  cases s.bound with
  | none => simp
  | some n => simp

/-! ### Events -/

/-- How the producer of a stream ends. -/
inductive Ending where
  | returned (result : ProducerResult)
  | panicked (message : String)

/-- What waiting for the producer gives. -/
def Ending.result : Ending → ProducerResult
  | returned result => result
  | panicked message => .error (.panicked message)

/-- What happens at a stream. -/
inductive Event (α : Type) where
  /-- Cancellation was signalled. -/
  | signalled
  /-- The yield of a caller succeeded: its value is in the queue. -/
  | yielded (caller : Nat) (value : α)
  /-- The yield of a caller failed. -/
  | refused (caller : Nat) (value : α) (error : TaskError)
  /-- A caller consumed a value. -/
  | got (caller : Nat) (value : α)
  /-- A caller that does not wait found no value. -/
  | nothing (caller : Nat)
  /-- A caller was told that the stream has ended. -/
  | ended (caller : Nat)
  /-- The cancel of a caller returned. -/
  | cancelled (caller : Nat)
  /-- The producer ended. -/
  | finished (ending : Ending)
  /-- Somebody was told whether the stream is done. -/
  | polled (done : Bool)
  /-- Somebody was told the producer's result. -/
  | waited (result : ProducerResult)

namespace Event

/-- The value that entered the queue. -/
def yielded? : Event α → Option α
  | yielded _ value => some value
  | _ => none

/-- The value that was consumed. -/
def got? : Event α → Option α
  | got _ value => some value
  | _ => none

/-- The end of the producer. -/
def finished? : Event α → Option Ending
  | finished ending => some ending
  | _ => none

end Event

/-- The values whose yields succeeded, in that order. -/
def yieldedIn (trace : List (Event α)) : List α := trace.filterMap Event.yielded?

/-- The values consumed, in that order. -/
def consumedIn (trace : List (Event α)) : List α := trace.filterMap Event.got?

/-- How the producer ended. -/
def endingsIn (trace : List (Event α)) : List Ending := trace.filterMap Event.finished?

section Concat

variable (trace : List (Event α)) (e : Event α)

theorem yieldedIn_concat : yieldedIn (trace ++ [e]) = yieldedIn trace ++ e.yielded?.toList := by
  unfold yieldedIn
  rw [List.filterMap_append]
  cases h : e.yielded? <;> simp [h]

theorem consumedIn_concat : consumedIn (trace ++ [e]) = consumedIn trace ++ e.got?.toList := by
  unfold consumedIn
  rw [List.filterMap_append]
  cases h : e.got? <;> simp [h]

theorem endingsIn_concat : endingsIn (trace ++ [e]) = endingsIn trace ++ e.finished?.toList := by
  unfold endingsIn
  rw [List.filterMap_append]
  cases h : e.finished? <;> simp [h]

end Concat

/-- **The event is right after those before it**, at a stream with the given bound. -/
def Answers (bound : Option Nat) (before : List (Event α)) : Event α → Prop
  | .signalled => True
  -- no yield succeeds once a cancel has returned, and none into a full queue
  | .yielded _ _ => (∀ c, .cancelled c ∉ before) ∧
      ∀ n, bound = some n → (yieldedIn before).length < (consumedIn before).length + n
  | .refused _ _ error => error = .cancelled ∧ .signalled ∈ before
  -- values are consumed in the order in which they were yielded
  | .got _ value => consumedIn before ++ [value] <+: yieldedIn before
  | .nothing _ => consumedIn before = yieldedIn before
  | .ended _ => endingsIn before ≠ [] ∧ consumedIn before = yieldedIn before
  | .cancelled _ => .signalled ∈ before
  | .finished _ => endingsIn before = []
  | .polled done => done = true ↔ endingsIn before ≠ [] ∧ consumedIn before = yieldedIn before
  | .waited result => ∃ ending, endingsIn before = [ending] ∧ result = ending.result

/-- Each event of the trace is right after those before it. -/
def Explained (bound : Option Nat) (trace : List (Event α)) : Prop :=
  ∀ before e after, trace = before ++ e :: after → Answers bound before e

theorem Explained.concat {bound : Option Nat} {trace : List (Event α)} {e : Event α}
    (explained : Explained bound trace) (answers : Answers bound trace e) :
    Explained bound (trace ++ [e]) := by
  intro before e' after heq
  rcases List.eq_nil_or_concat after with rfl | ⟨after', last, rfl⟩
  · obtain ⟨rfl, hlast⟩ := List.append_inj' heq rfl
    obtain rfl := List.singleton_inj.mp hlast
    exact answers
  · rw [List.concat_eq_append, ← List.cons_append, ← List.append_assoc] at heq
    exact explained before e' after' (List.append_inj' heq rfl).1

/-! ### Sessions -/

/-- A stream, how its producer has ended, the result as it is published, and what has happened. -/
structure Account (α : Type) where
  stream : YieldStream α
  ending : Option Ending := none
  result : Option ProducerResult := none
  trace : List (Event α) := []

/-- A call that may have to wait, at least for the queue. -/
inductive Call (α : Type) where
  | yield (value : α)
  | next
  | cancel

/-- A call that has not returned and does not hold the queue. -/
structure Pending (α : Type) where
  call : Call α
  asleep : Bool := false

/-- A stream and the parties at it. -/
structure Session (α : Type) extends Account α where
  /-- The call that each caller is in. -/
  pending : Nat → Option (Pending α) := fun _ => none
  /-- The caller that holds the queue to put its value in, having seen no cancellation. -/
  holder : Option (Nat × α) := none
  /-- How many notifications are still to come. -/
  owed : Nat := 0

/-- A move in a session. -/
inductive Move (α : Type) where
  /-- A caller makes a call, unless it is in one. -/
  | begin (caller : Nat) (call : Call α)
  /-- The call of a caller that is awake takes the queue, if that is free. -/
  | enter (caller : Nat)
  /-- The yield that holds the queue goes on. -/
  | commit
  /-- A caller takes a value without waiting. -/
  | tryNext (caller : Nat)
  /-- A notification that is owed wakes everybody. -/
  | notify
  /-- A caller wakes up by itself. -/
  | wake (caller : Nat)
  /-- Cancellation is signalled, without a word to those asleep. -/
  | signal
  /-- The producer ends. -/
  | finish (ending : Ending)
  /-- The producer's result is published. -/
  | publish
  /-- Somebody asks whether the stream is done. -/
  | poll
  /-- Somebody who waits for the producer looks for its result. -/
  | wait

/-- Enter an event. -/
def Account.note (k : Account α) (e : Event α) : Account α := { k with trace := k.trace ++ [e] }

namespace Session

/-- The session at the start of a coroutine. -/
def start (capacity : Option Nat) : Session α := { stream := .ofCapacity capacity }

/-- Enter an event. -/
def note (s : Session α) (e : Event α) : Session α := { s with toAccount := s.toAccount.note e }

/-- Let a caller be in a call, or in none. -/
def place (s : Session α) (c : Nat) (p : Option (Pending α)) : Session α :=
  { s with pending := Function.update s.pending c p }

/-- Wake everybody. -/
def wakeAll (s : Session α) : Session α :=
  { s with pending := fun c => (s.pending c).map fun p => { p with asleep := false } }

/-- Signal the cancellation. -/
def signal (s : Session α) : Session α := { s with stream := s.stream.cancel }.note .signalled

/-- Make a call.  A cancel signals the cancellation before it takes the queue. -/
def begin (s : Session α) (c : Nat) (call : Call α) : Session α :=
  if (s.pending c).isSome || s.holder.any (·.1 == c) then s
  else
    match call with
    | .cancel => s.signal.place c (some ⟨.cancel, false⟩)
    | call => s.place c (some ⟨call, false⟩)

/-- The first half of a yield. -/
def enterYield (s : Session α) (c : Nat) (value : α) : Session α :=
  if s.stream.cancelled then (s.place c none).note (.refused c value .cancelled)
  else { s.place c none with holder := some (c, value) }

/-- A blocking read: it consumes a value, sees the end of the stream, or goes to sleep. -/
def enterNext (s : Session α) (c : Nat) : Session α :=
  match s.stream.pop with
  | (.got value, stream) => ({ s with stream }.place c none).wakeAll.note (.got c value)
  | (.ended, _) => (s.place c none).note (.ended c)
  | (.blocked, _) => s.place c (some ⟨.next, true⟩)

/-- A cancel has the queue, wakes everybody and returns. -/
def enterCancel (s : Session α) (c : Nat) : Session α :=
  (s.place c none).wakeAll.note (.cancelled c)

/-- Let the call of a caller take the queue. -/
def enter (s : Session α) (c : Nat) : Session α :=
  match s.holder, s.pending c with
  | none, some ⟨.yield value, false⟩ => s.enterYield c value
  | none, some ⟨.next, false⟩ => s.enterNext c
  | none, some ⟨.cancel, false⟩ => s.enterCancel c
  | _, _ => s

/-- The second half of a yield: the value enters the queue, or the caller goes to sleep. -/
def commit (s : Session α) : Session α :=
  match s.holder with
  | none => s
  | some (c, value) =>
    match s.stream.put value with
    | (.yielded, stream) => { s with stream, holder := none }.wakeAll.note (.yielded c value)
    | _ => { s with holder := none }.place c (some ⟨.yield value, true⟩)

/-- Take a value without waiting.  The notification comes when the queue was given back. -/
def tryNext (s : Session α) (c : Nat) : Session α :=
  match s.stream.tryPop with
  | (some value, stream) => { s with stream, owed := s.owed + 1 }.note (.got c value)
  | (none, _) => s.note (.nothing c)

/-- Give a notification that is owed. -/
def notify (s : Session α) : Session α :=
  if s.owed = 0 then s else { s with owed := s.owed - 1 }.wakeAll

/-- End the producer.  The notification comes when the queue was given back. -/
def finish (s : Session α) (ending : Ending) : Session α :=
  if s.ending.isSome then s
  else { s with stream := s.stream.finish, ending := some ending, owed := s.owed + 1 }.note
    (.finished ending)

/-- Ask for the producer's result. -/
def wait (s : Session α) : Session α :=
  match s.result with
  | some result => s.note (.waited result)
  | none => s

/-- One move.  What needs the queue cannot happen while a yield holds it. -/
def step (s : Session α) : Move α → Session α
  | .begin c call => s.begin c call
  | .enter c => s.enter c
  | .commit => s.commit
  | .tryNext c => if s.holder.isSome then s else s.tryNext c
  | .notify => s.notify
  | .wake c => s.place c ((s.pending c).map fun p => { p with asleep := false })
  | .signal => s.signal
  | .finish ending => if s.holder.isSome then s else s.finish ending
  | .publish => { s with result := s.ending.map Ending.result }
  | .poll => if s.holder.isSome then s else s.note (.polled s.stream.isFinished)
  | .wait => s.wait

/-! What a move comes to, where it is known what the stream answers. -/

section Answered

variable {s : Session α} {c : Nat} {v : α} {stream : YieldStream α}

theorem enterNext_got (h : s.stream.pop = (.got v, stream)) :
    s.enterNext c = ({ s with stream }.place c none).wakeAll.note (.got c v) := by
  unfold enterNext
  rw [h]

theorem enterNext_ended (h : s.stream.pop = (.ended, stream)) :
    s.enterNext c = (s.place c none).note (.ended c) := by
  unfold enterNext
  rw [h]

theorem tryNext_some (h : s.stream.tryPop = (some v, stream)) :
    s.tryNext c = { s with stream, owed := s.owed + 1 }.note (.got c v) := by
  unfold tryNext
  rw [h]

theorem tryNext_none (h : s.stream.tryPop = (none, stream)) :
    s.tryNext c = s.note (.nothing c) := by
  unfold tryNext
  rw [h]

theorem commit_yielded (hholder : s.holder = some (c, v))
    (h : s.stream.put v = (.yielded, stream)) :
    s.commit = { s with stream, holder := none }.wakeAll.note (.yielded c v) := by
  unfold commit
  rw [hholder]
  dsimp only
  rw [h]

end Answered

/-- Moves one after the other. -/
def run (s : Session α) (moves : List (Move α)) : Session α := moves.foldl step s

theorem run_append (s : Session α) (moves more : List (Move α)) :
    s.run (moves ++ more) = (s.run moves).run more := List.foldl_append

end Session

end YieldStream

end ManagedHost
