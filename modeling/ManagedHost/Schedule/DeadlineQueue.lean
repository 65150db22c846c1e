import ManagedHost.Schedule.Pile

/-!
# Deadline queues

A priority queue of tasks with deadlines.  The earliest deadline comes first, then the highest
priority, then the earliest push.
-/

namespace ManagedHost

/-- A task that waits for its deadline. -/
structure Scheduled (τ : Type) where
  task : τ
  priority : Int
  /-- When the task is due. -/
  deadline : Nat
  /-- How many entries were pushed before this one. -/
  seq : Nat
deriving DecidableEq, Inhabited

namespace Scheduled

variable {τ : Type}

/-- The order of entries: the greater of two is served first. -/
def order (a b : Scheduled τ) : Ordering :=
  (compare b.deadline a.deadline).then
    ((compare a.priority b.priority).then (compare b.seq a.seq))

/-- Whether `a` is served before `b`. -/
def before (a b : Scheduled τ) : Bool := a.order b == .gt

end Scheduled

/-- The waiting entries in a pile, the one that is served first at the top. -/
structure DeadlineQueue (τ : Type) where
  pile : Pile (Scheduled τ) := .empty
  /-- How many entries were ever pushed. -/
  pushed : Nat := 0
deriving DecidableEq, Inhabited

namespace DeadlineQueue

variable {τ : Type}

/-- The waiting entries, in the order in which they stand in the pile. -/
def entries (q : DeadlineQueue τ) : List (Scheduled τ) := q.pile.toList

/-- Number of entries. -/
def length (q : DeadlineQueue τ) : Nat := q.entries.length

/-- Add a task. -/
def push (q : DeadlineQueue τ) (task : τ) (priority : Int) (deadline : Nat) : DeadlineQueue τ :=
  { pile := q.pile.push Scheduled.before ⟨task, priority, deadline, q.pushed⟩ q.length
    pushed := q.pushed + 1 }

/-- Remove the entry that is served first. -/
def pop (q : DeadlineQueue τ) : Option (Scheduled τ × DeadlineQueue τ) :=
  (q.pile.pop Scheduled.before q.length).map fun (e, pile) => (e, { q with pile })

/-- The deadlines of the entries. -/
def deadlines (q : DeadlineQueue τ) : List Nat := q.entries.map Scheduled.deadline

/-- The deadline of the entry that is served first. -/
def nextDeadline (q : DeadlineQueue τ) : Option Nat := q.pile.top?.map Scheduled.deadline

/-- Remove the entry that is served first if it is due. -/
def popDue (q : DeadlineQueue τ) (now : Nat) : Option (Scheduled τ × DeadlineQueue τ) :=
  match q.nextDeadline with
  | some deadline => if deadline ≤ now then q.pop else none
  | none => none

/-- Up to `count` entries in the order in which they are served, and the queue without them. -/
def popMany (q : DeadlineQueue τ) : Nat → List (Scheduled τ) × DeadlineQueue τ
  | 0 => ([], q)
  | count + 1 =>
    match q.pop with
    | some (e, q) => let (rest, q) := q.popMany count; (e :: rest, q)
    | none => ([], q)

/-- Remove all entries, in the order in which they stand in the pile. -/
def drain (q : DeadlineQueue τ) : List (Scheduled τ) × DeadlineQueue τ :=
  (q.entries, { q with pile := .empty })

end DeadlineQueue

end ManagedHost
