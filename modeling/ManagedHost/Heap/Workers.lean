import ManagedHost.Heap.Collect

/-!
# Mark workers

The gray queue can be drained by several workers at once.  A worker goes round a loop: it counts
itself among the active workers, takes the oldest object off the queue, scans it, counts the scan
and counts itself out.  When it finds no object it counts itself out as well, and then it leaves if
it sees the queue empty and after that no worker active.  Otherwise it goes round once more, as a
scan that is under way may still put objects into the queue.

`Crew.step` is the next atomic step of one worker.  In which order the workers take their steps is
not determined: `Crew.run` takes them in any order it is given, with changes of the shared store by
others in between.  What a scan does is left open, too (`Scanner`); `Heap.scanner` scans the objects
of a heap.
-/

namespace ManagedHost

/-- How objects of type `α` are scanned, in atomic actions on a store that all share.  A scan that
is under way is described by a `κ`. -/
structure Scanner (σ α κ : Type) where
  /-- The scan of an object, before its first action. -/
  begin : α → κ
  /-- One action: the store after it, the objects that it puts into the queue, and what is left of
  the scan, if anything is. -/
  act : κ → σ → σ × List α × Option κ

/-- What a worker is about to do. -/
inductive Stage (α κ : Type) where
  /-- To count itself among the active workers. -/
  | enrolling
  /-- To take the oldest object off the queue. -/
  | fetching
  /-- To go on with the scan of an object. -/
  | scanning (object : α) (scan : κ)
  /-- To count the scan that has ended. -/
  | tallying
  /-- To count itself out, after a scan. -/
  | retiring
  /-- To count itself out, having found no object. -/
  | withdrawing
  /-- To look whether the queue is empty. -/
  | looking
  /-- To ask whether any worker is active, having seen the queue empty. -/
  | asking
  /-- Nothing any more: it has left the loop. -/
  | gone
deriving DecidableEq, Inhabited

/-- Whether the worker has left the loop. -/
def Stage.isGone {α κ : Type} : Stage α κ → Bool
  | .gone => true
  | _ => false

/-- What the workers share. -/
structure Shared (σ α : Type) where
  store : σ
  /-- The objects that wait for their scan, oldest first. -/
  queue : List α
  /-- How many workers count themselves as active. -/
  active : Nat := 0
  /-- How many scans were counted. -/
  scans : Nat := 0

/-- Workers with what they share. -/
structure Crew (σ α κ : Type) extends Shared σ α where
  stages : List (Stage α κ)

namespace Crew

variable {σ α κ : Type}

/-- What happens to an object in a step. -/
inductive Event (α : Type) where
  /-- It is put into the queue. -/
  | pushed (object : α)
  /-- It is taken off the queue. -/
  | popped (object : α)
  /-- Its scan ends. -/
  | scanned (object : α)
deriving DecidableEq, Inhabited

/-- A worker at the given stage takes its next step. -/
def advance (sc : Scanner σ α κ) (s : Shared σ α) :
    Stage α κ → List (Event α) × Shared σ α × Stage α κ
  | .enrolling => ([], { s with active := s.active + 1 }, .fetching)
  | .fetching =>
    match s.queue with
    | [] => ([], s, .withdrawing)
    | a :: rest => ([.popped a], { s with queue := rest }, .scanning a (sc.begin a))
  | .scanning a k =>
    let (store, objects, rest) := sc.act k s.store
    let s := { s with store, queue := s.queue ++ objects }
    match rest with
    | some k => (objects.map .pushed, s, .scanning a k)
    | none => (objects.map .pushed ++ [.scanned a], s, .tallying)
  | .tallying => ([], { s with scans := s.scans + 1 }, .retiring)
  | .retiring => ([], { s with active := s.active - 1 }, .enrolling)
  | .withdrawing => ([], { s with active := s.active - 1 }, .looking)
  | .looking => ([], s, if s.queue.isEmpty then .asking else .enrolling)
  | .asking => ([], s, if s.active = 0 then .gone else .enrolling)
  | .gone => ([], s, .gone)

/-- The worker with the given number takes its next step. -/
def step (sc : Scanner σ α κ) (worker : Nat) (c : Crew σ α κ) : List (Event α) × Crew σ α κ :=
  match c.stages[worker]? with
  | none => ([], c)
  | some stage =>
    let (events, shared, stage) := advance sc c.toShared stage
    (events, { toShared := shared, stages := c.stages.set worker stage })

/-- Who has the next turn. -/
inductive Turn (σ : Type) where
  | worker (number : Nat)
  /-- Somebody else, who changes the store and leaves the queue alone. -/
  | other (change : σ → σ)

/-- One turn. -/
def turn (sc : Scanner σ α κ) (c : Crew σ α κ) : Turn σ → List (Event α) × Crew σ α κ
  | .worker number => c.step sc number
  | .other change => ([], { c with store := change c.store })

/-- The turns one after the other: what happens in them, and the crew then. -/
def run (sc : Scanner σ α κ) : List (Turn σ) → Crew σ α κ → List (Event α) × Crew σ α κ
  | [], c => ([], c)
  | t :: turns, c =>
    let (events, c) := c.turn sc t
    let (more, c) := run sc turns c
    (events ++ more, c)

/-- The given number of workers, but at least one, before their first step. -/
def gather (workers : Nat) (store : σ) (queue : List α) : Crew σ α κ :=
  { store, queue, stages := List.replicate (max workers 1) .enrolling }

/-- Whether all workers have left the loop. -/
def allGone (c : Crew σ α κ) : Bool := c.stages.all Stage.isGone

end Crew

/-! ### The objects of a heap -/

namespace Heap

/-- What is left of the scan of an object in a heap.  The slots are the addresses of those of its
pointer words that were not loaded yet. -/
inductive Visit where
  /-- To blacken the object, if it is gray. -/
  | blackening (addr : Nat)
  /-- To load the next slot. -/
  | loading (slots : List Nat)
  /-- To shade the object at the address that was loaded. -/
  | shading (addr : Nat) (slots : List Nat)
  /-- To put the object that was shaded into the queue. -/
  | pushing (addr : Nat) (slots : List Nat)
deriving DecidableEq, Inhabited

/-- One atomic action of a scan. -/
def Visit.act (h : Heap) : Visit → Heap × List Nat × Option Visit
  | .blackening addr =>
    match h.find? addr with
    | some o =>
      if o.color = .gray then
        (h.paint addr .black, [], some (.loading ((scannedWords o).map (wordAddr o))))
      else (h, [], none)
    | none => (h, [], none)
  | .loading [] => (h, [], none)
  | .loading (slot :: slots) =>
    let addr := h.words.get slot
    (h, [], some (if addr = 0 then .loading slots else .shading addr slots))
  | .shading addr slots =>
    match h.find? addr with
    | some o =>
      if o.color = .white then (h.paint addr .gray, [], some (.pushing addr slots))
      else (h, [], some (.loading slots))
    | none => (h, [], some (.loading slots))
  | .pushing addr slots => (h, [addr], some (.loading slots))

/-- How workers scan the objects of a heap. -/
def scanner : Scanner Heap Nat Visit where
  begin := .blackening
  act visit h := visit.act h

/-- Workers for the gray queue of the heap. -/
def muster (h : Heap) (workers : Nat) : Crew Heap Nat Visit :=
  .gather workers { h with gray := [] } h.gray

end Heap

end ManagedHost
