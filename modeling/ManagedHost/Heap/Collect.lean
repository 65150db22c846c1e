import ManagedHost.Heap.Basic
import ManagedHost.Heap.Pacing

/-!
# Collection cycles

A cycle marks the roots, scans gray objects until none is left, and sweeps: white objects give up
their blocks, all others turn white again.  Marking can be taken apart into single scans
(`scanNext`), with allocation and root changes in between.
-/

namespace ManagedHost

namespace Heap

/-! ### Marking -/

/-- Enter the marking phase and shade every root that denotes a live object. -/
def beginMarking (h : Heap) : Heap :=
  h.roots.foldl shade { h with phase := .marking }

/-- The words of the object that hold pointers and lie within its payload. -/
def scannedWords (o : Object) : List Nat := o.type.pointerWords.takeWhile (· < o.words)

/-- The non-null contents of the object's pointer words. -/
def children (h : Heap) (o : Object) : List Nat :=
  ((scannedWords o).map fun w => h.words.get (wordAddr o w)).filter (· != 0)

/-- Blacken a gray object and shade its children. -/
def scan (h : Heap) (addr : Nat) : Heap :=
  match h.find? addr with
  | some o =>
    if o.color = .gray then (h.children o).foldl shade (h.paint addr .black) else h
  | none => h

/-- Take the oldest object off the gray queue and scan it. -/
def scanNext (h : Heap) : Heap :=
  match h.gray with
  | [] => h
  | addr :: rest => { h with gray := rest }.scan addr

/-- Number of white objects. -/
def whites (h : Heap) : Nat := h.objects.countP (·.color = .white)

/-- Scan up to `fuel` objects, until the gray queue is empty. -/
def scanUpTo : Nat → Heap → Heap
  | 0, h => h
  | fuel + 1, h => if h.gray.isEmpty then h else scanUpTo fuel h.scanNext

/-- Scan until the gray queue is empty.  Every scan takes one entry off the queue and turns white
each object that it adds, so the queue's length and the white objects bound the number of scans. -/
def drain (h : Heap) : Heap := scanUpTo (h.gray.length + h.whites) h

/-! ### Sweeping -/

/-- Put the blocks of white objects in front of the free list, one after the other as the sweep
comes to them, and turn all other objects white. -/
def sweep (h : Heap) : Heap :=
  let dead := h.objects.filter (·.color = .white)
  let survivors := h.objects.filter (·.color ≠ .white)
  let freed := Size.total (dead.map Object.footprint)
  { h with
    objects := survivors.map fun o => { o with color := .white }
    free := (h.order.visited h.collections (dead.map Object.toFree)).reverse ++ h.free
    freeBlocks := h.freeBlocks + dead.length
    used := h.used - freed
    totalFreed := h.totalFreed + freed
    phase := .idle }

/-! ### Pacing -/

/-- The trigger for `used` live bytes: the bytes times the ratio, saturating at the machine word,
and never below the configured least trigger. -/
def paced (h : Heap) (used : Nat) (ratio : Float) : Nat :=
  max (used.toUInt64.toFloat * ratio).toUInt64.toNat h.config.initialTrigger

/-- Whether a cycle would run because usage has crossed the trigger. -/
def shouldCollect (h : Heap) : Bool := h.enabled && h.used > h.trigger

/-- Override the trigger until the next cycle. -/
def setTrigger (h : Heap) (bytes : Nat) : Heap := { h with trigger := bytes }

/-- Set the growth ratio in percent and derive the trigger from the present usage.  Zero is
ignored. -/
def setPercent (h : Heap) (percent : Nat) : Heap :=
  if percent = 0 then h
  else
    let ratio := percent.toUInt64.toFloat / 100.0
    { h with growthRatio := ratio, trigger := h.paced h.used ratio }

/-! ### Cycles -/

/-- Enter the pause in the log: `root` for the roots, `final` for the sweep. -/
def PauseLog.record (log : PauseLog) (maxPause root final : Duration) : PauseLog :=
  let pause := Duration.ofParts (root.secs + final.secs) (root.nanos + final.nanos)
  let history := if log.history.length = pauseHistoryLength then log.history.tail else log.history
  { last := pause
    total := .ofParts (log.total.secs + pause.secs) (log.total.nanos + pause.nanos)
    history := history ++ [pause]
    long := log.long + (if root.longer maxPause then 1 else 0)
      + (if final.longer maxPause then 1 else 0) }

/-- Finish a cycle: scan what is left, sweep, and set the next trigger.  `root` and `final` are the
lengths of the two pauses. -/
def finishCycle (h : Heap) (root final : Duration) : Heap :=
  let h := h.drain.sweep
  { h with
    trigger := h.paced h.used h.growthRatio
    pauses := PauseLog.record h.pauses h.config.maxPause root final
    collections := h.collections + 1 }

/-- Run one cycle, unless the heap is disabled or in the middle of one.  Also returns whether a
cycle ran. -/
def collect (h : Heap) (root final : Duration) : Bool × Heap :=
  if h.enabled ∧ h.phase = .idle then (true, h.beginMarking.drain.finishCycle root final)
  else (false, h)

/-- What the background monitor does when it looks at the heap. -/
def monitor (h : Heap) (root final : Duration) : Heap :=
  if h.monitored && h.shouldCollect then (h.collect root final).2 else h

/-- Stop the background monitor. -/
def stopMonitor (h : Heap) : Heap := { h with monitored := false }

/-- Let the pacer look at the heap: after a new cycle it takes note of the pause and sets the
trigger. -/
def repace (h : Heap) (p : Pacer) : Except Fault (Option Nat) × Pacer × Heap :=
  if !p.enabled || h.collections == p.seenCycles then (.ok none, p, h)
  else
    match { p with seenCycles := h.collections }.record h.pauses.last with
    | (.ok (some threshold), p) => (.ok (some threshold), p, h.setTrigger threshold)
    | (answer, p) => (answer, p, h)

end Heap

end ManagedHost
