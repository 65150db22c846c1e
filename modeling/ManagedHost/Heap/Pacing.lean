import ManagedHost.Duration
import ManagedHost.Memory.Size

/-!
# Adaptive pacing

A pacer watches the pauses of a collector and moves a collection threshold: up by a tenth while the
moving average of the pauses is above the target, down by a twentieth otherwise.
-/

namespace ManagedHost

/-- The threshold of a pacer that is given none. -/
def defaultThreshold : Nat := 10 * 1024 * 1024

/-- What a pacer has seen and where its threshold stands. -/
structure Pacer where
  enabled : Bool := true
  target : Duration := .ofMillis 10
  /-- The last pause recorded. -/
  last : Duration := .zero
  /-- The moving average of the pauses. -/
  average : Duration := .zero
  /-- How many pauses were recorded. -/
  collections : Nat := 0
  threshold : Nat := defaultThreshold
  /-- How many cycles the collector had run when the pacer last looked. -/
  seenCycles : Nat := 0
deriving DecidableEq, Inhabited

namespace Pacer

/-- The moving average after one more pause: nine parts of the old average, one of the pause. -/
def nextAverage (average pause : Duration) : Except Fault Duration := do
  let weighted ← average.scale 9
  let sum ← weighted.add pause
  return sum.divide 10

/-- `percent` percent of the threshold, rounded down; the product must fit in a machine word. -/
def adjust (threshold percent : Nat) : Except Fault Nat :=
  if threshold * percent < Size.limit then .ok (threshold * percent / 100)
  else .error .multiplyOverflow

/-- Take note of a pause and return the new threshold, or `none` when the pacer is off.  What is
computed before a fault stays recorded. -/
def record (p : Pacer) (pause : Duration) : Except Fault (Option Nat) × Pacer :=
  if !p.enabled then (.ok none, p)
  else
    let p := { p with collections := p.collections + 1, last := pause }
    match nextAverage p.average pause with
    | .error fault => (.error fault, p)
    | .ok average =>
      let p := { p with average }
      match adjust p.threshold (if average.longer p.target then 110 else 95) with
      | .error fault => (.error fault, p)
      | .ok threshold => (.ok (some threshold), { p with threshold })

end Pacer

end ManagedHost
