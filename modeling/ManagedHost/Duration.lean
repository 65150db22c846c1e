import ManagedHost.Fault

/-!
# Durations

A span of time in whole seconds and nanoseconds, with the seconds in a machine word.  Arithmetic is
done limb by limb with carries, and an operation whose exact result does not fit is a fault.
-/

namespace ManagedHost

/-- A span of time; `nanos` stays below `Duration.nanosPerSec`. -/
structure Duration where
  secs : Nat
  nanos : Nat
deriving DecidableEq, Inhabited

namespace Duration

/-- Nanoseconds in a second. -/
def nanosPerSec : Nat := 1000000000

/-- Whole seconds of a duration lie below this number. -/
def secsLimit : Nat := Nat.pow 2 64

/-- No time at all. -/
def zero : Duration := ⟨0, 0⟩

/-- The duration of `secs` seconds and `nanos` nanoseconds, the latter of any size. -/
def ofParts (secs nanos : Nat) : Duration := ⟨secs + nanos / nanosPerSec, nanos % nanosPerSec⟩

/-- `ofParts` with its precondition checked: too many seconds are a fault. -/
def ofPartsChecked (secs nanos : Nat) : Except Fault Duration :=
  if secs + nanos / nanosPerSec < secsLimit then .ok (ofParts secs nanos)
  else .error .durationParts

/-- The duration of `ms` milliseconds. -/
def ofMillis (ms : Nat) : Duration := ⟨ms / 1000, ms % 1000 * 1000000⟩

/-- The length in nanoseconds. -/
def toNanos (d : Duration) : Nat := d.secs * nanosPerSec + d.nanos

/-- The length in whole milliseconds. -/
def toMillis (d : Duration) : Nat := d.secs * 1000 + d.nanos / 1000000

/-- Whether `a` is longer than `b`. -/
def longer (a b : Duration) : Bool := a.secs > b.secs || (a.secs == b.secs && a.nanos > b.nanos)

/-- The sum of two durations, carrying from the nanoseconds into the seconds. -/
def add (a b : Duration) : Except Fault Duration :=
  let secs := a.secs + b.secs
  let nanos := a.nanos + b.nanos
  if secs ≥ secsLimit then .error .durationSum
  else if nanos < nanosPerSec then .ok ⟨secs, nanos⟩
  else if secs + 1 ≥ secsLimit then .error .durationSum
  else .ok ⟨secs + 1, nanos - nanosPerSec⟩

/-- A whole multiple of a duration. -/
def scale (d : Duration) (factor : Nat) : Except Fault Duration :=
  let nanos := d.nanos * factor
  let secs := d.secs * factor
  if secs ≥ secsLimit then .error .durationScale
  else if secs + nanos / nanosPerSec ≥ secsLimit then .error .durationScale
  else .ok ⟨secs + nanos / nanosPerSec, nanos % nanosPerSec⟩

/-- A duration divided by a positive whole number, rounded down. -/
def divide (d : Duration) (divisor : Nat) : Duration :=
  ⟨d.secs / divisor,
    d.nanos / divisor + (d.secs % divisor * nanosPerSec + d.nanos % divisor) / divisor⟩

/-- The digits of `n` below one, `width` of them, without trailing zeros. -/
def fraction (n width : Nat) : String :=
  let digits := (Nat.toDigits 10 n).reverse
  let padded := digits ++ List.replicate (width - digits.length) '0'
  let kept := (padded.dropWhile (· == '0')).reverse
  if kept.isEmpty then "" else "." ++ String.ofList kept

/-- The duration in the largest unit that it fills, as a decimal. -/
def describe (d : Duration) : String :=
  if d.secs > 0 then toString d.secs ++ fraction d.nanos 9 ++ "s"
  else if d.nanos ≥ 1000000 then
    toString (d.nanos / 1000000) ++ fraction (d.nanos % 1000000) 6 ++ "ms"
  else if d.nanos ≥ 1000 then toString (d.nanos / 1000) ++ fraction (d.nanos % 1000) 3 ++ "µs"
  else toString d.nanos ++ "ns"

end Duration

end ManagedHost
