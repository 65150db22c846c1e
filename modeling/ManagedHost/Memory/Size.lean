import ManagedHost.Fault

/-!
# Sizes and addresses

Sizes, offsets and addresses are natural numbers below `Size.limit = 2 ^ 64`.  Arithmetic on them
is checked: a sum that leaves the range is reported as `none`, never wrapped.
-/

namespace ManagedHost

namespace Size

/-- Sizes and addresses lie below this number. -/
def limit : Nat := Nat.pow 2 64

/-- A reservation never covers more than this many bytes, rounding to its alignment included. -/
def maxReservation : Nat := Nat.pow 2 63 - 1

/-- `a + b`, or `none` when the sum leaves the range of sizes. -/
def add? (a b : Nat) : Option Nat :=
  if a + b < limit then some (a + b) else none

/-- Clear the bits of `align - 1` in `size + (align - 1)`; for a power of two this is the least
multiple of `align` that is at least `size`.  `none` when the padded size leaves the range.
The alignment must not be zero. -/
def alignUp (size align : Nat) : Option Nat :=
  (add? size (align - 1)).map fun padded => padded - (padded &&& (align - 1))

/-- `alignUp` with its precondition checked: the alignment zero is a fault. -/
def alignUpChecked (size align : Nat) : Except Fault (Option Nat) :=
  if align = 0 then .error .subtractOverflow else .ok (alignUp size align)

/-- Why room for `count` items of `bytes` bytes each can never be reserved. -/
def itemsFault? (bytes count : Nat) : Option Fault :=
  if bytes * count > maxReservation then some .capacityOverflow else none

/-- The sum of the sizes. -/
def total (sizes : List Nat) : Nat := sizes.foldr (· + ·) 0

/-- Whether `n` is a power of two. -/
def isPowerOfTwo (n : Nat) : Bool := n != 0 && n &&& (n - 1) == 0

end Size

/-- The alignment of every arena and of every allocation that asks for none. -/
def arenaAlign : Nat := 16

/-- The number of bytes in a machine word. -/
def wordSize : Nat := 8

/-- Why a request for memory was refused. -/
inductive AllocError where
  /-- The system could not provide the memory. -/
  | outOfMemory (requested : Nat)
  /-- Growing the heap would exceed its configured limit. -/
  | heapLimit (requested limit : Nat)
  /-- The alignment cannot be satisfied. -/
  | alignment
deriving DecidableEq, Inhabited

/-- The name of the kind of error. -/
def AllocError.kind : AllocError → String
  | outOfMemory _ => "OutOfMemory"
  | heapLimit _ _ => "HeapLimit"
  | alignment => "AlignmentError"

/-- The text of an allocation error. -/
def AllocError.message : AllocError → String
  | outOfMemory requested => s!"out of memory: {requested} bytes requested"
  | heapLimit requested limit =>
    s!"heap limit exceeded: {requested} bytes requested, limit is {limit}"
  | alignment => "alignment error"

end ManagedHost
