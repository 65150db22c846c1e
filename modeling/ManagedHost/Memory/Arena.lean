import ManagedHost.Memory.Size
import ManagedHost.Memory.Store

/-!
# Arenas

An arena is one contiguous region of memory carved up by a cursor that only moves forward.  Pieces
are never returned one by one: `Arena.reset` rewinds the cursor to the start.

Where a region lies is for the `System` to say.  It places each reservation, given those still
held, and refuses one whose rounded size is above its limit.
-/

namespace ManagedHost

/-- A range `[base, base + capacity)` of addresses. -/
structure Region where
  base : Nat
  capacity : Nat
deriving DecidableEq, Inhabited

/-- The first address after the region. -/
def Region.stop (r : Region) : Nat := r.base + r.capacity

/-- The provider of memory. -/
structure System where
  /-- A reservation of more bytes than this is refused. -/
  limit : Nat
  /-- The base address of a new region, given the regions still held and the size wanted. -/
  place : List Region → Nat → Nat

namespace System

/-- The granularity at which `sequential` places regions. -/
def pageSize : Nat := 65536

/-- The first multiple of the page size after `start` and all of the regions. -/
def firstFree (start : Nat) (held : List Region) : Nat :=
  (held.foldl (fun top r => max top r.stop) start / pageSize + 1) * pageSize

/-- A system that places every region after `start` and all others, at a multiple of the page
size. -/
def sequential (limit : Nat := Nat.pow 2 30) (start : Nat := 0) : System where
  limit := limit
  place held _ := firstFree start held

end System

/-- A region and how much of it has been handed out. -/
structure Arena where
  base : Nat
  capacity : Nat
  /-- Offset of the first byte not handed out. -/
  cursor : Nat := 0
deriving DecidableEq, Inhabited

namespace Arena

/-- The region that the arena covers. -/
def region (a : Arena) : Region := ⟨a.base, a.capacity⟩

/-- Reserve an arena of `capacity` bytes, rounded up to `arenaAlign` and at least one unit. -/
def reserve (sys : System) (held : List Region) (capacity : Nat) : Except AllocError Arena :=
  match Size.alignUp (max capacity 1) arenaAlign with
  | none => .error (.outOfMemory capacity)
  | some rounded =>
    if rounded > Size.maxReservation - (arenaAlign - 1) then .error (.outOfMemory capacity)
    else if rounded > sys.limit then .error (.outOfMemory rounded)
    else .ok { base := sys.place held rounded, capacity := rounded }

/-- Bytes handed out since the last reset, padding included. -/
def used (a : Arena) : Nat := a.cursor

/-- Bytes after the cursor. -/
def remaining (a : Arena) : Nat := a.capacity - a.cursor

/-- Whether the address lies in the arena's region. -/
def contains (a : Arena) (addr : Nat) : Bool := a.base ≤ addr && addr < a.base + a.capacity

/-- Hand out `size` bytes at the first address at or after the cursor that is a multiple of
`align`, a power of two.  Returns the address and the arena with its cursor behind the piece, or
`none` when the piece does not fit. -/
def bump (a : Arena) (size align : Nat) : Option (Nat × Arena) := do
  let top ← Size.add? a.base a.cursor
  let start ← Size.alignUp top align
  let stop ← Size.add? (start - a.base) size
  if stop > a.capacity then none else some (start, { a with cursor := stop })

/-- `bump` with its precondition checked: an alignment that is no power of two is a fault. -/
def bumpChecked (a : Arena) (size align : Nat) : Except Fault (Option (Nat × Arena)) :=
  if Size.isPowerOfTwo align then .ok (a.bump size align) else .error .alignment

/-- The first arena of the list that satisfies `eligible` and has room hands out the piece; also
returns how many arenas were passed over. -/
def bumpFirst (eligible : Arena → Bool) (size align : Nat) :
    List Arena → Option (Nat × Nat × List Arena)
  | [] => none
  | a :: rest =>
    match if eligible a then a.bump size align else none with
    | some (addr, a') => some (addr, 0, a' :: rest)
    | none =>
      (bumpFirst eligible size align rest).map fun (addr, skipped, rest') =>
        (addr, skipped + 1, a :: rest')

/-- Rewind the cursor and zero the bytes that it had passed. -/
def reset (a : Arena) (bytes : Store) : Arena × Store :=
  ({ a with cursor := 0 }, bytes.clear a.base (a.base + a.cursor))

end Arena

end ManagedHost
