import ManagedHost.Memory.Arena

/-!
# Pools

A pool is a growing list of arenas of one size for memory that nobody collects.  A request is
served from the current block or a later one, and a block is added when none has room.  A request
that may not fit in a block gets a dedicated block of its own.  `Pool.reset` rewinds every block
and `Pool.free` gives them all back.
-/

namespace ManagedHost

/-- The block size of a pool that asks for none. -/
def defaultBlockSize : Nat := 65536

/-- Blocks of one size, dedicated blocks for oversized requests, and the bytes in them. -/
structure Pool where
  blocks : List Arena := []
  oversized : List Arena := []
  blockSize : Nat := defaultBlockSize
  /-- Index of the block that serves the next request. -/
  current : Nat := 0
  bytes : Store := {}
deriving DecidableEq, Inhabited

namespace Pool

/-- An empty pool; a block holds at least `arenaAlign` bytes. -/
def ofBlockSize (blockSize : Nat) : Pool := { blockSize := max blockSize arenaAlign }

/-- The regions that the pool holds. -/
def held (p : Pool) : List Region := (p.blocks ++ p.oversized).map Arena.region

/-- Bytes reserved in all blocks. -/
def size (p : Pool) : Nat := Size.total ((p.blocks ++ p.oversized).map Arena.capacity)

/-- Bytes handed out since the last reset, padding included. -/
def used (p : Pool) : Nat := Size.total ((p.blocks ++ p.oversized).map Arena.used)

/-- Number of blocks, dedicated ones included. -/
def blockCount (p : Pool) : Nat := p.blocks.length + p.oversized.length

/-- Reserve a zeroed arena of `capacity` bytes and hand out its first piece. -/
def openBlock (sys : System) (p : Pool) (capacity size align : Nat) :
    Except AllocError (Nat × Arena × Store) := do
  let fresh ← Arena.reserve sys p.held capacity
  match fresh.bump size align with
  | some (addr, a) => .ok (addr, a, p.bytes.clear fresh.base (fresh.base + fresh.capacity))
  | none => .error (.outOfMemory size)

/-- Serve a request that may not fit in a block: a rewound dedicated block that can hold it is
used again, otherwise one of `padded` bytes is added. -/
def allocOversized (sys : System) (p : Pool) (padded size align : Nat) :
    Except AllocError Nat × Pool :=
  match Arena.bumpFirst (fun a => a.used == 0) size align p.oversized with
  | some (addr, _, oversized) => (.ok addr, { p with oversized })
  | none =>
    match openBlock sys p padded size align with
    | .ok (addr, a, bytes) => (.ok addr, { p with oversized := p.oversized ++ [a], bytes })
    | .error e => (.error e, p)

/-- Serve a request that fits in a block, from the current block on.  Blocks found full on the way
are not looked at again before the next reset. -/
def allocInBlocks (sys : System) (p : Pool) (size align : Nat) : Except AllocError Nat × Pool :=
  match Arena.bumpFirst (fun _ => true) size align (p.blocks.drop p.current) with
  | some (addr, skipped, rest) =>
    (.ok addr,
      { p with blocks := p.blocks.take p.current ++ rest, current := p.current + skipped })
  | none =>
    match openBlock sys p p.blockSize size align with
    | .ok (addr, a, bytes) =>
      (.ok addr, { p with blocks := p.blocks ++ [a], current := p.blocks.length, bytes })
    | .error e => (.error e, { p with current := max p.current p.blocks.length })

/-- The address of `size` fresh bytes at a multiple of `align`, and the pool afterwards.  A request
for no bytes takes one. -/
def alloc (sys : System) (p : Pool) (size align : Nat) : Except AllocError Nat × Pool :=
  if !Size.isPowerOfTwo align then (.error .alignment, p)
  else
    -- The worst padding for the alignment must fit in one block, too.
    match Size.add? (max size 1) (align - arenaAlign) with
    | none => (.error (.outOfMemory size), p)
    | some padded =>
      if padded > p.blockSize then allocOversized sys p padded (max size 1) align
      else allocInBlocks sys p (max size 1) align

/-- Rewind every block, zeroing what had been handed out. -/
def reset (p : Pool) : Pool :=
  let rewind (arenas : List Arena) (bytes : Store) : List Arena × Store :=
    arenas.foldr (fun a (done, m) => let (a', m') := a.reset m; (a' :: done, m')) ([], bytes)
  let (blocks, bytes) := rewind p.blocks p.bytes
  let (oversized, bytes) := rewind p.oversized bytes
  { p with blocks, oversized, bytes, current := 0 }

/-- Give all blocks back. -/
def free (p : Pool) : Pool := { p with blocks := [], oversized := [], current := 0 }

end Pool

end ManagedHost
