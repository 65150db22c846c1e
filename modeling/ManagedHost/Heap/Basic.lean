import ManagedHost.Duration
import ManagedHost.Heap.ObjectType
import ManagedHost.Memory.Arena
import ManagedHost.Number.Binary64
import ManagedHost.Text.Record

/-!
# The collected heap

A heap is a growing list of arenas cut into blocks, each a header of `headerSize` bytes followed by
a payload.  A block belongs either to a live object or to the free list.  Objects are named by the
address of their payload; the words of all payloads lie in one store, keyed by address.

The heap goes through collection cycles in three phases.  While it is `marking`, an object is white
until it is found, gray while it waits in the gray queue, and black once its pointers have been
followed.
-/

namespace ManagedHost

/-- Bytes of a block before the payload. -/
def headerSize : Nat := 32

/-- How far marking has come with an object. -/
inductive Color where
  | white
  | gray
  | black
deriving DecidableEq, Inhabited

/-- The color with the given code; an unknown code is white. -/
def Color.ofCode : Nat → Color
  | 1 => gray
  | 2 => black
  | _ => white

/-- The name of a color. -/
def Color.name : Color → String
  | white => "White"
  | gray => "Gray"
  | black => "Black"

/-- A live object. -/
structure Object where
  /-- Address of the payload. -/
  addr : Nat
  /-- Size of the payload in bytes. -/
  capacity : Nat
  type : ObjectType
  color : Color
deriving DecidableEq, Inhabited

/-- A block on the free list. -/
structure FreeBlock where
  /-- Address of the payload. -/
  addr : Nat
  /-- Size of the payload in bytes. -/
  capacity : Nat
deriving DecidableEq, Inhabited

/-- Bytes that the object takes in its arena. -/
def Object.footprint (o : Object) : Nat := headerSize + o.capacity

/-- Bytes that the block takes in its arena. -/
def FreeBlock.footprint (b : FreeBlock) : Nat := headerSize + b.capacity

/-- Number of words in the object's payload. -/
def Object.words (o : Object) : Nat := o.capacity / wordSize

/-- The object's block once the object is gone. -/
def Object.toFree (o : Object) : FreeBlock := ⟨o.addr, o.capacity⟩

/-- Where a heap is in its collection cycle. -/
inductive Phase where
  | idle
  | marking
  | sweeping
deriving DecidableEq, Inhabited

/-- The name of a phase. -/
def Phase.name : Phase → String
  | idle => "Idle"
  | marking => "Marking"
  | sweeping => "Sweeping"

/-- The orders in which sweeps come to the blocks that they free, one for each cycle. -/
structure SweepOrder where
  visited : Nat → List FreeBlock → List FreeBlock
  perm : ∀ cycle blocks, (visited cycle blocks).Perm blocks

namespace SweepOrder

/-- Every sweep goes by the list of the objects. -/
def listed : SweepOrder := ⟨fun _ blocks => blocks, fun _ blocks => .refl blocks⟩

theorem mem_visited (order : SweepOrder) (cycle : Nat) {blocks : List FreeBlock} {b : FreeBlock} :
    b ∈ order.visited cycle blocks ↔ b ∈ blocks :=
  (order.perm cycle blocks).mem_iff

end SweepOrder

/-- How a heap grows and when it is collected. -/
structure HeapConfig where
  /-- Capacity of each arena that the heap grows by. -/
  arenaSize : Nat := 65536
  /-- The trigger before the first cycle, and the least trigger after it. -/
  initialTrigger : Nat := 4194304
  /-- The trigger after a cycle is the live bytes times this ratio. -/
  growthRatio : Binary64 := .ofInt 2
  /-- Limit on the bytes reserved in arenas. -/
  maxHeapSize : Nat := 1073741824
  /-- Pauses longer than this are counted. -/
  maxPause : Duration := .ofMillis 10
  /-- Number of workers that mark; `none` takes one per processor. -/
  markWorkers : Option Nat := none
  /-- How often the background monitor looks at the heap. -/
  monitorInterval : Duration := .ofMillis 100
  /-- Whether a background monitor runs cycles. -/
  background : Bool := true

/-- How many pauses a heap remembers. -/
def pauseHistoryLength : Nat := 256

/-- The pauses of past cycles. -/
structure PauseLog where
  last : Duration := .zero
  /-- All pauses together. -/
  total : Duration := .zero
  /-- The latest pauses, oldest first. -/
  history : List Duration := []
  /-- How many pauses were longer than the configured maximum. -/
  long : Nat := 0
deriving DecidableEq, Inhabited

/-- A collected heap. -/
structure Heap where
  config : HeapConfig
  arenas : List Arena := []
  /-- The live objects, newest first. -/
  objects : List Object := []
  /-- The blocks that await reuse, in the order in which they are tried. -/
  free : List FreeBlock := []
  /-- Addresses registered as roots, without repetition. -/
  roots : List Nat := []
  /-- Addresses of objects that were shaded gray and not scanned yet, oldest first. -/
  gray : List Nat := []
  /-- The words of the payloads. -/
  words : Store := {}
  phase : Phase := .idle
  enabled : Bool := true
  /-- Whether the background monitor is running. -/
  monitored : Bool := false
  /-- Bytes reserved in arenas. -/
  size : Nat := 0
  /-- Bytes taken by live objects, headers included. -/
  used : Nat := 0
  /-- Usage above this many bytes asks for a cycle. -/
  trigger : Nat
  growthRatio : Float
  /-- Number of cycles completed. -/
  collections : Nat := 0
  /-- Number of blocks on the free list. -/
  freeBlocks : Nat := 0
  /-- Bytes ever allocated, headers included. -/
  totalAllocated : Nat := 0
  /-- Bytes ever reclaimed, headers included. -/
  totalFreed : Nat := 0
  pauses : PauseLog := {}
  /-- The objects are kept in no order, so it is open in which order a sweep comes to them. -/
  order : SweepOrder := .listed

namespace Heap

/-- An empty heap. -/
def ofConfig (config : HeapConfig) (order : SweepOrder := .listed) : Heap :=
  { config, order, trigger := config.initialTrigger, growthRatio := config.growthRatio.toFloat
    monitored := config.background }

/-- The heap on one line. -/
def describe (h : Heap) : String :=
  Text.record "GarbageCollector" [("state", h.phase.name), ("heap_size", toString h.size),
    ("heap_used", toString h.used), ("enabled", toString h.enabled)]

/-- The live object at `addr`. -/
def find? (h : Heap) (addr : Nat) : Option Object := h.objects.find? (·.addr == addr)

/-- Whether `addr` denotes a live object. -/
def isLive (h : Heap) (addr : Nat) : Bool := (h.find? addr).isSome

/-- The regions of the heap's arenas. -/
def held (h : Heap) : List Region := h.arenas.map Arena.region

/-- Give the object at `addr` another color. -/
def paint (h : Heap) (addr : Nat) (color : Color) : Heap :=
  { h with objects := h.objects.map fun o => if o.addr = addr then { o with color } else o }

/-- Shade the object at `addr`: a white one turns gray and joins the gray queue. -/
def shade (h : Heap) (addr : Nat) : Heap :=
  match h.find? addr with
  | some o =>
    if o.color = .white then { h.paint addr .gray with gray := h.gray ++ [addr] } else h
  | none => h

/-! ### Roots -/

/-- Register `addr` as a root.  While marking, its object is shaded at once. -/
def addRoot (h : Heap) (addr : Nat) : Heap :=
  let h := { h with roots := h.roots.insert addr }
  if h.phase = .marking then h.shade addr else h

/-- Forget the root `addr`. -/
def removeRoot (h : Heap) (addr : Nat) : Heap := { h with roots := h.roots.erase addr }

/-! ### Allocation -/

/-- Take the first free block of at least `size` bytes, leaving the others in order. -/
def takeFirstFit (size : Nat) : List FreeBlock → Option (FreeBlock × List FreeBlock)
  | [] => none
  | b :: rest =>
    if b.capacity ≥ size then some (b, rest)
    else (takeFirstFit size rest).map fun (found, rest') => (found, b :: rest')

/-- Cut `total` bytes from the first arena with room, or from a new arena.  A new arena has at least
`total` bytes, is zeroed, and must keep the heap within its limit. -/
def carve (sys : System) (h : Heap) (total : Nat) : Except AllocError (Nat × Heap) :=
  match Arena.bumpFirst (fun _ => true) total arenaAlign h.arenas with
  | some (start, _, arenas) => .ok (start, { h with arenas })
  | none =>
    let capacity := max h.config.arenaSize total
    let limit := h.config.maxHeapSize
    match Size.add? h.size capacity with
    | none => .error (.heapLimit total limit)
    | some grown =>
      if grown > limit then .error (.heapLimit total limit)
      else do
        let fresh ← Arena.reserve sys h.held capacity
        match fresh.bump total arenaAlign with
        | none => .error (.outOfMemory total)
        | some (start, a) =>
          .ok (start, { h with
            arenas := h.arenas ++ [a]
            size := h.size + a.capacity
            words := h.words.clear a.base (a.base + a.capacity) })

/-- A block for a payload of `size` bytes: a free block that is large enough, wiped, or a newly cut
one.  Returns the payload's address and capacity. -/
def takeBlock (sys : System) (h : Heap) (size total : Nat) :
    Except AllocError (FreeBlock × Heap) :=
  match takeFirstFit size h.free with
  | some (b, free) =>
    .ok (b, { h with
      free, freeBlocks := h.freeBlocks - 1, words := h.words.clear b.addr (b.addr + b.capacity) })
  | none => do
    let (start, h) ← h.carve sys total
    .ok (⟨start + headerSize, size⟩, h)

/-- Make a new object of at least `size` bytes, all zero, and register it as a root if asked to.
Returns its address.  An object born while the heap is marking is black. -/
def alloc (sys : System) (h : Heap) (size : Nat) (type : ObjectType) (rooted : Bool) :
    Except AllocError (Nat × Heap) :=
  match Size.alignUp (max size 1) arenaAlign with
  | none => .error (.outOfMemory size)
  | some rounded =>
    match Size.add? rounded headerSize with
    | none => .error (.outOfMemory size)
    | some total => do
      let (b, h) ← h.takeBlock sys rounded total
      let color := if h.phase = .marking then .black else .white
      let o : Object := { addr := b.addr, capacity := b.capacity, type, color }
      .ok (o.addr, { h with
        objects := o :: h.objects
        roots := if rooted then h.roots.insert o.addr else h.roots
        used := h.used + o.footprint
        totalAllocated := h.totalAllocated + o.footprint })

/-- `alloc` for callers that cannot go on without the object: its failure is a fault. -/
def allocOrFault (sys : System) (h : Heap) (size : Nat) (type : ObjectType) :
    Except Fault (Nat × Heap) :=
  match h.alloc sys size type false with
  | .ok made => .ok made
  | .error e => .error (.exhausted e.message)

/-! ### Access -/

/-- The address of word `index` of the object. -/
def wordAddr (o : Object) (index : Nat) : Nat := o.addr + wordSize * index

/-- The live object at `addr`; a handle to anything else is stale. -/
def live (h : Heap) (addr : Nat) : Except Fault Object :=
  match h.find? addr with
  | some o => .ok o
  | none => .error .staleHandle

/-- Store a word into an object, within its payload. -/
def storeWord (h : Heap) (o : Object) (index value : Nat) : Except Fault Heap :=
  if index < o.words then .ok { h with words := h.words.set (wordAddr o index) value }
  else .error (.wordBounds index o.words)

/-- Load a word of an object, within its payload. -/
def loadWord (h : Heap) (o : Object) (index : Nat) : Except Fault Nat :=
  if index < o.words then .ok (h.words.get (wordAddr o index))
  else .error (.wordBounds index o.words)

/-- Store a plain word. -/
def writeWord (h : Heap) (addr index value : Nat) : Except Fault Heap := do
  let o ← h.live addr
  h.storeWord o index value

/-- Load a plain word. -/
def readWord (h : Heap) (addr index : Nat) : Except Fault Nat := do
  let o ← h.live addr
  h.loadWord o index

/-- Store a reference, or null, into a pointer word.  That the field is a pointer word is checked by
an assertion, which release builds leave out: `notPointer` is a fault of debug builds. -/
def writePointer (h : Heap) (addr field : Nat) (target : Option Nat) : Except Fault Heap := do
  let o ← h.live addr
  if o.type.isPointer field then h.storeWord o field (target.getD 0) else .error .notPointer

/-- Load a reference; a word that is zero or no live object's address gives none. -/
def readPointer (h : Heap) (addr field : Nat) : Except Fault (Option Nat) := do
  let o ← h.live addr
  let word ← h.loadWord o field
  return if word = 0 then none else (h.find? word).map Object.addr

end Heap

end ManagedHost
