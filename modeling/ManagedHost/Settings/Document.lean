import ManagedHost.Settings.Basic
import ManagedHost.Toml.Library

/-!
# Settings in documents

Settings are decoded from a table of sections.  What a table leaves out keeps its default, and
unknown keys are passed over, as long as their numbers are in range.  A section may also be an
array, which gives the fields in their order.  Which library reads and prints the documents is a
parameter; the standard one is meant where none is named.

A document that is decoded on its own and layers that were joined first differ in small ways, which
`Decoding` names: an array longer than its section is accepted on its own only, and so is a moment
in the place of a section, which is then empty; in joined layers a moment may stand for a text.
-/

namespace ManagedHost

open Toml (Value Table Entries)

/-- What a table comes from. -/
inductive Decoding where
  /-- One document. -/
  | alone
  /-- Layers that were joined to one table. -/
  | joined
deriving DecidableEq, Inhabited

namespace Decoding

/-! ### Values -/

/-- A whole number from 0 to `2 ^ 64 - 1`. -/
def word? : Value → Option Nat
  | .integer n => if 0 ≤ n ∧ n < Int.pow 2 64 then some n.toNat else none
  | _ => none

/-- A number; an integer of 64 bits, with or without a sign, is rounded to the nearest. -/
def number? : Value → Option Binary64
  | .float x => some x
  | .integer n => if -Int.pow 2 63 ≤ n ∧ n < Int.pow 2 64 then some (.ofInt n) else none
  | _ => none

/-- A truth value. -/
def truth? : Value → Option Bool
  | .boolean b => some b
  | _ => none

/-- A text. -/
def text? : Decoding → Value → Option String
  | _, .text s => some s
  | .joined, .moment m => some m.text
  | _, _ => none

/-! ### Sections -/

/-- The entries of a table with the given fields, if those under other keys can be passed over. -/
def checked? (names : List String) (entries : Table) : Option Table :=
  if entries.all fun (key, v) => names.contains key || v.isBounded then some entries else none

/-- The entries of a section with the given fields. -/
def entries? (names : List String) : Decoding → Value → Option Table
  | _, .table entries => checked? names entries
  | .alone, .array items => some (names.zip items)
  | .joined, .array items => if items.length ≤ names.length then some (names.zip items) else none
  | .alone, .moment _ => some []
  | _, _ => none

/-- The value of a field, or what it is by default. -/
def field (entries : Table) (name : String) (default : α) (decode : Value → Option α) : Option α :=
  match Entries.get? name entries with
  | none => some default
  | some v => decode v

/-- The value of a field that may be left out. -/
def field? (entries : Table) (name : String) (decode : Value → Option α) : Option (Option α) :=
  field entries name none fun v => (decode v).map some

/-- A section by its name, or what it is by default. -/
def part (from_ : Decoding) (table : Table) (name : String) (fields : List String) (default : α)
    (decode : Table → Option α) : Option α :=
  field table name default fun v => (from_.entries? fields v).bind decode

end Decoding

/-- The names of the sections. -/
def Settings.parts : List String := ["gc", "event_loop", "scheduler", "arena", "log"]

/-- The fields of the section `gc`, in order. -/
def HeapSettings.fields : List String :=
  ["arena_size", "initial_trigger", "growth_ratio", "max_heap_size", "max_pause_ms", "mark_workers",
    "monitor_interval_ms", "background"]

/-- The fields of the section `event_loop`, in order. -/
def LoopSettings.fields : List String :=
  ["workers", "queue_capacity", "microtask_interval_ms", "timer_interval_ms"]

/-- The fields of the section `scheduler`. -/
def SchedulerSettings.fields : List String := ["workers"]

/-- The fields of the section `arena`. -/
def ArenaSettings.fields : List String := ["block_size"]

/-- The fields of the section `log`. -/
def LogSettings.fields : List String := ["level"]

open Decoding in
/-- The heap's settings in a section. -/
def HeapSettings.ofEntries? (t : Table) : Option HeapSettings := do
  let dflt : HeapSettings := {}
  let arenaSize ← field t "arena_size" dflt.arenaSize word?
  let initialTrigger ← field t "initial_trigger" dflt.initialTrigger word?
  let growthRatio ← field t "growth_ratio" dflt.growthRatio number?
  let maxHeapSize ← field t "max_heap_size" dflt.maxHeapSize word?
  let maxPauseMs ← field t "max_pause_ms" dflt.maxPauseMs word?
  let markWorkers ← field? t "mark_workers" word?
  let monitorIntervalMs ← field t "monitor_interval_ms" dflt.monitorIntervalMs word?
  let background ← field t "background" dflt.background truth?
  some { arenaSize, initialTrigger, growthRatio, maxHeapSize, maxPauseMs, markWorkers,
         monitorIntervalMs, background }

open Decoding in
/-- The loop's settings in a section. -/
def LoopSettings.ofEntries? (t : Table) : Option LoopSettings := do
  let dflt : LoopSettings := {}
  let workers ← field? t "workers" word?
  let queueCapacity ← field t "queue_capacity" dflt.queueCapacity word?
  let microtaskIntervalMs ← field t "microtask_interval_ms" dflt.microtaskIntervalMs word?
  let timerIntervalMs ← field t "timer_interval_ms" dflt.timerIntervalMs word?
  some { workers, queueCapacity, microtaskIntervalMs, timerIntervalMs }

open Decoding in
/-- The scheduler's settings in a section. -/
def SchedulerSettings.ofEntries? (t : Table) : Option SchedulerSettings := do
  let workers ← field? t "workers" word?
  some { workers }

open Decoding in
/-- The arenas' settings in a section. -/
def ArenaSettings.ofEntries? (t : Table) : Option ArenaSettings := do
  let blockSize ← field t "block_size" defaultBlockSize word?
  some { blockSize }

/-- The log's settings in a section. -/
def LogSettings.ofEntries? (from_ : Decoding) (t : Table) : Option LogSettings := do
  let level ← Decoding.field t "level" LogLevel.info.name from_.text?
  some { level }

namespace Settings

/-- The settings that a table holds. -/
def ofTable? (from_ : Decoding) (t : Table) : Option Settings := do
  let t ← Decoding.checked? parts t
  let heap ← from_.part t "gc" HeapSettings.fields {} HeapSettings.ofEntries?
  let loop ← from_.part t "event_loop" LoopSettings.fields {} LoopSettings.ofEntries?
  let scheduler ← from_.part t "scheduler" SchedulerSettings.fields {} SchedulerSettings.ofEntries?
  let arena ← from_.part t "arena" ArenaSettings.fields {} ArenaSettings.ofEntries?
  let log ← from_.part t "log" LogSettings.fields {} (LogSettings.ofEntries? from_)
  some { heap, loop, scheduler, arena, log }

/-- The valid settings that a document holds, as the library reads it. -/
def readWith (lib : Toml.Library) (text : String) : Except SettingsError Settings :=
  match (lib.read text).bind (ofTable? .alone) with
  | some s => s.checked
  | none => .error (.malformed "<string>")

/-- The valid settings that a document holds. -/
def ofDocument (text : String) : Except SettingsError Settings := readWith .standard text

/-! ### Printing -/

/-- The entry of a number. -/
def word (name : String) (n : Nat) : String × Value := (name, .integer n)

/-- The entry of a number that may be left out. -/
def word? (name : String) (n : Option Nat) : Table := (n.map (word name)).toList

/-- The settings as sections. -/
def sections (s : Settings) : List (String × Table) :=
  [("gc",
      [word "arena_size" s.heap.arenaSize, word "initial_trigger" s.heap.initialTrigger,
        ("growth_ratio", .float s.heap.growthRatio), word "max_heap_size" s.heap.maxHeapSize,
        word "max_pause_ms" s.heap.maxPauseMs]
      ++ word? "mark_workers" s.heap.markWorkers
      ++ [word "monitor_interval_ms" s.heap.monitorIntervalMs,
        ("background", .boolean s.heap.background)]),
    ("event_loop",
      word? "workers" s.loop.workers
      ++ [word "queue_capacity" s.loop.queueCapacity,
        word "microtask_interval_ms" s.loop.microtaskIntervalMs,
        word "timer_interval_ms" s.loop.timerIntervalMs]),
    ("scheduler", word? "workers" s.scheduler.workers),
    ("arena", [word "block_size" s.arena.blockSize]),
    ("log", [("level", .text s.log.level)])]

/-- The settings as a document, if the library prints one. -/
def printWith (lib : Toml.Library) (s : Settings) : Except SettingsError String :=
  match lib.print s.sections with
  | .ok text => .ok text
  | .error cause => .error (.unprintable cause)

/-- The document that the standard library prints. -/
def print (s : Settings) : String := Toml.printSections s.sections

theorem printWith_standard (s : Settings) : s.printWith .standard = .ok s.print := rfl

end Settings

end ManagedHost
