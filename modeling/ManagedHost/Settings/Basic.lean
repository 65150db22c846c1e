import ManagedHost.Heap.Basic
import ManagedHost.Log.Level
import ManagedHost.Loop.Basic
import ManagedHost.Memory.Pool
import ManagedHost.Number.Shortest

/-!
# Settings

The settings of a host in five sections, the values that apply where nothing is set, and what each
section means for the part that it configures.
-/

namespace ManagedHost

/-- The section `gc`: the collected heap. -/
structure HeapSettings where
  arenaSize : Nat := 65536
  initialTrigger : Nat := 4194304
  growthRatio : Binary64 := .ofInt 2
  maxHeapSize : Nat := 1073741824
  maxPauseMs : Nat := 10
  /-- Number of workers that mark; by default one per processor. -/
  markWorkers : Option Nat := none
  monitorIntervalMs : Nat := 100
  background : Bool := true
deriving DecidableEq, Inhabited

/-- The section `event_loop`. -/
structure LoopSettings where
  /-- Number of workers; by default one per processor. -/
  workers : Option Nat := none
  queueCapacity : Nat := defaultQueueCapacity
  microtaskIntervalMs : Nat := 1
  timerIntervalMs : Nat := 10
deriving DecidableEq, Inhabited

/-- The section `scheduler`. -/
structure SchedulerSettings where
  /-- Number of workers; by default one per processor. -/
  workers : Option Nat := none
deriving DecidableEq, Inhabited

/-- The section `arena`. -/
structure ArenaSettings where
  blockSize : Nat := defaultBlockSize
deriving DecidableEq, Inhabited

/-- The section `log`. -/
structure LogSettings where
  /-- A text that should name a log level. -/
  level : String := LogLevel.info.name
deriving DecidableEq, Inhabited

/-- All settings of a host. -/
structure Settings where
  heap : HeapSettings := {}
  loop : LoopSettings := {}
  scheduler : SchedulerSettings := {}
  arena : ArenaSettings := {}
  log : LogSettings := {}
deriving DecidableEq, Inhabited

/-! ### Configurations -/

/-- The configuration of a heap.  There is at least one worker, and the monitor waits at least a
millisecond. -/
def HeapSettings.toConfig (s : HeapSettings) : HeapConfig where
  arenaSize := s.arenaSize
  initialTrigger := s.initialTrigger
  growthRatio := s.growthRatio
  maxHeapSize := s.maxHeapSize
  maxPause := .ofMillis s.maxPauseMs
  markWorkers := s.markWorkers.map (max 1)
  monitorInterval := .ofMillis (max 1 s.monitorIntervalMs)
  background := s.background

/-- The configuration of a loop on a machine with the given number of processors. -/
def LoopSettings.toConfig (s : LoopSettings) (processors : Nat) : LoopConfig where
  workers := max 1 (s.workers.getD processors)
  queueCapacity := s.queueCapacity
  microtaskInterval := max 1 s.microtaskIntervalMs
  timerInterval := max 1 s.timerIntervalMs

/-- The number of workers of a scheduler on a machine with the given number of processors. -/
def SchedulerSettings.workerCount (s : SchedulerSettings) (processors : Nat) : Nat :=
  max 1 (s.workers.getD processors)

/-- An empty pool with the set block size. -/
def ArenaSettings.toPool (s : ArenaSettings) : Pool := .ofBlockSize s.blockSize

/-! ### Errors -/

/-- Why settings cannot be worked with. -/
inductive Defect where
  | ratio (x : Binary64)
  | emptyArena
  | arenaOverLimit
  | emptyBlock
  | level (text : String)
deriving DecidableEq, Inhabited

/-- What is wrong with the settings. -/
def Defect.message : Defect → String
  | ratio x => "gc.growth_ratio must be positive, got " ++ x.text
  | emptyArena => "gc.arena_size must be non-zero"
  | arenaOverLimit => "gc.arena_size exceeds gc.max_heap_size"
  | emptyBlock => "arena.block_size must be non-zero"
  | level text => LogLevel.unknownMessage text

/-- Why there are no settings. -/
inductive SettingsError where
  /-- A file exists and cannot be read as text. -/
  | unreadable (file : String)
  /-- A file is no document, or a document has a value of the wrong kind. -/
  | malformed (file : String)
  /-- A variable has a value that cannot be used. -/
  | badVariable (name value : String)
  /-- The values do not go together or are out of range. -/
  | invalid (defect : Defect)
  /-- There is no document with these settings. -/
  | unprintable (cause : String)
deriving DecidableEq, Inhabited

/-- The text of the error. -/
def SettingsError.message : SettingsError → String
  | unreadable file => "failed to read " ++ file
  | malformed file => "failed to parse " ++ file
  | badVariable name value => "invalid value `" ++ value ++ "` for " ++ name
  | invalid defect => "invalid configuration: " ++ defect.message
  | unprintable cause => "config serialize error: " ++ cause

/-! ### Checks -/

namespace Settings

/-- The log level that the settings name. -/
def logLevel (s : Settings) : Except SettingsError LogLevel :=
  match LogLevel.ofText? s.log.level with
  | some level => .ok level
  | none => .error (.invalid (.level s.log.level))

/-- The first defect of the settings. -/
def defect? (s : Settings) : Option Defect :=
  if !s.heap.growthRatio.isPositive then some (.ratio s.heap.growthRatio)
  else if s.heap.arenaSize = 0 then some .emptyArena
  else if s.heap.maxHeapSize < s.heap.arenaSize then some .arenaOverLimit
  else if s.arena.blockSize = 0 then some .emptyBlock
  else if (LogLevel.ofText? s.log.level).isNone then some (.level s.log.level)
  else none

/-- The settings, if they have no defect. -/
def checked (s : Settings) : Except SettingsError Settings :=
  match s.defect? with
  | some d => .error (.invalid d)
  | none => .ok s

end Settings

end ManagedHost
