import ManagedHost.Command.Report
import ManagedHost.Command.Request
import ManagedHost.Heap.Batch
import ManagedHost.Log.Event
import ManagedHost.Loop.Run
import ManagedHost.Settings.Sources

/-!
# Running requests

A request is answered from the arguments and what the program finds around it.  Time is the model's
own: a schedule is played through without waiting, and a pause of a heap lasts as long as the
surroundings say.
-/

namespace ManagedHost

/-- The version of the program. -/
def programVersion : String := "0.1.0"

/-- What a program finds around it. -/
structure Surroundings where
  env : Environment
  /-- The files by name. -/
  file : String → FileContent
  processors : Nat := 1
  /-- How many bytes can be reserved at a time. -/
  memory : Nat := Nat.pow 2 37
  /-- How long every pause of a heap takes. -/
  pause : Duration := .zero
  /-- The time since 1970. -/
  now : Duration := .zero

/-- What a program leaves behind. -/
structure Outcome where
  exit : Nat := 0
  stdout : String := ""
  stderr : String := ""
deriving DecidableEq, Inhabited

namespace Outcome

/-- The lines on standard output. -/
def ofLines (lines : List String) : Outcome := { stdout := String.join (lines.map (· ++ "\n")) }

/-- A failure with its cause, whose lines are indented. -/
def failure (what cause : String) : Outcome :=
  let indented := String.intercalate "\n    " (cause.splitOn "\n")
  { exit := 1, stderr := "Error: " ++ what ++ "\n\nCaused by:\n    " ++ indented ++ "\n" }

/-- The end of a program by a fault. -/
def ofFault (fault : Fault) : Outcome := { exit := 101, stderr := fault.message ++ "\n" }

/-- A mistake in the arguments. -/
def misuse : Outcome := { exit := 2, stderr := "see " ++ programName ++ " --help\n" }

end Outcome

/-! ### The heap command -/

/-- A duration in a report. -/
def Duration.report (d : Duration) : Report :=
  .record [("nanos", .count d.nanos), ("secs", .count d.secs)]

/-- The counters of a heap whose last cycle ended at `now`, by name in alphabetical order. -/
def Heap.report (h : Heap) (now : Duration) : Report :=
  let last : Report := if h.collections = 0 then .nothing
    else .record [("nanos_since_epoch", .count now.nanos), ("secs_since_epoch", .count now.secs)]
  .record [("collections", .count h.collections), ("free_blocks", .count h.freeBlocks),
    ("heap_size", .count h.size), ("heap_used", .count h.used), ("last_gc", last),
    ("last_pause", h.pauses.last.report), ("long_pauses", .count h.pauses.long),
    ("next_gc", .count h.trigger), ("objects", .count h.objects.length),
    ("total_allocated", .count h.totalAllocated), ("total_freed", .count h.totalFreed),
    ("total_pause", h.pauses.total.report)]

/-- The state of a pacer, by name in alphabetical order. -/
def Pacer.report (p : Pacer) : Report :=
  .record [("avg_pause", p.average.report), ("collections", .count p.collections),
    ("last_pause", p.last.report), ("target_pause", p.target.report),
    ("threshold", .count p.threshold)]

/-- The event that tells of a finished cycle. -/
def Heap.cycleEvent (before after : Heap) : LogEvent where
  level := .info
  message := "GC cycle finished"
  fields :=
    let micros := fun (d : Duration) => toString (d.toNanos / 1000)
    [("collection", toString after.collections),
      ("freed_bytes", toString (after.totalFreed - before.totalFreed)),
      ("freed_objects", toString (before.objects.length - after.objects.length)),
      ("survivors", toString after.objects.length), ("heap_used", toString after.used),
      ("next_gc", toString after.trigger), ("pause_us", micros after.pauses.last),
      ("cycle_us", micros after.pauses.last)]

/-- Fill a heap with `objects` objects of `size` bytes, root the first `rooted` of them, run a cycle
and let a pacer look at it. -/
def runHeap (host : Surroundings) (logger : Logger) (settings : HeapSettings)
    (objects size rooted : Nat) : Outcome :=
  let config := { settings.toConfig with background := false }
  let type := ObjectType.plain "blob" size
  let make := fun (h : Heap) => h.alloc (.sequential host.memory) size type false
  match Heap.makeMany make (fun _ _ h => .ok h) objects (.ofConfig config) with
  | (addrs, some e, _) =>
    .failure
      ("allocation " ++ toString (addrs.length + 1) ++ " of " ++ toString objects ++ " failed")
      e.message
  | (addrs, none, h) =>
    let before := (addrs.take rooted).foldl Heap.addRoot h
    let (_, after) := before.collect host.pause host.pause
    let (_, pacer, paced) := after.repace { target := config.maxPause }
    let report : Report := .record [("after", paced.report host.now),
      ("before", before.report host.now), ("optimizer", pacer.report),
      ("reclaimed", .count (before.used - paced.used))]
    .ofLines (logger.lines [Heap.cycleEvent before after] ++ [report.print])

/-! ### The schedule command -/

/-- The machine after a task was scheduled for each delay and all of them have run.  Each task notes
its line. -/
def playSchedule (workers : Nat) (delays : List Nat) : Machine Unit :=
  let start : Machine Unit :=
    { loop := { config := .ofWorkers workers }, scheduler := { workers } }
  let submit := fun (m : Machine Unit) (entry : Nat × Nat) =>
    let (delay, index) := entry
    let line := TaskId.display (index + 1) ++ " after " ++ toString delay ++ "ms"
    let (t, m) := m.create (.script [.note line] (.done (.returns (.ok ()))))
      (some ("delay-" ++ toString delay ++ "ms"))
    (m.schedule t 0 (delay * 1000)).toOption.getD m
  let m := delays.zipIdx.foldl submit start.startScheduler
  (m.elapse (delays.foldl max 0 * 1000)).settle (1000 * (delays.length + 1))

/-- Run a task after each delay and show the order in which they ran. -/
def runSchedule (host : Surroundings) (logger : Logger) (settings : SchedulerSettings)
    (delays : List Nat) : Outcome :=
  let workers := settings.workerCount host.processors
  if let some fault := (LoopConfig.ofWorkers workers).threadsFault? then .ofFault fault else
  let m := playSchedule workers delays
  let stats : Report := .record [("scheduled", .count m.scheduler.scheduled),
    ("dispatched", .count m.scheduler.dispatched),
    ("dispatch_failures", .count m.scheduler.failures)]
  let count := [("workers", toString workers)]
  .ofLines
    (logger.lines [⟨.info, "event loop started", count⟩, ⟨.info, "scheduler started", count⟩]
      ++ m.notes ++ [stats.print]
      ++ logger.lines [⟨.info, "event loop stopped", []⟩,
        ⟨.info, "scheduler stopped", [("cancelled", toString m.scheduler.queue.length)]⟩])

/-! ### All requests -/

/-- The settings that hold in the surroundings. -/
def Surroundings.settings (host : Surroundings) : Except SettingsError Settings :=
  Settings.resolve ((settingsFiles host.env).map fun name => ⟨name, host.file name⟩) host.env

/-- Carry out a command with the settings.  A given log level wins over the one in the settings. -/
def runCommand (host : Surroundings) (settings : Settings) (level : LogLevel) : Command → Outcome
  | .settings =>
    match settings.printWith .standard with
    | .ok text => { stdout := text }
    | .error e => { exit := 1, stderr := "Error: " ++ e.message ++ "\n" }
  | .version => .ofLines [programName ++ " " ++ programVersion]
  | .heap objects size rooted => runHeap host ⟨some level⟩ settings.heap objects size rooted
  | .schedule delays => runSchedule host ⟨some level⟩ settings.scheduler delays

/-- Answer the arguments. -/
def runProgram (host : Surroundings) (args : List String) : Outcome :=
  match Request.parse args with
  | .misuse => .misuse
  | .showHelp topic => { stdout := topic.page }
  | .showVersion => .ofLines [programName ++ " " ++ programVersion]
  | .run level command =>
    match host.settings with
    | .error e => .failure "Failed to load configuration" e.message
    | .ok settings =>
      match level, settings.logLevel with
      | some level, _ => runCommand host settings level command
      | none, .ok level => runCommand host settings level command
      | none, .error e => { exit := 1, stderr := "Error: " ++ e.message ++ "\n" }

end ManagedHost
