import ManagedHost.Loop.Machine

/-!
# Calls on the task machine

Callers act on the machine by starting strands.  `Machine.settle` then lets everybody go on until
the machine is at rest: those who hand out work before the threads of the loop, workers before
tickers, each as far as it can.  `Machine.pass` also lets time go by, from one moment at which
somebody wakes up to the next.
-/

namespace ManagedHost

namespace Machine

variable {α : Type}

/-! ### Running to rest -/

/-- The strands in the order in which they are given a chance: callers and the dispatcher first. -/
def turnOrder (m : Machine α) : List Nat :=
  let (givers, threads) := m.strands.zipIdx.partition fun (s, _) =>
    s.role == .caller || s.role == .dispatcher
  (givers ++ threads).map Prod.snd

/-- One step of the first strand that can take one. -/
def advance? (m : Machine α) : Option (Machine α) := m.turnOrder.findSome? (m.step true ·)

/-- Up to `fuel` steps, until no strand can go on. -/
def settle : Nat → Machine α → Machine α
  | 0, m => m
  | fuel + 1, m =>
    match m.advance? with
    | some m => settle fuel m
    | none => m

/-- Let time pass. -/
def elapse (m : Machine α) (micros : Nat) : Machine α := { m with clock := m.clock + micros }

/-- The moments at which the dispatcher wakes up for a task of the scheduler and the loop for its
first microtasks. -/
def chores (m : Machine α) : List Nat :=
  let l := m.loop
  (if l.phase = .running && !l.microtasks.isEmpty then [l.tickFrom l.config.microtaskInterval 0]
    else [])
  ++ (if m.scheduler.phase = .running then m.scheduler.queue.nextDeadline.toList else [])

/-- The moments after now at which the loop finds one of its timers due or cancelled. -/
def alarms (m : Machine α) : List Nat :=
  let l := m.loop
  if l.phase = .running then
    (l.timers.filterMap (m.timers[·]?)).map fun c =>
      l.tickFrom l.config.timerInterval (max (m.clock + 1) (if c.cancelled then 0 else c.nextRun))
  else []

/-- Let everybody go on, and time go by while there is a chore to come before `limit` or an alarm
before `patience`, which may depend on what has been reached.  At most `fuel` moments are visited,
with at most `steps` steps each. -/
def pass (steps limit : Nat) (patience : Machine α → Nat) : Nat → Machine α → Machine α
  | 0, m => m.settle steps
  | fuel + 1, m =>
    let m := m.settle steps
    let chores := m.chores.filter (m.clock < ·)
    let alarms := m.alarms
    if chores.any (· < limit) || alarms.any (· < patience m) then
      match (chores ++ alarms).min? with
      | some moment => pass steps limit patience fuel { m with clock := moment }
      | none => m
    else m

/-- Let everybody go on until the given time, as `pass` does. -/
def passTo (steps time fuel : Nat) (m : Machine α) : Machine α :=
  let m := m.pass steps (time + 1) (fun _ => time + 1) fuel
  { m with clock := max m.clock time }

/-- Start a strand that carries out the code; also returns its number. -/
def call (m : Machine α) (code : List (Instr α)) : Nat × Machine α :=
  (m.strands.length, { m with strands := m.strands ++ [{ role := .caller, code }] })

/-- The answer that a strand has got. -/
def answer (m : Machine α) (strand : Nat) : Option (TaskResult Unit) :=
  m.strands[strand]?.bind (·.answer)

/-! ### Tasks -/

/-- A new task with a handle. -/
def create (m : Machine α) (body : Body α) (name : Option String := none) : TaskId × Machine α :=
  let (t, m) := m.newTask body name
  (t, { m with handles := m.handles ++ [t] })

/-- A continuation of the task with a handle, registered at once. -/
def continueWith (m : Machine α) (parent : TaskId) (body : Body α) : TaskId × Machine α :=
  let (t, m) := m.create body
  (t, (m.call [.register parent t]).2)

/-- A new task with a handle that is run beside the loop, on a strand of its own. -/
def runAside (m : Machine α) (body : Body α) : TaskId × Machine α :=
  let (t, m) := m.create body
  (t, (m.call [.start t]).2)

/-- The states of the tasks that have handles, a letter for each. -/
def letters (m : Machine α) : String := String.ofList (m.handles.map fun t => (m.state t).letter)

/-- Whether running the task here would wait for another task. -/
def wouldBlock (m : Machine α) (t : TaskId) : Bool :=
  match m.tasks[t]? with
  | some c =>
    match c.parent with
    | some p => !c.state.isTerminal && !(m.state p).isTerminal
    | none => false
  | none => false

/-- Let the body that came to the gate first go on.  Returns whether there was one. -/
def release (m : Machine α) : Bool × Machine α :=
  match m.gate with
  | _ :: rest => (true, { m with gate := rest })
  | [] => (false, m)

/-! ### The loop and the scheduler -/

/-- Why the loop's threads cannot be started. -/
def startFault? (m : Machine α) : Option Fault :=
  if m.loop.phase = .idle && m.scheduler.phase != .stopped then m.loop.config.threadsFault?
  else none

/-- Start the loop's threads, once.  A call on a loop that is not idle changes nothing; that it may
have to wait for the loop's state before it returns is not described. -/
def startLoop (m : Machine α) : Machine α :=
  if m.loop.phase = .idle then
    let workers := List.replicate (max m.loop.config.workers 1) { role := .worker }
    let threads := workers ++ [{ role := .microtasks }, { role := .timers }]
    { m with
      loop := { m.loop with phase := .running, startedAt := m.clock }
      strands := m.strands ++ threads }
  else m

/-- Start the scheduler and its loop, once. -/
def startScheduler (m : Machine α) : Machine α :=
  if m.scheduler.phase = .idle then
    let m := m.startLoop
    { m with
      scheduler := { m.scheduler with phase := .running }
      strands := m.strands ++ [{ role := .dispatcher }] }
  else m

/-- Give a task to the scheduler, due at the given time. -/
def schedule (m : Machine α) (t : TaskId) (priority : Int) (deadline : Nat) :
    Except TaskError (Machine α) :=
  (m.scheduler.submit t priority deadline).map fun scheduler => { m with scheduler }

/-- Submit a task to the loop and let everybody go on until it is taken or refused.  `handle` is the
number of the handle that stands for the task; if the loop refuses the task, the handle is taken
back. -/
def submitNew (m : Machine α) (t : TaskId) (handle : Nat) : Except TaskError Nat × Machine α :=
  let (i, m) := m.call [.submit t .caller]
  let m := m.settle 100000
  match m.answer i with
  | some (.error e) => (.error e, { m with handles := m.handles.take handle })
  | _ => (.ok handle, m)

/-- Submit a new task with a handle to the loop: the number of the handle. -/
def spawn (m : Machine α) (body : Body α) : Except TaskError Nat × Machine α :=
  let (t, next) := m.create body
  next.submitNew t m.handles.length

/-- Submit a new task that waits for all of the tasks.  The handle stands for a continuation with
the packed values. -/
def spawnAll (m : Machine α) (tasks : List TaskId) (pack : List α → α) :
    Except TaskError Nat × Machine α :=
  let (t, next) := m.newTask (.all tasks pack)
  let (_, next) := next.continueWith t (.andThen t none fun v => .returns (.ok v))
  next.submitNew t m.handles.length

/-! ### Timers -/

/-- A new timer that fires after `delay` microseconds, and every so often if it is `repeating`.  A
loop that has stopped cancels it at once. -/
def addTimer (m : Machine α) (delay : Nat) (repeating : Bool) (body : Body α) : Nat × Machine α :=
  let (armed, m) := m.newTask body
  let timer := m.timers.length
  let cell : TimerCell α :=
    { repeating := if repeating then some (delay, body) else none
      nextRun := m.clock + delay
      armed }
  let m := { m with timers := m.timers ++ [cell] }
  if m.loop.phase = .stopped then (timer, (m.call [.cancelTimer timer]).2)
  else
    (timer, m.onLoop fun l =>
      { l with
        timers := l.timers ++ [timer]
        stats := { l.stats with timers := l.stats.timers + 1 } })

/-- How often timers have fired. -/
def firings (m : Machine α) : Nat := m.timers.foldr (fun t count => t.fired + count) 0

/-! ### Promises -/

/-- Use the resolver that the promise's setup has kept: settle the promise, or drop the resolver.
`none` when there is no such resolver. -/
def resolve? (m : Machine α) (t : TaskId) (result : Option (TaskResult α)) : Option (Machine α) :=
  match m.promises.findIdx? fun c => c.task == t && c.kept with
  | none => none
  | some p =>
    let m := { m with promises := m.promises.modify p fun c =>
      { c with resolver := false, kept := false } }
    some (match result with
      | some result => m.sendPromise p result
      | none => m)

end Machine

end ManagedHost
