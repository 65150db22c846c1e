import ManagedHost.Schedule.Scheduler

/-!
# The task machine

Tasks, promises, timers, an event loop and a scheduler, worked on by *strands*: the callers, the
workers of the loop, its two tickers and the dispatcher of the scheduler.  A strand is a list of
instructions, each an atomic change of the machine; an instruction may put others in front of the
rest.  `Machine.step` lets one strand take one step, and is undefined while that strand must wait.
Any order of such steps is an execution.

Where a strand waits for two things at once, for work or a result and for a signal to stop, either
may win when both are there: `heedStop` decides.
-/

namespace ManagedHost

/-- Who submits a task to the loop's queue, and so what happens with the answer. -/
inductive Submitter where
  | caller
  | timer
  | dispatcher
deriving DecidableEq, Inhabited

/-- Why a task is settled, and so what happens when another settlement came first. -/
inductive SettleMode where
  | run
  | cancel
  | fail
deriving DecidableEq, Inhabited

/-- An atomic piece of work. -/
inductive Instr (α : Type) where
  /-- Run the task if it is pending. -/
  | start (t : TaskId)
  /-- Take the body of a task that was started. -/
  | enter (t : TaskId)
  /-- Wait at the gate until the task is let through. -/
  | hold (t : TaskId)
  /-- Work through the actions of the task's script. -/
  | perform (t : TaskId) (actions : List Action) (ending : Ending α)
  /-- Wait for the parent and apply the function to its value. -/
  | andThen (t parent : TaskId) (text : Option String) (f : α → Completion α)
  /-- Wait for the parent and apply the function to its error. -/
  | orElse (t parent : TaskId) (text : Option String) (g : TaskError → Completion α)
  /-- Wait for the promise. -/
  | awaitPromise (t : TaskId) (promise : Nat)
  /-- Wait for the tasks in order; `got` holds the values so far, newest first. -/
  | awaitAll (t : TaskId) (tasks : List TaskId) (got : List α) (pack : List α → α)
  /-- Wait for any of the tasks. -/
  | awaitAny (t : TaskId) (tasks : List TaskId)
  /-- Settle the task if it is still in the state `old`. -/
  | settle (t : TaskId) (old : TaskState) (result : TaskResult α) (mode : SettleMode)
  /-- Give the task's signal. -/
  | signal (t : TaskId)
  /-- Take the task's continuations. -/
  | release (t : TaskId)
  /-- Dispatch continuations of the task: to the loop it is bound to, or by running them here. -/
  | dispatch (t : TaskId) (children : List TaskId)
  /-- Register a continuation of the task. -/
  | register (t child : TaskId)
  /-- Drop the body of a task that will not run. -/
  | dropBody (t : TaskId)
  /-- Cancel the task unless it has settled. -/
  | cancel (t : TaskId)
  /-- Settle a pending task with an error. -/
  | fail (t : TaskId) (error : TaskError)
  /-- Submit the task to the loop's queue. -/
  | submit (t : TaskId) (who : Submitter)
  /-- Wait for room in the queue. -/
  | enqueue (t : TaskId) (who : Submitter)
  /-- Submit the task as a microtask; `caller` says whether someone asked for the answer. -/
  | microtask (t : TaskId) (caller : Bool)
  /-- Note the answer to the strand's caller. -/
  | answer (result : TaskResult Unit)
  /-- The loop is done with the task. -/
  | leave (t : TaskId)
  /-- Count the task by its state. -/
  | record (t : TaskId)
  /-- Look at the registered timers `todo`, at the time `now`, and then submit the tasks `due`. -/
  | scanTimers (now : Nat) (todo : List Nat) (due : List TaskId)
  /-- Let the timer fire if its time has come, whether or not it was cancelled since it was looked
  at, and go on with the others. -/
  | pollTimer (now timer : Nat) (todo : List Nat) (due : List TaskId)
  /-- Mark a timer as cancelled, and cancel the task that it has armed if it was not. -/
  | cancelTimer (timer : Nat)
  /-- Cancel the task that a timer has armed. -/
  | cancelArmed (timer : Nat)
  /-- Run the setup of a promise. -/
  | setup (promise : Nat) (setup : PromiseSetup α)
  /-- The setup of a promise has ended. -/
  | setupEnd (promise : Nat) (panic : Option String)
  /-- Tell the loop's threads to stop, if it is running. -/
  | stopLoop
  /-- Mark the loop as stopped once no submission is under way. -/
  | markStopped
  /-- Wait for the loop's other threads. -/
  | joinThreads
  /-- Cancel the timers and everything the loop still holds. -/
  | sweepLoop
  /-- Cancel and count the task unless it has settled. -/
  | cancelLeft (t : TaskId)
  /-- Stop the scheduler. -/
  | stopScheduler
  /-- Wait for the dispatcher. -/
  | joinDispatcher

/-- What a strand does when its code is worked off. -/
inductive Role where
  /-- Nothing: somebody's call has returned. -/
  | caller
  /-- Take tasks from the loop's queue. -/
  | worker
  /-- Run the loop's microtasks. -/
  | microtasks
  /-- Look at the loop's timers. -/
  | timers
  /-- Hand due tasks of the scheduler to the loop. -/
  | dispatcher
deriving DecidableEq, Inhabited

/-- A thread of control. -/
structure Strand (α : Type) where
  role : Role
  code : List (Instr α) := []
  /-- The answer for the caller. -/
  answer : Option (TaskResult Unit) := none
  /-- Whether a thread has left its loop. -/
  exited : Bool := false

/-- The cell between a promise's task and its resolver. -/
structure PromiseCell (α : Type) where
  task : TaskId
  /-- What was sent first. -/
  message : Option (TaskResult α) := none
  /-- Whether the resolver has neither been used nor dropped. -/
  resolver : Bool := true
  /-- Whether the resolver was kept for later. -/
  kept : Bool := false
  /-- Whether the setup is still under way. -/
  settingUp : Bool := true

/-- The tasks and everything that works on them. -/
structure Machine (α : Type) where
  tasks : List (TaskCell α) := []
  /-- The tasks that handles were given out for. -/
  handles : List TaskId := []
  /-- Notes taken by user code, oldest first. -/
  notes : List String := []
  promises : List (PromiseCell α) := []
  timers : List (TimerCell α) := []
  loop : EventLoop
  scheduler : Scheduler := { workers := 0 }
  strands : List (Strand α) := []
  /-- The tasks whose bodies are held at the gate, in the order of their arrival. -/
  gate : List TaskId := []
  /-- The time in microseconds. -/
  clock : Nat := 0

namespace Machine

variable {α : Type}

/-! ### Cells -/

/-- Change the cell of a task. -/
def modify (m : Machine α) (t : TaskId) (f : TaskCell α → TaskCell α) : Machine α :=
  { m with tasks := m.tasks.modify t f }

/-- The state of a task. -/
def state (m : Machine α) (t : TaskId) : TaskState := (m.tasks[t]?.map (·.state)).getD .pending

/-- The result of a task, once it has settled. -/
def outcome (m : Machine α) (t : TaskId) : Option (TaskResult α) := m.tasks[t]?.bind (·.outcome)

/-- Whether the task's signal has been given. -/
def token (m : Machine α) (t : TaskId) : Bool := (m.tasks[t]?.map (·.token)).getD false

/-- Take a note. -/
def note (m : Machine α) (text : String) : Machine α := { m with notes := m.notes ++ [text] }

/-- Change the loop. -/
def onLoop (m : Machine α) (f : EventLoop → EventLoop) : Machine α := { m with loop := f m.loop }

/-- A new task with the given body. -/
def newTask (m : Machine α) (body : Body α) (name : Option String := none) :
    TaskId × Machine α :=
  (m.tasks.length, { m with tasks := m.tasks ++ [{ TaskCell.ofBody body with name }] })

/-- Send a result to a promise; only the first counts. -/
def sendPromise (m : Machine α) (p : Nat) (result : TaskResult α) : Machine α :=
  { m with promises := m.promises.modify p fun c =>
      { c with message := c.message <|> some result } }

/-! ### Scripts -/

/-- The panic of a body that names a task for which there is no handle. -/
def missingHandle (m : Machine α) (handle : Nat) : String :=
  s!"index out of bounds: the len is {m.handles.length} but the index is {handle}"

/-- How the task's script ends. -/
def endingResult (m : Machine α) (t : TaskId) : Ending α → TaskResult α
  | .done completion => completion.result
  | .token value => .ok (value (m.token t))

/-- Perform the next action of the task's script; `none` while it must wait. -/
def perform (m : Machine α) (t : TaskId) (actions : List Action) (ending : Ending α) :
    Option (Machine α × List (Instr α)) :=
  match actions with
  | [] => some (m, [.settle t .running (m.endingResult t ending) .run])
  | action :: rest =>
    let next : Instr α := .perform t rest ending
    let named (handle : Nat) (use : TaskId → Machine α × List (Instr α)) :
        Machine α × List (Instr α) :=
      match m.handles[handle]? with
      | some k => use k
      | none => (m, [.settle t .running (.error (.panicked (m.missingHandle handle))) .run])
    match action with
    | .note text => some (m.note text, [next])
    | .noteToken => some (m.note s!"token {m.token t}", [next])
    | .noteState handle =>
      some (named handle fun k => (m.note (s!"state {handle} " ++ (m.state k).name), [next]))
    | .signal => some (m.modify t TaskCell.signal, [next])
    | .cancel handle => some (named handle fun k => (m, [.cancel k, next]))
    | .run handle => some (named handle fun k => (m, [.start k, next]))
    | .gate => some ({ m with gate := m.gate ++ [t] }, [.hold t, next])
    | .waitToken => if m.token t then some (m, [next]) else none
    | .stopLoop => some (m, [.stopLoop, next])

/-! ### The loop -/

/-- The instructions with which the loop runs a task that it has taken. -/
def runTask (t : TaskId) : List (Instr α) := [.start t, .leave t, .record t]

/-- How many workers wait for a task. -/
def idleWorkers (m : Machine α) : Nat :=
  m.strands.countP fun s => s.role = .worker && s.code.isEmpty && !s.exited

/-- Whether the queue can take another task; a queue of capacity zero hands tasks straight to
workers that wait. -/
def hasRoom (m : Machine α) : Bool :=
  let capacity := m.loop.config.queueCapacity
  m.loop.queue.length < (if capacity = 0 then m.idleWorkers else capacity)

/-- What follows a submission that succeeded. -/
def accepted (m : Machine α) : Submitter → Machine α × List (Instr α)
  | .caller => (m, [.answer (.ok ())])
  | .timer => (m, [])
  | .dispatcher =>
    ({ m with scheduler := { m.scheduler with dispatched := m.scheduler.dispatched + 1 } }, [])

/-- What follows a submission that failed. -/
def refused (m : Machine α) (t : TaskId) (e : TaskError) : Submitter → Machine α × List (Instr α)
  | .caller => (m, [.answer (.error e)])
  | .timer => (m, [.fail t e])
  | .dispatcher =>
    ({ m with scheduler := { m.scheduler with failures := m.scheduler.failures + 1 } }, [.fail t e])

/-- Wait for room in the queue, or for the stop signal. -/
def enqueue (heedStop : Bool) (m : Machine α) (t : TaskId) (who : Submitter) :
    Option (Machine α × List (Instr α)) :=
  let done := m.onLoop fun l => { l with submitting := l.submitting - 1 }
  if m.loop.stopSignal && (heedStop || !m.hasRoom) then
    some ((done.onLoop (·.release t)).refused t .stopped who)
  else if m.hasRoom then
    some ((done.onLoop fun l => { l with queue := l.queue ++ [t] }).accepted who)
  else none

/-- Whether the strand is a thread of the loop that has not left. -/
def isLoopThread (s : Strand α) : Bool :=
  (s.role == .worker || s.role == .microtasks || s.role == .timers) && !s.exited

/-- Whether a thread other than `self` satisfies the condition. -/
def othersAny (m : Machine α) (self : Nat) (p : Strand α → Bool) : Bool :=
  m.strands.zipIdx.any fun (s, i) => i != self && p s

/-! ### Timers -/

/-- Take a timer off the list of the registered ones. -/
def dropTimer (m : Machine α) (timer : Nat) : Machine α :=
  m.onLoop fun l => { l with timers := l.timers.erase timer }

/-- Look at the first of the timers `todo`: one that was cancelled is dropped.  Whoever adds a timer
meanwhile registers it for the next round. -/
def scanTimers (m : Machine α) (now : Nat) (todo : List Nat) (due : List TaskId) :
    Machine α × List (Instr α) :=
  match todo with
  | [] => (m, due.map (.submit · .timer))
  | timer :: rest =>
    if m.timers[timer]?.all (·.cancelled) then (m.dropTimer timer, [.scanTimers now rest due])
    else (m, [.pollTimer now timer rest due])

/-- Let a timer fire if its time has come: its task is handed out, and it is dropped unless it
repeats. -/
def pollTimer (m : Machine α) (now timer : Nat) (todo : List Nat) (due : List TaskId) :
    Machine α × List (Instr α) :=
  match m.timers[timer]? with
  | none => (m, [.scanTimers now todo due])
  | some c =>
    if now < c.nextRun then (m, [.scanTimers now todo due])
    else
      let m' := { m with timers := m.timers.set timer (c.fire now m.tasks.length) }
      (match c.repeating with
        | some (_, body) => (m'.newTask body).2
        | none => m'.dropTimer timer,
        [.scanTimers now todo (due ++ [c.armed])])

/-! ### Steps -/

/-- Carry out an instruction of the strand `self`: the machine afterwards and the instructions that
take its place.  `none` while the instruction must wait. -/
def exec (heedStop : Bool) (m : Machine α) (self : Nat) :
    Instr α → Option (Machine α × List (Instr α))
  | .start t =>
    match m.tasks[t]?.bind TaskCell.start? with
    | some c => some (m.modify t fun _ => c, [.enter t])
    | none => some (m, [])
  | .enter t =>
    match m.tasks[t]? with
    | none => some (m, [])
    | some c =>
      let (body, c) := c.takeBody
      let m := m.modify t fun _ => c
      match body with
      | none => some (m, [.settle t .running (.error (.failed "task body missing")) .run])
      | some (.script actions ending) => some (m, [.perform t actions ending])
      | some (.andThen parent text f) => some (m, [.andThen t parent text f])
      | some (.orElse parent text g) => some (m, [.orElse t parent text g])
      | some (.promise setup) =>
        let p := m.promises.length
        let strand : Strand α := { role := .caller, code := [.setup p setup] }
        some
          ({ m with promises := m.promises ++ [{ task := t }], strands := m.strands ++ [strand] },
            [.awaitPromise t p])
      | some (.all tasks pack) => some (m, [.awaitAll t tasks [] pack])
      | some (.race tasks) => some (m, [.awaitAny t tasks])
  | .hold t => if m.gate.contains t then none else some (m, [])
  | .perform t actions ending => m.perform t actions ending
  | .andThen t parent text f =>
    (m.outcome parent).map fun
      | .ok value =>
        (text.elim m m.note, [.settle t .running (f value).result .run])
      | .error e => (m, [.settle t .running (.error e) .run])
  | .orElse t parent text g =>
    (m.outcome parent).map fun
      | .ok value => (m, [.settle t .running (.ok value) .run])
      | .error e => (text.elim m m.note, [.settle t .running (g e).result .run])
  | .awaitPromise t p =>
    match m.promises[p]? with
    | none => none
    | some c =>
      match c.message with
      | some result =>
        let heeded := m.token t && heedStop
        some (m, [.settle t .running (if heeded then .error .cancelled else result) .run])
      | none =>
        let closed := !c.resolver && !c.settingUp
        if m.token t && (heedStop || !closed) then
          some (m, [.settle t .running (.error .cancelled) .run])
        else if closed then some (m, [.settle t .running (.error .abandoned) .run])
        else none
  | .awaitAll t [] got pack => some (m, [.settle t .running (.ok (pack got.reverse)) .run])
  | .awaitAll t (k :: rest) got pack =>
    (m.outcome k).map fun
      | .ok value => (m, [.awaitAll t rest (value :: got) pack])
      | .error e => (m, [.settle t .running (.error e) .run])
  | .awaitAny t tasks =>
    match tasks.findSome? m.outcome with
    | some result =>
      let heeded := m.token t && heedStop
      some (m, [.settle t .running (if heeded then .error .cancelled else result) .run])
    | none =>
      if m.token t && (heedStop || !tasks.isEmpty) then
        some (m, [.settle t .running (.error .cancelled) .run])
      else if tasks.isEmpty then some (m, [.settle t .running (.error .abandoned) .run])
      else none
  | .settle t old result mode =>
    match m.tasks[t]?.bind (·.settle? old result) with
    | some c =>
      some (m.modify t fun _ => c,
        (if c.state = .cancelled then [.signal t] else []) ++ [.release t]
          ++ (if mode = .run then [] else [.dropBody t]))
    | none => some (m, if mode = .cancel then [.cancel t] else [])
  | .signal t => some (m.modify t TaskCell.signal, [])
  | .release t =>
    match m.tasks[t]? with
    | none => some (m, [])
    | some c =>
      let (children, c) := c.takeContinuations
      some (m.modify t fun _ => c, [.dispatch t children])
  | .dispatch t children =>
    match m.tasks[t]? with
    | none => some (m, [])
    | some c => some (m, children.map fun k => if c.bound then .microtask k false else .start k)
  | .register t child =>
    match m.tasks[t]? with
    | none => some (m, [])
    | some c =>
      match c.register? child with
      | some c => some (m.modify t fun _ => c, [])
      | none => some (m, [.dispatch t [child]])
  | .dropBody t => some (m.modify t fun c => { c with body := none }, [])
  | .cancel t =>
    let old := m.state t
    some (m, if old.isTerminal then [] else [.settle t old (.error .cancelled) .cancel])
  | .fail t e => some (m, [.settle t .pending (.error e) .fail])
  | .submit t who =>
    if m.loop.phase = .running then
      let m := m.modify t fun c => { c with bound := true }
      let m := m.onLoop fun l =>
        { l.adopt t with
          submitting := l.submitting + 1
          stats := { l.stats with scheduled := l.stats.scheduled + 1 } }
      some (m, [.enqueue t who])
    else some (m.refused t .notRunning who)
  | .enqueue t who => m.enqueue heedStop t who
  | .microtask t caller =>
    if m.loop.phase = .stopped then
      some (m, if caller then [.answer (.error .stopped)] else [.fail t .stopped])
    else
      let m := m.modify t fun c => { c with bound := true }
      let m := m.onLoop fun l =>
        { l.adopt t with
          microtasks := l.microtasks ++ [t]
          stats := { l.stats with microtasks := l.stats.microtasks + 1 } }
      some (m, if caller then [.answer (.ok ())] else [])
  | .answer result =>
    some ({ m with strands := m.strands.modify self fun s => { s with answer := some result } }, [])
  | .leave t => some (m.onLoop (·.release t), [])
  | .record t => some (m.onLoop fun l => { l with stats := l.stats.record (m.state t) }, [])
  | .scanTimers now todo due => some (m.scanTimers now todo due)
  | .pollTimer now timer todo due => some (m.pollTimer now timer todo due)
  | .cancelTimer timer =>
    match m.timers[timer]? with
    | none => some (m, [])
    | some c =>
      if c.cancelled then some (m, [])
      else some ({ m with timers := m.timers.set timer { c with cancelled := true } },
        [.cancelArmed timer])
  | .cancelArmed timer =>
    match m.timers[timer]? with
    | none => some (m, [])
    | some c => some (m, [.cancel c.armed])
  | .setup p setup =>
    let m := m.note setup.text
    let close (kept : Bool) (m : Machine α) : Machine α :=
      { m with promises := m.promises.modify p fun c => { c with resolver := kept, kept } }
    let m := match setup.step with
      | .settle result => close false (m.sendPromise p result)
      | .keep => close true m
      | .drop => close false m
    some (m, [.setupEnd p setup.panic])
  | .setupEnd p panic =>
    let m := match panic with
      | some message => m.sendPromise p (.error (.panicked message))
      | none => m
    some ({ m with promises := m.promises.modify p fun c => { c with settingUp := false } }, [])
  | .stopLoop =>
    if m.loop.phase = .running then
      some (m.onLoop fun l => { l with stopSignal := true }, [.markStopped])
    else some (m, [])
  | .markStopped =>
    if m.loop.submitting > 0 then none
    else if m.loop.phase = .running then
      some (m.onLoop fun l => { l with phase := .stopped }, [.joinThreads])
    else some (m, [])
  | .joinThreads => if m.othersAny self isLoopThread then none else some (m, [.sweepLoop])
  | .sweepLoop =>
    let left := m.loop.queue ++ m.loop.microtasks ++ m.loop.active
    some (m.onLoop fun l => { l with timers := [], queue := [], microtasks := [], active := [] },
      m.loop.timers.map .cancelTimer ++ left.map .cancelLeft)
  | .cancelLeft t =>
    some (m, if (m.state t).isTerminal then [] else [.cancel t, .record t])
  | .stopScheduler =>
    if m.scheduler.phase = .stopped then some (m, [])
    else
      let (left, queue) := m.scheduler.queue.drain
      some ({ m with scheduler := { m.scheduler with phase := .stopped, queue } },
        [.joinDispatcher] ++ left.map (.cancel ·.task) ++ [.stopLoop])
  | .joinDispatcher =>
    if m.othersAny self fun s => s.role == .dispatcher && !s.exited then none else some (m, [])

/-- What a strand does when its code is worked off: new code, or that it leaves.  `none` while it
has to wait. -/
def idleStep (heedStop : Bool) (m : Machine α) : Role → Option (Machine α × List (Instr α) × Bool)
  | .caller => none
  | .worker =>
    if m.loop.stopSignal && (heedStop || m.loop.queue.isEmpty) then some (m, [], true)
    else
      match m.loop.queue with
      | t :: rest => some (m.onLoop fun l => { l with queue := rest }, runTask t, false)
      | [] => none
  | .microtasks =>
    if m.loop.stopSignal && (heedStop || m.loop.microtasks.isEmpty) then some (m, [], true)
    else if m.loop.microtasks.isEmpty then none
    else if m.loop.hasTicked m.loop.config.microtaskInterval m.clock then
      some (m.onLoop fun l => { l with microtasks := [] }, m.loop.microtasks.flatMap runTask, false)
    else none
  | .timers =>
    if m.loop.stopSignal && (heedStop || m.loop.timers.isEmpty) then some (m, [], true)
    else if m.loop.timers.isEmpty || m.clock ≤ m.loop.lastScan then none
    else if m.loop.hasTicked m.loop.config.timerInterval m.clock then
      some (m.onLoop fun l => { l with lastScan := m.clock },
        [.scanTimers m.clock m.loop.timers []], false)
    else none
  | .dispatcher =>
    if m.scheduler.phase ≠ .running then some (m, [], true)
    else
      match m.scheduler.queue.popDue m.clock with
      | some (e, queue) =>
        some ({ m with scheduler := { m.scheduler with queue } }, [.submit e.task .dispatcher],
          false)
      | none => none

/-- Let the strand with the given number take one step; `none` while it has to wait or has left. -/
def step (heedStop : Bool) (m : Machine α) (self : Nat) : Option (Machine α) :=
  match m.strands[self]? with
  | none => none
  | some s =>
    if s.exited then none
    else
      let put (m : Machine α) (f : Strand α → Strand α) : Machine α :=
        { m with strands := m.strands.modify self f }
      match s.code with
      | instr :: rest =>
        (m.exec heedStop self instr).map fun (m, code) =>
          put m fun s => { s with code := code ++ rest }
      | [] =>
        (m.idleStep heedStop s.role).map fun (m, code, exited) =>
          put m fun s => { s with code, exited }

end Machine

end ManagedHost
