import ManagedHost.Loop.Run
import Mathlib.Tactic.SplitIfs

/-!
# The rules of the machine

`Machine.Rule` says what carrying out an instruction makes of the machine and which instructions
take its place, with one rule for each way it can go: these are the ways of `Machine.exec`
(`exec_ruled`, `Rule.exec_eq`).  `Machine.Waits` says when an instruction waits (`exec_waits`).
What an instruction does to one part of the machine, to a task, the loop, the promises or the
scheduler, is proved by cases on the rules; those that have nothing to do with that part need no
case of their own.
-/

namespace ManagedHost.Machine

variable {α : Type} {heedStop : Bool} {m m' : Machine α} {self : Nat} {i : Instr α}
  {code : List (Instr α)}

/-- **The rules of the machine**: the strand `self` carries out the instruction, which makes another
machine of `m` and is replaced by other instructions. -/
inductive Rule (heedStop : Bool) (m : Machine α) (self : Nat) :
    Instr α → Machine α → List (Instr α) → Prop where
  -- tasks that are run
  | start {t : TaskId} {c : TaskCell α} (hc : m.tasks[t]? = some c)
      (hpending : c.state = .pending) :
      Rule heedStop m self (.start t) (m.modify t fun _ => { c with state := .running }) [.enter t]
  | startLate {t : TaskId} (hlate : ∀ c, m.tasks[t]? = some c → c.state ≠ .pending) :
      Rule heedStop m self (.start t) m []
  | enterNone {t : TaskId} (hnone : m.tasks[t]? = none) : Rule heedStop m self (.enter t) m []
  | enterMissing {t : TaskId} {c : TaskCell α} (hc : m.tasks[t]? = some c)
      (hbody : c.body = none) :
      Rule heedStop m self (.enter t) (m.modify t fun _ => { c with body := none })
        [.settle t .running (.error (.failed "task body missing")) .run]
  | enterScript {t : TaskId} {c : TaskCell α} {actions : List Action} {ending : Ending α}
      (hc : m.tasks[t]? = some c) (hbody : c.body = some (.script actions ending)) :
      Rule heedStop m self (.enter t) (m.modify t fun _ => { c with body := none })
        [.perform t actions ending]
  | enterAndThen {t parent : TaskId} {c : TaskCell α} {text : Option String}
      {f : α → Completion α} (hc : m.tasks[t]? = some c)
      (hbody : c.body = some (.andThen parent text f)) :
      Rule heedStop m self (.enter t) (m.modify t fun _ => { c with body := none })
        [.andThen t parent text f]
  | enterOrElse {t parent : TaskId} {c : TaskCell α} {text : Option String}
      {g : TaskError → Completion α} (hc : m.tasks[t]? = some c)
      (hbody : c.body = some (.orElse parent text g)) :
      Rule heedStop m self (.enter t) (m.modify t fun _ => { c with body := none })
        [.orElse t parent text g]
  /-- The setup of the promise gets a strand of its own. -/
  | enterPromise {t : TaskId} {c : TaskCell α} {setup : PromiseSetup α}
      (hc : m.tasks[t]? = some c) (hbody : c.body = some (.promise setup)) :
      Rule heedStop m self (.enter t)
        { m.modify t fun _ => { c with body := none } with
          promises := m.promises ++ [{ task := t }]
          strands := m.strands ++ [{ role := .caller, code := [.setup m.promises.length setup] }] }
        [.awaitPromise t m.promises.length]
  | enterAll {t : TaskId} {c : TaskCell α} {tasks : List TaskId} {pack : List α → α}
      (hc : m.tasks[t]? = some c) (hbody : c.body = some (.all tasks pack)) :
      Rule heedStop m self (.enter t) (m.modify t fun _ => { c with body := none })
        [.awaitAll t tasks [] pack]
  | enterRace {t : TaskId} {c : TaskCell α} {tasks : List TaskId} (hc : m.tasks[t]? = some c)
      (hbody : c.body = some (.race tasks)) :
      Rule heedStop m self (.enter t) (m.modify t fun _ => { c with body := none })
        [.awaitAny t tasks]
  | hold {t : TaskId} (hopen : m.gate.contains t = false) : Rule heedStop m self (.hold t) m []
  -- scripts
  | scriptEnd {t : TaskId} {ending : Ending α} :
      Rule heedStop m self (.perform t [] ending) m
        [.settle t .running (m.endingResult t ending) .run]
  | note {t : TaskId} {text : String} {rest : List Action} {ending : Ending α} :
      Rule heedStop m self (.perform t (.note text :: rest) ending) (m.note text)
        [.perform t rest ending]
  | noteToken {t : TaskId} {rest : List Action} {ending : Ending α} :
      Rule heedStop m self (.perform t (.noteToken :: rest) ending) (m.note s!"token {m.token t}")
        [.perform t rest ending]
  | noteState {t k : TaskId} {handle : Nat} {rest : List Action} {ending : Ending α}
      (hk : m.handles[handle]? = some k) :
      Rule heedStop m self (.perform t (.noteState handle :: rest) ending)
        (m.note (s!"state {handle} " ++ (m.state k).name)) [.perform t rest ending]
  | signalSelf {t : TaskId} {rest : List Action} {ending : Ending α} :
      Rule heedStop m self (.perform t (.signal :: rest) ending) (m.modify t TaskCell.signal)
        [.perform t rest ending]
  | cancelHandle {t k : TaskId} {handle : Nat} {rest : List Action} {ending : Ending α}
      (hk : m.handles[handle]? = some k) :
      Rule heedStop m self (.perform t (.cancel handle :: rest) ending) m
        [.cancel k, .perform t rest ending]
  | runHandle {t k : TaskId} {handle : Nat} {rest : List Action} {ending : Ending α}
      (hk : m.handles[handle]? = some k) :
      Rule heedStop m self (.perform t (.run handle :: rest) ending) m
        [.start k, .perform t rest ending]
  /-- The action names a task for which there is no handle. -/
  | handleMissing {t : TaskId} {handle : Nat} {action : Action} {rest : List Action}
      {ending : Ending α}
      (haction : action = .noteState handle ∨ action = .cancel handle ∨ action = .run handle)
      (hnone : m.handles[handle]? = none) :
      Rule heedStop m self (.perform t (action :: rest) ending) m
        [.settle t .running (.error (.panicked (m.missingHandle handle))) .run]
  | gate {t : TaskId} {rest : List Action} {ending : Ending α} :
      Rule heedStop m self (.perform t (.gate :: rest) ending) { m with gate := m.gate ++ [t] }
        [.hold t, .perform t rest ending]
  | waitToken {t : TaskId} {rest : List Action} {ending : Ending α} (htoken : m.token t = true) :
      Rule heedStop m self (.perform t (.waitToken :: rest) ending) m [.perform t rest ending]
  | stopFromWithin {t : TaskId} {rest : List Action} {ending : Ending α} :
      Rule heedStop m self (.perform t (.stopLoop :: rest) ending) m
        [.stopLoop, .perform t rest ending]
  -- bodies that wait for others
  | andThen {t parent : TaskId} {text : Option String} {f : α → Completion α} {value : α}
      (hparent : m.outcome parent = some (.ok value)) :
      Rule heedStop m self (.andThen t parent text f) { m with notes := m.notes ++ text.toList }
        [.settle t .running (f value).result .run]
  | andThenError {t parent : TaskId} {text : Option String} {f : α → Completion α} {e : TaskError}
      (hparent : m.outcome parent = some (.error e)) :
      Rule heedStop m self (.andThen t parent text f) m [.settle t .running (.error e) .run]
  | orElse {t parent : TaskId} {text : Option String} {g : TaskError → Completion α}
      {e : TaskError} (hparent : m.outcome parent = some (.error e)) :
      Rule heedStop m self (.orElse t parent text g) { m with notes := m.notes ++ text.toList }
        [.settle t .running (g e).result .run]
  | orElseValue {t parent : TaskId} {text : Option String} {g : TaskError → Completion α}
      {value : α} (hparent : m.outcome parent = some (.ok value)) :
      Rule heedStop m self (.orElse t parent text g) m [.settle t .running (.ok value) .run]
  | promiseMessage {t : TaskId} {p : Nat} {c : PromiseCell α} {result : TaskResult α}
      (hc : m.promises[p]? = some c) (hmessage : c.message = some result) :
      Rule heedStop m self (.awaitPromise t p) m
        [.settle t .running (if m.token t && heedStop then .error .cancelled else result) .run]
  | promiseToken {t : TaskId} {p : Nat} {c : PromiseCell α} (hc : m.promises[p]? = some c)
      (hmessage : c.message = none) (htoken : m.token t = true)
      (hheed : (heedStop || !(!c.resolver && !c.settingUp)) = true) :
      Rule heedStop m self (.awaitPromise t p) m [.settle t .running (.error .cancelled) .run]
  | promiseClosed {t : TaskId} {p : Nat} {c : PromiseCell α} (hc : m.promises[p]? = some c)
      (hmessage : c.message = none) (hclosed : (!c.resolver && !c.settingUp) = true)
      (hquiet : (m.token t && heedStop) = false) :
      Rule heedStop m self (.awaitPromise t p) m [.settle t .running (.error .abandoned) .run]
  | allDone {t : TaskId} {got : List α} {pack : List α → α} :
      Rule heedStop m self (.awaitAll t [] got pack) m
        [.settle t .running (.ok (pack got.reverse)) .run]
  | allNext {t k : TaskId} {rest : List TaskId} {got : List α} {pack : List α → α} {value : α}
      (hk : m.outcome k = some (.ok value)) :
      Rule heedStop m self (.awaitAll t (k :: rest) got pack) m
        [.awaitAll t rest (value :: got) pack]
  | allError {t k : TaskId} {rest : List TaskId} {got : List α} {pack : List α → α} {e : TaskError}
      (hk : m.outcome k = some (.error e)) :
      Rule heedStop m self (.awaitAll t (k :: rest) got pack) m [.settle t .running (.error e) .run]
  | raceWon {t : TaskId} {tasks : List TaskId} {result : TaskResult α}
      (hfirst : tasks.findSome? m.outcome = some result) :
      Rule heedStop m self (.awaitAny t tasks) m
        [.settle t .running (if m.token t && heedStop then .error .cancelled else result) .run]
  | raceToken {t : TaskId} {tasks : List TaskId} (hnone : tasks.findSome? m.outcome = none)
      (htoken : m.token t = true) (hheed : (heedStop || !tasks.isEmpty) = true) :
      Rule heedStop m self (.awaitAny t tasks) m [.settle t .running (.error .cancelled) .run]
  | raceEmpty {t : TaskId} (hquiet : (m.token t && heedStop) = false) :
      Rule heedStop m self (.awaitAny t []) m [.settle t .running (.error .abandoned) .run]
  -- settlements and what follows them
  | settle {t : TaskId} {old : TaskState} {result : TaskResult α} {mode : SettleMode}
      {c : TaskCell α} (hc : m.tasks[t]? = some c) (hold : c.state = old) :
      Rule heedStop m self (.settle t old result mode)
        (m.modify t fun _ => { c with state := result.state, outcome := some result })
        ((if result.state = .cancelled then [Instr.signal t] else []) ++ [Instr.release t]
          ++ (if mode = .run then [] else [Instr.dropBody t]))
  | settleLate {t : TaskId} {old : TaskState} {result : TaskResult α} {mode : SettleMode}
      (hlate : ∀ c, m.tasks[t]? = some c → c.state ≠ old) :
      Rule heedStop m self (.settle t old result mode) m
        (if mode = .cancel then [.cancel t] else [])
  | signal {t : TaskId} : Rule heedStop m self (.signal t) (m.modify t TaskCell.signal) []
  | releaseNone {t : TaskId} (hnone : m.tasks[t]? = none) : Rule heedStop m self (.release t) m []
  | release {t : TaskId} {c : TaskCell α} (hc : m.tasks[t]? = some c) :
      Rule heedStop m self (.release t)
        (m.modify t fun _ => { c with sealed := true, continuations := [] })
        [.dispatch t c.continuations]
  | dispatchNone {t : TaskId} {children : List TaskId} (hnone : m.tasks[t]? = none) :
      Rule heedStop m self (.dispatch t children) m []
  | dispatch {t : TaskId} {children : List TaskId} {c : TaskCell α} (hc : m.tasks[t]? = some c) :
      Rule heedStop m self (.dispatch t children) m
        (children.map fun k => if c.bound then .microtask k false else .start k)
  | registerNone {t child : TaskId} (hnone : m.tasks[t]? = none) :
      Rule heedStop m self (.register t child) m []
  | register {t child : TaskId} {c : TaskCell α} (hc : m.tasks[t]? = some c)
      (hopen : c.sealed = false) :
      Rule heedStop m self (.register t child)
        (m.modify t fun _ => { c with continuations := c.continuations ++ [child] }) []
  | registerLate {t child : TaskId} {c : TaskCell α} (hc : m.tasks[t]? = some c)
      (hsealed : c.sealed = true) :
      Rule heedStop m self (.register t child) m [.dispatch t [child]]
  | dropBody {t : TaskId} :
      Rule heedStop m self (.dropBody t) (m.modify t fun c => { c with body := none }) []
  | cancel {t : TaskId} (hopen : (m.state t).isTerminal = false) :
      Rule heedStop m self (.cancel t) m [.settle t (m.state t) (.error .cancelled) .cancel]
  | cancelLate {t : TaskId} (hterminal : (m.state t).isTerminal = true) :
      Rule heedStop m self (.cancel t) m []
  | fail {t : TaskId} {e : TaskError} :
      Rule heedStop m self (.fail t e) m [.settle t .pending (.error e) .fail]
  -- submissions
  | submit {t : TaskId} {who : Submitter} (hphase : m.loop.phase = .running) :
      Rule heedStop m self (.submit t who)
        { m.modify t fun c => { c with bound := true } with
          loop := { m.loop.adopt t with
            submitting := m.loop.submitting + 1
            stats := { m.loop.stats with scheduled := m.loop.stats.scheduled + 1 } } }
        [.enqueue t who]
  | submitRefused {t : TaskId} {who : Submitter} (hphase : m.loop.phase ≠ .running) :
      Rule heedStop m self (.submit t who) (m.refused t .notRunning who).1
        (m.refused t .notRunning who).2
  | enqueue {t : TaskId} {who : Submitter} (hroom : m.hasRoom = true)
      (hgo : (m.loop.stopSignal && heedStop) = false) :
      Rule heedStop m self (.enqueue t who)
        (accepted { m with loop := { m.loop with
          submitting := m.loop.submitting - 1, queue := m.loop.queue ++ [t] } } who).1
        (m.accepted who).2
  | enqueueRefused {t : TaskId} {who : Submitter} (hsignal : m.loop.stopSignal = true)
      (hheed : (heedStop || !m.hasRoom) = true) :
      Rule heedStop m self (.enqueue t who)
        (refused { m with loop := { m.loop with
          submitting := m.loop.submitting - 1, active := m.loop.active.erase t } } t .stopped who).1
        (m.refused t .stopped who).2
  | microtask {t : TaskId} {caller : Bool} (hphase : m.loop.phase ≠ .stopped) :
      Rule heedStop m self (.microtask t caller)
        { m.modify t fun c => { c with bound := true } with
          loop := { m.loop.adopt t with
            microtasks := m.loop.microtasks ++ [t]
            stats := { m.loop.stats with microtasks := m.loop.stats.microtasks + 1 } } }
        (if caller then [.answer (.ok ())] else [])
  | microtaskRefused {t : TaskId} {caller : Bool} (hphase : m.loop.phase = .stopped) :
      Rule heedStop m self (.microtask t caller) m
        (if caller then [.answer (.error .stopped)] else [.fail t .stopped])
  | answer {result : TaskResult Unit} :
      Rule heedStop m self (.answer result)
        { m with strands := m.strands.modify self fun s => { s with answer := some result } } []
  -- the loop, its timers and promises
  | leave {t : TaskId} :
      Rule heedStop m self (.leave t) { m with loop := m.loop.release t } []
  | record {t : TaskId} :
      Rule heedStop m self (.record t)
        { m with loop := { m.loop with stats := m.loop.stats.record (m.state t) } } []
  | scanDone {now : Nat} {due : List TaskId} :
      Rule heedStop m self (.scanTimers now [] due) m (due.map (.submit · .timer))
  | scanDrop {now timer : Nat} {rest : List Nat} {due : List TaskId}
      (hlate : ∀ c, m.timers[timer]? = some c → c.cancelled = true) :
      Rule heedStop m self (.scanTimers now (timer :: rest) due)
        { m with loop := { m.loop with timers := m.loop.timers.erase timer } }
        [.scanTimers now rest due]
  | scanFind {now timer : Nat} {rest : List Nat} {due : List TaskId} {c : TimerCell α}
      (hc : m.timers[timer]? = some c) (hopen : c.cancelled = false) :
      Rule heedStop m self (.scanTimers now (timer :: rest) due) m [.pollTimer now timer rest due]
  | pollEarly {now timer : Nat} {todo : List Nat} {due : List TaskId}
      (hearly : ∀ c, m.timers[timer]? = some c → now < c.nextRun) :
      Rule heedStop m self (.pollTimer now timer todo due) m [.scanTimers now todo due]
  | fireOnce {now timer : Nat} {todo : List Nat} {due : List TaskId} {c : TimerCell α}
      (hc : m.timers[timer]? = some c) (hdue : c.nextRun ≤ now) (honce : c.repeating = none) :
      Rule heedStop m self (.pollTimer now timer todo due)
        { m with
          timers := m.timers.set timer (c.fire now m.tasks.length)
          loop := { m.loop with timers := m.loop.timers.erase timer } }
        [.scanTimers now todo (due ++ [c.armed])]
  /-- A repeating timer arms a new task. -/
  | fireAgain {now timer : Nat} {todo : List Nat} {due : List TaskId} {c : TimerCell α}
      {interval : Nat} {body : Body α} (hc : m.timers[timer]? = some c) (hdue : c.nextRun ≤ now)
      (hagain : c.repeating = some (interval, body)) :
      Rule heedStop m self (.pollTimer now timer todo due)
        { m with
          tasks := m.tasks ++ [TaskCell.ofBody body]
          timers := m.timers.set timer (c.fire now m.tasks.length) }
        [.scanTimers now todo (due ++ [c.armed])]
  | cancelTimer {timer : Nat} {c : TimerCell α} (hc : m.timers[timer]? = some c)
      (hopen : c.cancelled = false) :
      Rule heedStop m self (.cancelTimer timer)
        { m with timers := m.timers.set timer { c with cancelled := true } } [.cancelArmed timer]
  | cancelTimerLate {timer : Nat} (hlate : ∀ c, m.timers[timer]? = some c → c.cancelled = true) :
      Rule heedStop m self (.cancelTimer timer) m []
  | cancelArmed {timer : Nat} {c : TimerCell α} (hc : m.timers[timer]? = some c) :
      Rule heedStop m self (.cancelArmed timer) m [.cancel c.armed]
  | cancelArmedNone {timer : Nat} (hnone : m.timers[timer]? = none) :
      Rule heedStop m self (.cancelArmed timer) m []
  | setup {p : Nat} {setup : PromiseSetup α} :
      Rule heedStop m self (.setup p setup)
        { m with
          notes := m.notes ++ [setup.text]
          promises := m.promises.modify p fun c =>
            match setup.step with
            | .settle result =>
              { c with message := c.message <|> some result, resolver := false, kept := false }
            | .keep => { c with resolver := true, kept := true }
            | .drop => { c with resolver := false, kept := false } }
        [.setupEnd p setup.panic]
  | setupEnd {p : Nat} {panic : Option String} :
      Rule heedStop m self (.setupEnd p panic)
        { m with
          promises := m.promises.modify p fun c =>
            match panic with
            | some message =>
              { c with
                message := c.message <|> some (.error (.panicked message)), settingUp := false }
            | none => { c with settingUp := false } } []
  -- calls of stop
  | stopLoop (hphase : m.loop.phase = .running) :
      Rule heedStop m self .stopLoop { m with loop := { m.loop with stopSignal := true } }
        [.markStopped]
  | stopLoopLate (hphase : m.loop.phase ≠ .running) : Rule heedStop m self .stopLoop m []
  | markStopped (hsubmitting : m.loop.submitting = 0) (hphase : m.loop.phase = .running) :
      Rule heedStop m self .markStopped { m with loop := { m.loop with phase := .stopped } }
        [.joinThreads]
  | markStoppedLate (hsubmitting : m.loop.submitting = 0) (hphase : m.loop.phase ≠ .running) :
      Rule heedStop m self .markStopped m []
  | joinThreads (hothers : m.othersAny self isLoopThread = false) :
      Rule heedStop m self .joinThreads m [.sweepLoop]
  | sweepLoop :
      Rule heedStop m self .sweepLoop
        { m with loop := { m.loop with timers := [], queue := [], microtasks := [], active := [] } }
        (m.loop.timers.map Instr.cancelTimer ++
          (m.loop.queue ++ m.loop.microtasks ++ m.loop.active).map Instr.cancelLeft)
  | cancelLeft {t : TaskId} (hopen : (m.state t).isTerminal = false) :
      Rule heedStop m self (.cancelLeft t) m [.cancel t, .record t]
  | cancelLeftLate {t : TaskId} (hterminal : (m.state t).isTerminal = true) :
      Rule heedStop m self (.cancelLeft t) m []
  | stopScheduler (hphase : m.scheduler.phase ≠ .stopped) :
      Rule heedStop m self .stopScheduler
        { m with
          scheduler := { m.scheduler with phase := .stopped, queue := m.scheduler.queue.drain.2 } }
        ([Instr.joinDispatcher] ++ m.scheduler.queue.drain.1.map (Instr.cancel ·.task) ++
          [Instr.stopLoop])
  | stopSchedulerLate (hphase : m.scheduler.phase = .stopped) :
      Rule heedStop m self .stopScheduler m []
  | joinDispatcher
      (hothers : m.othersAny self (fun s => s.role == .dispatcher && !s.exited) = false) :
      Rule heedStop m self .joinDispatcher m []

/-- **The instruction waits**: what it needs is not there. -/
inductive Waits (m : Machine α) (self : Nat) : Instr α → Prop where
  | hold {t : TaskId} (hheld : m.gate.contains t = true) : Waits m self (.hold t)
  | waitToken {t : TaskId} {rest : List Action} {ending : Ending α} (htoken : m.token t = false) :
      Waits m self (.perform t (.waitToken :: rest) ending)
  | andThen {t parent : TaskId} {text : Option String} {f : α → Completion α}
      (hparent : m.outcome parent = none) : Waits m self (.andThen t parent text f)
  | orElse {t parent : TaskId} {text : Option String} {g : TaskError → Completion α}
      (hparent : m.outcome parent = none) : Waits m self (.orElse t parent text g)
  | promiseMissing {t : TaskId} {p : Nat} (hnone : m.promises[p]? = none) :
      Waits m self (.awaitPromise t p)
  | promise {t : TaskId} {p : Nat} {c : PromiseCell α} (hc : m.promises[p]? = some c)
      (hmessage : c.message = none) (hopen : (!c.resolver && !c.settingUp) = false)
      (htoken : m.token t = false) : Waits m self (.awaitPromise t p)
  | all {t k : TaskId} {rest : List TaskId} {got : List α} {pack : List α → α}
      (hk : m.outcome k = none) : Waits m self (.awaitAll t (k :: rest) got pack)
  | race {t : TaskId} {tasks : List TaskId} (hnone : tasks.findSome? m.outcome = none)
      (hsome : tasks.isEmpty = false) (htoken : m.token t = false) :
      Waits m self (.awaitAny t tasks)
  | enqueue {t : TaskId} {who : Submitter} (hroom : m.hasRoom = false)
      (hsignal : m.loop.stopSignal = false) : Waits m self (.enqueue t who)
  | markStopped (hsubmitting : 0 < m.loop.submitting) : Waits m self .markStopped
  | joinThreads (hothers : m.othersAny self isLoopThread = true) : Waits m self .joinThreads
  | joinDispatcher
      (hothers : m.othersAny self (fun s => s.role == .dispatcher && !s.exited) = true) :
      Waits m self .joinDispatcher

/-! ### Carrying out an instruction goes by the rules -/

/-- The instruction goes by a rule, unless it waits. -/
def Ruled (heedStop : Bool) (m : Machine α) (self : Nat) (i : Instr α) :
    Option (Machine α × List (Instr α)) → Prop
  | none => m.Waits self i
  | some (m', code) => m.Rule heedStop self i m' code

theorem ruled_none (h : m.Waits self i) : m.Ruled heedStop self i none := h

theorem ruled_some (h : m.Rule heedStop self i m' code) :
    m.Ruled heedStop self i (some (m', code)) := h

/-- A note of a continuation, if it takes one. -/
theorem elim_note (m : Machine α) (text : Option String) :
    text.elim m m.note = { m with notes := m.notes ++ text.toList } := by
  cases text with
  | none => simp
  | some text => rfl

theorem start_ruled (t : TaskId) :
    m.Ruled heedStop self (.start t) (m.exec heedStop self (.start t)) := by
  simp only [exec]
  split
  · next c hstart =>
    obtain ⟨d, hd, hstart⟩ := Option.bind_eq_some_iff.mp hstart
    unfold TaskCell.start? at hstart
    split_ifs at hstart with hpending
    obtain rfl := Option.some.inj hstart
    exact ruled_some (.start hd hpending)
  · next hnone =>
    refine ruled_some (.startLate fun c hc hpending => ?_)
    rw [hc, Option.bind_some, TaskCell.start?, if_pos hpending] at hnone
    cases hnone

theorem enter_ruled (t : TaskId) :
    m.Ruled heedStop self (.enter t) (m.exec heedStop self (.enter t)) := by
  simp only [exec]
  split
  · next hnone => exact ruled_some (.enterNone hnone)
  · next c hc =>
    simp only [TaskCell.takeBody]
    split
    · next hbody => exact ruled_some (.enterMissing hc hbody)
    · next hbody => exact ruled_some (.enterScript hc hbody)
    · next hbody => exact ruled_some (.enterAndThen hc hbody)
    · next hbody => exact ruled_some (.enterOrElse hc hbody)
    · next hbody => exact ruled_some (.enterPromise hc hbody)
    · next hbody => exact ruled_some (.enterAll hc hbody)
    · next hbody => exact ruled_some (.enterRace hc hbody)

theorem perform_ruled (t : TaskId) (actions : List Action) (ending : Ending α) :
    m.Ruled heedStop self (.perform t actions ending) (m.perform t actions ending) := by
  cases actions with
  | nil => exact ruled_some .scriptEnd
  | cons action rest =>
    cases action with
    | note => exact ruled_some .note
    | noteToken => exact ruled_some .noteToken
    | signal => exact ruled_some .signalSelf
    | gate => exact ruled_some .gate
    | stopLoop => exact ruled_some .stopFromWithin
    | waitToken =>
      simp only [perform]
      split_ifs with htoken
      · exact ruled_some (.waitToken htoken)
      · exact ruled_none (.waitToken (Bool.eq_false_iff.mpr htoken))
    -- the others name a task
    | noteState handle =>
      simp only [perform]
      split
      · next hk => exact ruled_some (.noteState hk)
      · next hnone => exact ruled_some (.handleMissing (Or.inl rfl) hnone)
    | cancel handle =>
      simp only [perform]
      split
      · next hk => exact ruled_some (.cancelHandle hk)
      · next hnone => exact ruled_some (.handleMissing (Or.inr (Or.inl rfl)) hnone)
    | run handle =>
      simp only [perform]
      split
      · next hk => exact ruled_some (.runHandle hk)
      · next hnone => exact ruled_some (.handleMissing (Or.inr (Or.inr rfl)) hnone)

/-- An instruction that waits for another task. -/
theorem outcome_ruled {k : TaskId} {f : TaskResult α → Machine α × List (Instr α)}
    (hwaits : m.outcome k = none → m.Waits self i)
    (h : ∀ r, m.outcome k = some r → m.Rule heedStop self i (f r).1 (f r).2) :
    m.Ruled heedStop self i ((m.outcome k).map f) := by
  cases hk : m.outcome k with
  | none => exact ruled_none (hwaits hk)
  | some r => exact ruled_some (h r hk)

theorem awaitPromise_ruled (t : TaskId) (p : Nat) :
    m.Ruled heedStop self (.awaitPromise t p) (m.exec heedStop self (.awaitPromise t p)) := by
  simp only [exec]
  split
  · next hnone => exact ruled_none (.promiseMissing hnone)
  · next c hc =>
    split
    · next hmessage => exact ruled_some (.promiseMessage hc hmessage)
    · next hmessage =>
      split_ifs with htoken hclosed
      · obtain ⟨htoken, hheed⟩ := Bool.and_eq_true_iff.mp htoken
        exact ruled_some (.promiseToken hc hmessage htoken hheed)
      · refine ruled_some (.promiseClosed hc hmessage hclosed ?_)
        rw [hclosed] at htoken
        simpa using htoken
      · -- whoever finds the promise open heeds the signal in any case
        have hopen := Bool.eq_false_iff.mpr hclosed
        rw [hopen] at htoken
        exact ruled_none (.promise hc hmessage hopen (by simpa using htoken))

theorem awaitAny_ruled (t : TaskId) (tasks : List TaskId) :
    m.Ruled heedStop self (.awaitAny t tasks) (m.exec heedStop self (.awaitAny t tasks)) := by
  simp only [exec]
  split
  · next hfirst => exact ruled_some (.raceWon hfirst)
  · next hnone =>
    split_ifs with htoken hempty
    · obtain ⟨htoken, hheed⟩ := Bool.and_eq_true_iff.mp htoken
      exact ruled_some (.raceToken hnone htoken hheed)
    · obtain rfl := List.isEmpty_iff.mp hempty
      exact ruled_some (.raceEmpty (by simpa using htoken))
    · have hsome := Bool.eq_false_iff.mpr hempty
      rw [hsome] at htoken
      exact ruled_none (.race hnone hsome (by simpa using htoken))

theorem settle_ruled (t : TaskId) (old : TaskState) (result : TaskResult α) (mode : SettleMode) :
    m.Ruled heedStop self (.settle t old result mode)
      (m.exec heedStop self (.settle t old result mode)) := by
  simp only [exec]
  split
  · next c hsettle =>
    obtain ⟨d, hd, hsettle⟩ := Option.bind_eq_some_iff.mp hsettle
    unfold TaskCell.settle? at hsettle
    split_ifs at hsettle with hold
    obtain rfl := Option.some.inj hsettle
    exact ruled_some (.settle hd hold)
  · next hnone =>
    refine ruled_some (.settleLate fun c hc hold => ?_)
    rw [hc, Option.bind_some, TaskCell.settle?, if_pos hold] at hnone
    cases hnone

theorem register_ruled (t child : TaskId) :
    m.Ruled heedStop self (.register t child) (m.exec heedStop self (.register t child)) := by
  simp only [exec, TaskCell.register?]
  split
  · next hnone => exact ruled_some (.registerNone hnone)
  · next c hc =>
    by_cases hsealed : c.sealed = true
    · rw [if_pos hsealed]
      exact ruled_some (.registerLate hc hsealed)
    · rw [if_neg hsealed]
      exact ruled_some (.register hc (Bool.eq_false_iff.mpr hsealed))

theorem enqueue_ruled (t : TaskId) (who : Submitter) :
    m.Ruled heedStop self (.enqueue t who) (m.enqueue heedStop t who) := by
  simp only [enqueue]
  split_ifs with hstop hroom
  · obtain ⟨hsignal, hheed⟩ := Bool.and_eq_true_iff.mp hstop
    cases who <;> exact ruled_some (.enqueueRefused hsignal hheed)
  · rw [hroom] at hstop
    cases who <;> exact ruled_some (.enqueue hroom (by simpa using hstop))
  · have hfull := Bool.eq_false_iff.mpr hroom
    rw [hfull] at hstop
    exact ruled_none (.enqueue hfull (by simpa using hstop))

theorem scanTimers_ruled (now : Nat) (todo : List Nat) (due : List TaskId) :
    m.Ruled heedStop self (.scanTimers now todo due) (some (m.scanTimers now todo due)) := by
  cases todo with
  | nil => exact ruled_some .scanDone
  | cons timer rest =>
    simp only [scanTimers]
    split_ifs with hlate
    · refine ruled_some (.scanDrop fun c hc => ?_)
      rwa [hc, Option.all_some] at hlate
    · cases hc : m.timers[timer]? with
      | none =>
        rw [hc, Option.all_none] at hlate
        exact absurd rfl hlate
      | some c =>
        rw [hc, Option.all_some] at hlate
        exact ruled_some (.scanFind hc (Bool.eq_false_iff.mpr hlate))

theorem pollTimer_ruled (now timer : Nat) (todo : List Nat) (due : List TaskId) :
    m.Ruled heedStop self (.pollTimer now timer todo due)
      (some (m.pollTimer now timer todo due)) := by
  simp only [pollTimer]
  split
  · next hnone => exact ruled_some (.pollEarly fun c hc => nomatch hnone.symm.trans hc)
  · next c hc =>
    split_ifs with hearly
    · refine ruled_some (.pollEarly fun d hd => ?_)
      obtain rfl := Option.some.inj (hc.symm.trans hd)
      exact hearly
    · have hdue := Nat.not_lt.mp hearly
      split
      · next hagain => exact ruled_some (.fireAgain hc hdue hagain)
      · next honce => exact ruled_some (.fireOnce hc hdue honce)

theorem cancelTimer_ruled (timer : Nat) :
    m.Ruled heedStop self (.cancelTimer timer) (m.exec heedStop self (.cancelTimer timer)) := by
  simp only [exec]
  split
  · next hnone => exact ruled_some (.cancelTimerLate fun c hc => nomatch hnone.symm.trans hc)
  · next c hc =>
    split_ifs with hcancelled
    · refine ruled_some (.cancelTimerLate fun d hd => ?_)
      obtain rfl := Option.some.inj (hc.symm.trans hd)
      exact hcancelled
    · exact ruled_some (.cancelTimer hc (Bool.eq_false_iff.mpr hcancelled))

theorem setup_ruled (p : Nat) (setup : PromiseSetup α) :
    m.Ruled heedStop self (.setup p setup) (m.exec heedStop self (.setup p setup)) := by
  have hrule : m.Rule heedStop self (.setup p setup) _ _ := .setup
  simp only [exec]
  cases hstep : setup.step with
  | settle result =>
    simp only [sendPromise, note]
    rw [List.modify_modify_eq]
    simp only [hstep] at hrule
    exact ruled_some hrule
  | keep =>
    simp only [hstep] at hrule
    exact ruled_some hrule
  | drop =>
    simp only [hstep] at hrule
    exact ruled_some hrule

theorem setupEnd_ruled (p : Nat) (panic : Option String) :
    m.Ruled heedStop self (.setupEnd p panic) (m.exec heedStop self (.setupEnd p panic)) := by
  simp only [exec]
  cases panic with
  | none => exact ruled_some .setupEnd
  | some message =>
    simp only [sendPromise]
    rw [List.modify_modify_eq]
    exact ruled_some .setupEnd

theorem ruled_exec (i : Instr α) : m.Ruled heedStop self i (m.exec heedStop self i) := by
  cases i with
  | start t => exact start_ruled t
  | enter t => exact enter_ruled t
  | perform t actions ending => exact perform_ruled t actions ending
  | awaitPromise t p => exact awaitPromise_ruled t p
  | awaitAny t tasks => exact awaitAny_ruled t tasks
  | settle t old result mode => exact settle_ruled t old result mode
  | register t child => exact register_ruled t child
  | enqueue t who => exact enqueue_ruled t who
  | scanTimers now todo due => exact scanTimers_ruled now todo due
  | pollTimer now timer todo due => exact pollTimer_ruled now timer todo due
  | cancelTimer timer => exact cancelTimer_ruled timer
  | setup p setup => exact setup_ruled p setup
  | setupEnd p panic => exact setupEnd_ruled p panic
  | hold t =>
    simp only [exec]
    split_ifs with hheld
    · exact ruled_none (.hold hheld)
    · exact ruled_some (.hold (Bool.eq_false_iff.mpr hheld))
  | andThen t parent text f =>
    refine outcome_ruled .andThen fun r hr => ?_
    cases r with
    | ok value =>
      dsimp only
      rw [elim_note]
      exact .andThen hr
    | error e => exact .andThenError hr
  | orElse t parent text g =>
    refine outcome_ruled .orElse fun r hr => ?_
    cases r with
    | ok value => exact .orElseValue hr
    | error e =>
      dsimp only
      rw [elim_note]
      exact .orElse hr
  | awaitAll t tasks got pack =>
    cases tasks with
    | nil => exact ruled_some .allDone
    | cons k rest =>
      refine outcome_ruled .all fun r hr => ?_
      cases r with
      | ok value => exact .allNext hr
      | error e => exact .allError hr
  | signal t => exact ruled_some .signal
  | release t =>
    simp only [exec]
    split
    · next hnone => exact ruled_some (.releaseNone hnone)
    · next hc => exact ruled_some (.release hc)
  | dispatch t children =>
    simp only [exec]
    split
    · next hnone => exact ruled_some (.dispatchNone hnone)
    · next hc => exact ruled_some (.dispatch hc)
  | dropBody t => exact ruled_some .dropBody
  | cancel t =>
    simp only [exec]
    split_ifs with hterminal
    · exact ruled_some (.cancelLate hterminal)
    · exact ruled_some (.cancel (Bool.eq_false_iff.mpr hterminal))
  | fail t e => exact ruled_some .fail
  | submit t who =>
    simp only [exec]
    split_ifs with hphase
    · exact ruled_some (.submit hphase)
    · exact ruled_some (.submitRefused hphase)
  | microtask t caller =>
    simp only [exec]
    by_cases hphase : m.loop.phase = .stopped
    · rw [if_pos hphase]
      exact ruled_some (.microtaskRefused hphase)
    · rw [if_neg hphase]
      exact ruled_some (.microtask hphase)
  | answer result => exact ruled_some .answer
  | leave t => exact ruled_some .leave
  | record t => exact ruled_some .record
  | cancelArmed timer =>
    simp only [exec]
    split
    · next hnone => exact ruled_some (.cancelArmedNone hnone)
    · next hc => exact ruled_some (.cancelArmed hc)
  | stopLoop =>
    simp only [exec]
    split_ifs with hphase
    · exact ruled_some (.stopLoop hphase)
    · exact ruled_some (.stopLoopLate hphase)
  | markStopped =>
    simp only [exec]
    split_ifs with hsubmitting hphase
    · exact ruled_none (.markStopped hsubmitting)
    · exact ruled_some (.markStopped (Nat.eq_zero_of_not_pos hsubmitting) hphase)
    · exact ruled_some (.markStoppedLate (Nat.eq_zero_of_not_pos hsubmitting) hphase)
  | joinThreads =>
    simp only [exec]
    split_ifs with hothers
    · exact ruled_none (.joinThreads hothers)
    · exact ruled_some (.joinThreads (Bool.eq_false_iff.mpr hothers))
  | sweepLoop => exact ruled_some .sweepLoop
  | cancelLeft t =>
    simp only [exec]
    split_ifs with hterminal
    · exact ruled_some (.cancelLeftLate hterminal)
    · exact ruled_some (.cancelLeft (Bool.eq_false_iff.mpr hterminal))
  | stopScheduler =>
    simp only [exec]
    split_ifs with hphase
    · exact ruled_some (.stopSchedulerLate hphase)
    · exact ruled_some (.stopScheduler hphase)
  | joinDispatcher =>
    simp only [exec]
    split_ifs with hothers
    · exact ruled_none (.joinDispatcher hothers)
    · exact ruled_some (.joinDispatcher (Bool.eq_false_iff.mpr hothers))

/-- **What is done goes by the rules.** -/
theorem exec_ruled (h : m.exec heedStop self i = some (m', code)) :
    m.Rule heedStop self i m' code := by
  have hruled : m.Ruled heedStop self i _ := ruled_exec i
  rwa [h] at hruled

/-- **What is not done waits.** -/
theorem exec_waits (h : m.exec heedStop self i = none) : m.Waits self i := by
  have hruled : m.Ruled heedStop self i _ := ruled_exec i
  rwa [h] at hruled

/-! ### The rules are carried out -/

theorem start?_eq_none {t : TaskId} (hlate : ∀ c, m.tasks[t]? = some c → c.state ≠ .pending) :
    m.tasks[t]?.bind TaskCell.start? = none :=
  Option.bind_eq_none_iff.mpr fun c hc => if_neg (hlate c hc)

theorem isSome_start? {t : TaskId} {c : TaskCell α} (hc : m.tasks[t]? = some c)
    (hpending : c.state = .pending) : (m.tasks[t]?.bind TaskCell.start?).isSome = true := by
  rw [hc, Option.bind_some, TaskCell.start?, if_pos hpending, Option.isSome_some]

theorem settle?_eq_none {t : TaskId} {old : TaskState} {result : TaskResult α}
    (hlate : ∀ c, m.tasks[t]? = some c → c.state ≠ old) :
    (m.tasks[t]?.bind (·.settle? old result)) = none :=
  Option.bind_eq_none_iff.mpr fun c hc => if_neg (hlate c hc)

/-- **What the rules allow is done.** -/
theorem Rule.exec_eq (h : m.Rule heedStop self i m' code) :
    m.exec heedStop self i = some (m', code) := by
  cases h with
  | start hc hpending => simp [exec, hc, TaskCell.start?, hpending]
  | startLate hlate => simp [exec, start?_eq_none hlate]
  | enterPromise hc hbody =>
    simp only [exec, hc, TaskCell.takeBody, hbody]
    rfl
  | handleMissing haction hnone =>
    rcases haction with rfl | rfl | rfl <;> simp only [exec, perform, hnone]
  | andThen hparent => simp only [exec, hparent, Option.map_some, elim_note]
  | orElse hparent => simp only [exec, hparent, Option.map_some, elim_note]
  | raceToken hnone htoken hheed =>
    simp only [exec, hnone, htoken, hheed, Bool.and_self, if_true]
  | settle hc hold => simp [exec, hc, TaskCell.settle?, hold]
  | settleLate hlate => simp [exec, settle?_eq_none hlate]
  | submit hphase =>
    simp only [exec, if_pos hphase]
    rfl
  | @enqueue t who hroom hgo =>
    cases who <;> simp_all [exec, Machine.enqueue, accepted, onLoop]
  | @enqueueRefused t who hsignal hheed =>
    cases who <;> simp_all [exec, Machine.enqueue, refused, onLoop, EventLoop.release]
  | microtask hphase =>
    simp only [exec, if_neg hphase]
    rfl
  | @scanDrop now timer rest due hlate =>
    have hall : m.timers[timer]?.all (·.cancelled) = true := by
      cases hc : m.timers[timer]? with
      | none => rfl
      | some c => exact hlate c hc
    simp only [exec, scanTimers, if_pos hall]
    rfl
  | @pollEarly now timer todo due hearly =>
    simp only [exec, pollTimer]
    split
    · rfl
    · next c hc => rw [if_pos (hearly c hc)]
  | fireOnce hc hdue honce =>
    simp only [exec, pollTimer, hc, if_neg (Nat.not_lt.mpr hdue), honce]
    rfl
  | fireAgain hc hdue hagain =>
    simp only [exec, pollTimer, hc, if_neg (Nat.not_lt.mpr hdue), hagain]
    rfl
  | cancelTimerLate hlate =>
    simp only [exec]
    split
    · rfl
    · next c hc => rw [if_pos (hlate c hc)]
  | @setup p setup =>
    obtain ⟨text, step, panic⟩ := setup
    cases step with
    | settle result =>
      simp only [exec, sendPromise]
      rw [List.modify_modify_eq]
      rfl
    | keep => rfl
    | drop => rfl
  | @setupEnd p panic =>
    cases panic with
    | some message =>
      simp only [exec, sendPromise]
      rw [List.modify_modify_eq]
      rfl
    | none => rfl
  -- the other rules are read off the definition
  | _ =>
    simp_all [exec, perform, TaskCell.takeBody, TaskCell.register?, TaskCell.takeContinuations,
      onLoop, scanTimers]

/-! ### What is left behind in several instructions -/

section Code

variable {P : Instr α → Prop} {t : TaskId}

/-- What follows a settlement. -/
theorem forall_settled (hsignal : P (.signal t)) (hrelease : P (.release t))
    (hdrop : P (.dropBody t)) (result : TaskResult α) (mode : SettleMode) :
    ∀ j ∈ ((if result.state = .cancelled then [Instr.signal t] else []) ++ [Instr.release t]
      ++ (if mode = .run then [] else [Instr.dropBody t]) : List (Instr α)), P j := by
  split_ifs <;> simp [hsignal, hrelease, hdrop]

/-- What follows an attempt to settle that came too late. -/
theorem forall_retried (hcancel : P (.cancel t)) (mode : SettleMode) :
    ∀ j ∈ (if mode = .cancel then [.cancel t] else [] : List (Instr α)), P j := by
  split_ifs <;> simp [hcancel]

/-- The continuations of a task. -/
theorem forall_dispatched {children : List TaskId}
    (hmicrotask : ∀ k ∈ children, P (.microtask k false)) (hstart : ∀ k ∈ children, P (.start k))
    (bound : Bool) :
    ∀ j ∈ (children.map fun k => if bound then .microtask k false else .start k : List (Instr α)),
      P j := by
  cases bound with
  | true => simpa using hmicrotask
  | false => simpa using hstart

/-- The timers and the tasks that a loop still held. -/
theorem forall_swept {timers : List Nat} {left : List TaskId}
    (htimer : ∀ n ∈ timers, P (.cancelTimer n)) (hleft : ∀ k ∈ left, P (.cancelLeft k)) :
    ∀ j ∈ (timers.map Instr.cancelTimer ++ left.map Instr.cancelLeft : List (Instr α)), P j :=
  List.forall_mem_append.mpr ⟨List.forall_mem_map.mpr htimer, List.forall_mem_map.mpr hleft⟩

/-- What a scheduler still held. -/
theorem forall_drained {left : List (Scheduled TaskId)} (hjoin : P .joinDispatcher)
    (hcancel : ∀ e ∈ left, P (.cancel e.task)) (hstop : P .stopLoop) :
    ∀ j ∈ ([Instr.joinDispatcher] ++ left.map (Instr.cancel ·.task) ++ [Instr.stopLoop] :
      List (Instr α)), P j :=
  List.forall_mem_append.mpr ⟨List.forall_mem_cons.mpr ⟨hjoin, List.forall_mem_map.mpr hcancel⟩,
    List.forall_mem_singleton.mpr hstop⟩

/-! The same for a kind of instructions that can be computed. -/

variable {p : Instr α → Bool}

theorem all_settled (hsignal : p (.signal t) = true) (hrelease : p (.release t) = true)
    (hdrop : p (.dropBody t) = true) (result : TaskResult α) (mode : SettleMode) :
    ((if result.state = .cancelled then [Instr.signal t] else []) ++ [Instr.release t]
      ++ (if mode = .run then [] else [Instr.dropBody t]) : List (Instr α)).all p = true :=
  List.all_eq_true.mpr (forall_settled hsignal hrelease hdrop result mode)

theorem all_retried (hcancel : p (.cancel t) = true) (mode : SettleMode) :
    (if mode = .cancel then [.cancel t] else [] : List (Instr α)).all p = true :=
  List.all_eq_true.mpr (forall_retried hcancel mode)

theorem all_dispatched (hmicrotask : ∀ k, p (.microtask k false) = true)
    (hstart : ∀ k, p (.start k) = true) (bound : Bool) (children : List TaskId) :
    (children.map fun k => if bound then .microtask k false else .start k : List (Instr α)).all p =
      true :=
  List.all_eq_true.mpr (forall_dispatched (fun k _ => hmicrotask k) (fun k _ => hstart k) bound)

/-- The tasks that timers have handed out. -/
theorem all_due (hsubmit : ∀ k, p (.submit k .timer) = true) (due : List TaskId) :
    (due.map (.submit · .timer) : List (Instr α)).all p = true :=
  List.all_eq_true.mpr (List.forall_mem_map.mpr fun k _ => hsubmit k)

theorem all_swept (htimer : ∀ n, p (.cancelTimer n) = true) (hleft : ∀ k, p (.cancelLeft k) = true)
    (timers : List Nat) (left : List TaskId) :
    (timers.map Instr.cancelTimer ++ left.map Instr.cancelLeft : List (Instr α)).all p = true :=
  List.all_eq_true.mpr (forall_swept (fun n _ => htimer n) fun k _ => hleft k)

theorem all_drained (hjoin : p .joinDispatcher = true) (hcancel : ∀ k, p (.cancel k) = true)
    (hstop : p .stopLoop = true) (left : List (Scheduled TaskId)) :
    ([Instr.joinDispatcher] ++ left.map (Instr.cancel ·.task) ++ [Instr.stopLoop] :
      List (Instr α)).all p = true :=
  List.all_eq_true.mpr (forall_drained hjoin (fun e _ => hcancel e.task) hstop)

end Code

end ManagedHost.Machine
