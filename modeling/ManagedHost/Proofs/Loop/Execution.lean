import ManagedHost.Proofs.Task.Settlement

/-!
# What a step does to the loop

`Machine.exec_executes` says once, for all instructions, what carrying one out does to the loop
(`LoopEffect`), to the timers (`TimerEffect`) and to the strands, and what kind of instructions it
leaves behind (`Machine.Leaves`).  Invariants of the loop are proved by cases on these effects.
-/

namespace ManagedHost

variable {α : Type}

/-! ### Kinds of instructions -/

namespace Instr

/-- Whether the task is there that the instruction was left behind for, when there are `n` tasks,
and whether an attempt to settle a task expects it to be unsettled. -/
def Grounded (n : Nat) : Instr α → Prop
  | enter k | release k | dispatch k _ | register k _ => k < n
  | settle _ old _ _ => old.isTerminal = false
  | _ => True

/-- Whether the instruction is the sequel of one other instruction only: of a submission, or of the
parts of a call of stop. -/
def IsSequel : Instr α → Prop
  | enqueue _ _ | markStopped | joinThreads | sweepLoop => True
  | _ => False

/-- Whether the instruction relies on nothing that another one has left behind. -/
def isFree : Instr α → Bool
  | enter _ | release _ | dispatch _ _ | register _ _ => false
  | settle _ old _ _ => !old.isTerminal
  | enqueue _ _ | markStopped | joinThreads | sweepLoop => false
  | _ => true

/-- Whether the instruction may change the loop, other than by dropping a timer. -/
def IsLoopWork : Instr α → Prop
  | submit _ _ | enqueue _ _ | microtask _ _ | leave _ | record _ | stopLoop | markStopped
  | sweepLoop => True
  | _ => False

/-- Whether the instruction is part of a look at the registered timers. -/
def IsLook : Instr α → Prop
  | scanTimers _ _ _ | pollTimer _ _ _ _ => True
  | _ => False

/-- Whether the instruction may change a timer. -/
def IsTimerWork : Instr α → Prop
  | cancelTimer _ | pollTimer _ _ _ _ => True
  | _ => False

theorem Grounded.mono {n k : Nat} {i : Instr α} (h : i.Grounded n) (hle : n ≤ k) :
    i.Grounded k := by
  cases i with
  | enter t => exact Nat.lt_of_lt_of_le h hle
  | release t => exact Nat.lt_of_lt_of_le h hle
  | dispatch t children => exact Nat.lt_of_lt_of_le h hle
  | register t child => exact Nat.lt_of_lt_of_le h hle
  | settle => exact h
  | _ => trivial

theorem grounded_of_isFree {i : Instr α} (h : i.isFree = true) : i.Grounded 0 ∧ ¬ i.IsSequel := by
  cases i with
  | settle t old result mode => exact ⟨by simpa [isFree, Grounded] using h, id⟩
  | enter => cases h
  | release => cases h
  | dispatch => cases h
  | register => cases h
  | enqueue => cases h
  | markStopped => cases h
  | joinThreads => cases h
  | sweepLoop => cases h
  | _ => exact ⟨trivial, id⟩

theorem Grounded.isPlain {n t : Nat} {i : Instr α} (h : i.Grounded n) (ht : n ≤ t) :
    i.IsPlain t := by
  cases i with
  | enter k => exact Nat.ne_of_lt (Nat.lt_of_lt_of_le h ht)
  | release k => exact Nat.ne_of_lt (Nat.lt_of_lt_of_le h ht)
  | dispatch k children => exact Nat.ne_of_lt (Nat.lt_of_lt_of_le h ht)
  | settle => exact fun _ => h
  | _ => trivial

end Instr

/-! ### Timers that fire -/

namespace TimerCell

variable {b : TimerCell α} {now : Nat} {fresh : TaskId}

@[simp] theorem fire_cancelled : (b.fire now fresh).cancelled = b.cancelled := by
  unfold fire
  split <;> rfl

@[simp] theorem fire_repeating : (b.fire now fresh).repeating = b.repeating := by
  unfold fire
  split <;> rfl

@[simp] theorem fire_fired : (b.fire now fresh).fired = b.fired + 1 := by
  unfold fire
  split <;> rfl

/-- A timer that does not repeat keeps its task. -/
theorem fire_armed_once (h : b.repeating = none) : (b.fire now fresh).armed = b.armed := by
  unfold fire
  rw [h]

theorem fire_armed_again {interval : Nat} {body : Body α}
    (h : b.repeating = some (interval, body)) : (b.fire now fresh).armed = fresh := by
  unfold fire
  rw [h]

theorem fire_nextRun {interval : Nat} {body : Body α} (h : b.repeating = some (interval, body)) :
    (b.fire now fresh).nextRun = now + interval := by
  unfold fire
  rw [h]

end TimerCell

/-! ### Effects -/

/-- **The effect of an instruction on the loop**: the instructions that follow, and the loop
afterwards. -/
inductive LoopEffect (l : EventLoop) : Instr α → List (Instr α) → EventLoop → Prop where
  | same {i : Instr α} {code : List (Instr α)} (hi : ¬ i.IsLoopWork) : LoopEffect l i code l
  | submitted {t : TaskId} {who : Submitter} {stats : LoopStats} (hphase : l.phase = .running) :
      LoopEffect l (.submit t who) [.enqueue t who]
        { l.adopt t with submitting := l.submitting + 1, stats }
  | unavailable {t : TaskId} {who : Submitter} {code : List (Instr α)}
      (hphase : l.phase ≠ .running) (hcode : ∀ j ∈ code, ¬ j.IsLoopWork) :
      LoopEffect l (.submit t who) code l
  | queued {t : TaskId} {who : Submitter} {code : List (Instr α)}
      (hcode : ∀ j ∈ code, ¬ j.IsLoopWork) :
      LoopEffect l (.enqueue t who) code
        { l with submitting := l.submitting - 1, queue := l.queue ++ [t] }
  | refused {t : TaskId} {who : Submitter} {code : List (Instr α)}
      (hcode : ∀ j ∈ code, ¬ j.IsLoopWork) :
      LoopEffect l (.enqueue t who) code
        { l with submitting := l.submitting - 1, active := l.active.erase t }
  | pushed {t : TaskId} {caller : Bool} {stats : LoopStats} {code : List (Instr α)}
      (hphase : l.phase ≠ .stopped) (hcode : ∀ j ∈ code, ¬ j.IsLoopWork) :
      LoopEffect l (.microtask t caller) code
        { l.adopt t with microtasks := l.microtasks ++ [t], stats }
  | closed {t : TaskId} {caller : Bool} {code : List (Instr α)} (hphase : l.phase = .stopped)
      (hcode : ∀ j ∈ code, ¬ j.IsLoopWork) : LoopEffect l (.microtask t caller) code l
  | left {t : TaskId} : LoopEffect l (.leave t) [] (l.release t)
  | recorded {t : TaskId} {stats : LoopStats} : LoopEffect l (.record t) [] { l with stats }
  | told (hphase : l.phase = .running) :
      LoopEffect l .stopLoop [.markStopped] { l with stopSignal := true }
  | marked (hphase : l.phase = .running) (hsubmitting : l.submitting = 0) :
      LoopEffect l .markStopped [.joinThreads] { l with phase := .stopped }
  | idle {i : Instr α} (hi : i = .stopLoop ∨ i = .markStopped) (hphase : l.phase ≠ .running) :
      LoopEffect l i [] l
  | dropped {i : Instr α} {code : List (Instr α)} {n : Nat} (hi : i.IsLook) :
      LoopEffect l i code { l with timers := l.timers.erase n }
  | swept : LoopEffect l .sweepLoop
      (l.timers.map .cancelTimer ++ (l.queue ++ l.microtasks ++ l.active).map .cancelLeft)
      { l with timers := [], queue := [], microtasks := [], active := [] }

/-- **The effect of an instruction on the timers**, when a timer that fires would arm the task
`fresh`. -/
inductive TimerEffect (fresh : TaskId) (timers : List (TimerCell α)) :
    Instr α → List (Instr α) → List (TimerCell α) → Prop where
  | same {i : Instr α} {code : List (Instr α)} (hi : ¬ i.IsTimerWork) :
      TimerEffect fresh timers i code timers
  | early {now n : Nat} {todo : List Nat} {due : List TaskId}
      (hearly : ∀ c, timers[n]? = some c → now < c.nextRun) :
      TimerEffect fresh timers (.pollTimer now n todo due) [.scanTimers now todo due] timers
  | fired {now n : Nat} {todo : List Nat} {due : List TaskId} {c : TimerCell α}
      (hc : timers[n]? = some c) (hdue : c.nextRun ≤ now) :
      TimerEffect fresh timers (.pollTimer now n todo due)
        [.scanTimers now todo (due ++ [c.armed])] (timers.set n (c.fire now fresh))
  | late {n : Nat} (hcell : ∀ c, timers[n]? = some c → c.cancelled = true) :
      TimerEffect fresh timers (.cancelTimer n) [] timers
  | cancelled {n : Nat} {c : TimerCell α} (hc : timers[n]? = some c) (hopen : c.cancelled = false) :
      TimerEffect fresh timers (.cancelTimer n) [.cancelArmed n]
        (timers.set n { c with cancelled := true })

section TimerEffect

variable {fresh : TaskId} {timers timers' : List (TimerCell α)} {i : Instr α}
  {code : List (Instr α)} {k : Nat} {b' : TimerCell α}

/-- **What becomes of a timer** when an instruction is carried out: nothing, unless it is cancelled
or fires. -/
theorem TimerEffect.cell (h : TimerEffect fresh timers i code timers')
    (hb' : timers'[k]? = some b') : ∃ b, timers[k]? = some b ∧ (b' = b ∨
      b.cancelled = false ∧ b' = { b with cancelled := true } ∧ i = .cancelTimer k ∧
        code = [.cancelArmed k] ∨
      ∃ now todo due, b.nextRun ≤ now ∧ b' = b.fire now fresh ∧ i = .pollTimer now k todo due ∧
        code = [.scanTimers now todo (due ++ [b.armed])]) := by
  cases h with
  | same | early | late => exact ⟨b', hb', Or.inl rfl⟩
  | @cancelled n b hb hopen =>
    by_cases hk : n = k
    · subst hk
      rw [List.getElem?_set_self (List.getElem?_eq_some_iff.mp hb).1] at hb'
      exact ⟨b, hb, Or.inr (Or.inl ⟨hopen, (Option.some.inj hb').symm, rfl, rfl⟩)⟩
    · rw [List.getElem?_set_ne hk] at hb'
      exact ⟨b', hb', Or.inl rfl⟩
  | @fired now n todo due b hb hdue =>
    by_cases hk : n = k
    · subst hk
      rw [List.getElem?_set_self (List.getElem?_eq_some_iff.mp hb).1] at hb'
      exact ⟨b, hb, Or.inr (Or.inr ⟨_, _, _, hdue, (Option.some.inj hb').symm, rfl, rfl⟩)⟩
    · rw [List.getElem?_set_ne hk] at hb'
      exact ⟨b', hb', Or.inl rfl⟩

theorem TimerEffect.length_eq (h : TimerEffect fresh timers i code timers') :
    timers'.length = timers.length := by
  cases h with
  | same | early | late => rfl
  | cancelled | fired => exact List.length_set

theorem TimerEffect.cancelled_of (h : TimerEffect fresh timers (.cancelTimer k) code timers')
    (hb' : timers'[k]? = some b') : b'.cancelled = true := by
  cases h with
  | same hi => exact absurd trivial hi
  | late hcell => exact hcell b' hb'
  | cancelled hb =>
    rw [List.getElem?_set_self (List.getElem?_eq_some_iff.mp hb).1] at hb'
    obtain rfl := Option.some.inj hb'
    rfl

end TimerEffect

/-- A strand that sets up a promise. -/
def Strand.IsSetup (s : Strand α) : Prop :=
  s.role = .caller ∧ s.exited = false ∧ ∃ p setup, s.code = [.setup p setup]

/-- What the instruction leaves as it was in the cell of the task: whose continuation the task is,
its body unless that is taken or dropped, and where its continuations go unless it is given to the
loop. -/
structure TaskCell.Kept (t : TaskId) (i : Instr α) (c c' : TaskCell α) : Prop where
  parent : c'.parent = c.parent
  body : c'.body = c.body ∨ c'.body = none ∧ (i = .enter t ∨ i = .dropBody t)
  bound : c'.bound = c.bound ∨ (∃ who, i = .submit t who) ∨ ∃ caller, i = .microtask t caller

theorem TaskCell.Kept.refl (t : TaskId) (i : Instr α) (c : TaskCell α) : c.Kept t i c :=
  ⟨rfl, Or.inl rfl, Or.inl rfl⟩

namespace Machine

variable {m m' : Machine α} {t : TaskId} {self : Nat} {i : Instr α} {code : List (Instr α)}

/-- Whether the strand `self` may leave behind the instruction `j` when it carries out `i`. -/
inductive Leaves (m : Machine α) (self : Nat) : Instr α → Instr α → Prop where
  | grounded {i j : Instr α} (hj : j.Grounded m.tasks.length) (hsequel : ¬ j.IsSequel) :
      Leaves m self i j
  | submitted {t : TaskId} {who : Submitter} : Leaves m self (.submit t who) (.enqueue t who)
  | told (hphase : m.loop.phase = .running) : Leaves m self .stopLoop .markStopped
  | marked : Leaves m self .markStopped .joinThreads
  | joined (hothers : m.othersAny self isLoopThread = false) : Leaves m self .joinThreads .sweepLoop

/-- Whether the instruction may let a repeating timer fire that is then armed with the task of the
cell. -/
def Rearms (m : Machine α) (i : Instr α) (c : TaskCell α) : Prop :=
  ∃ (now n : Nat) (todo : List Nat) (due : List TaskId) (b : TimerCell α) (interval : Nat)
    (body : Body α), i = .pollTimer now n todo due ∧ m.timers[n]? = some b ∧
      b.repeating = some (interval, body) ∧ c = TaskCell.ofBody body

/-- What an instruction leaves as it was in the cell of every task.  A task that was not there is
that of a repeating timer which has fired. -/
structure Retains (m : Machine α) (i : Instr α) (m' : Machine α) : Prop where
  length : m.tasks.length ≤ m'.tasks.length
  new : ∀ (t : TaskId) (c : TaskCell α), m.tasks.length ≤ t → m'.tasks[t]? = some c → m.Rearms i c
  cell : ∀ (t : TaskId) (c c' : TaskCell α), m.tasks[t]? = some c → m'.tasks[t]? = some c' →
    c.Kept t i c'

/-- What carrying out the instruction does beside its effect on the states of tasks. -/
structure Executes (m : Machine α) (strand : Nat) (i : Instr α) (m' : Machine α)
    (code : List (Instr α)) : Prop where
  leaves : ∀ j ∈ code, m.Leaves strand i j
  loop : LoopEffect m.loop i code m'.loop
  timers : TimerEffect m.tasks.length m.timers i code m'.timers
  strands : ∃ (answer : Strand α → Option (TaskResult Unit)) (added : List (Strand α)),
    m'.strands = m.strands.modify strand (fun s => { s with answer := answer s }) ++ added ∧
      (∀ s ∈ added, s.IsSetup) ∧ (added = [] ∨ ∃ t p, .awaitPromise t p ∈ code)
  tasks : m.Retains i m'

/-- What the instruction does if it need not wait. -/
def Yields (m : Machine α) (self : Nat) (i : Instr α)
    (result : Option (Machine α × List (Instr α))) : Prop :=
  ∀ m' code, result = some (m', code) → m.Executes self i m' code

/-! ### What an instruction leaves behind -/

theorem lt_length {c : TaskCell α} (hc : m.tasks[t]? = some c) : t < m.tasks.length :=
  (List.getElem?_eq_some_iff.mp hc).1

theorem leaves_of_all (h : code.all Instr.isFree = true) : ∀ j ∈ code, m.Leaves self i j := by
  intro j hj
  obtain ⟨hgrounded, hsequel⟩ := Instr.grounded_of_isFree (List.all_eq_true.mp h j hj)
  exact .grounded (hgrounded.mono (Nat.zero_le _)) hsequel

/-- One instruction is left behind. -/
theorem leaves_one {j : Instr α} (hj : j.Grounded m.tasks.length) (hsequel : ¬ j.IsSequel) :
    ∀ k ∈ [j], m.Leaves self i k :=
  List.forall_mem_singleton.mpr (.grounded hj hsequel)

theorem Rule.leaves {heedStop : Bool} (h : m.Rule heedStop self i m' code) :
    ∀ j ∈ code, m.Leaves self i j := by
  cases h with
  | start hc | release hc | registerLate hc => exact leaves_one (lt_length hc) id
  | settle hc =>
    exact forall_settled (.grounded trivial id) (.grounded (lt_length hc) id) (.grounded trivial id)
      _ _
  | settleLate => exact forall_retried (.grounded trivial id) _
  | dispatch =>
    exact forall_dispatched (fun _ _ => .grounded trivial id)
      (fun _ _ => .grounded trivial id) _
  | cancel hopen => exact leaves_one hopen id
  | submit => exact List.forall_mem_singleton.mpr .submitted
  | @submitRefused t who | @enqueueRefused t who | @enqueue t who =>
    cases who <;> exact leaves_of_all rfl
  | @microtask t caller | @microtaskRefused t caller =>
    exact leaves_of_all (by cases caller <;> rfl)
  | stopLoop hphase => exact List.forall_mem_singleton.mpr (.told hphase)
  | markStopped => exact List.forall_mem_singleton.mpr .marked
  | joinThreads hothers => exact List.forall_mem_singleton.mpr (.joined hothers)
  | scanDone => exact List.forall_mem_map.mpr fun _ _ => .grounded trivial id
  | sweepLoop =>
    exact forall_swept (fun _ _ => .grounded trivial id) fun _ _ => .grounded trivial id
  | stopScheduler =>
    exact forall_drained (.grounded trivial id) (fun _ _ => .grounded trivial id)
      (.grounded trivial id)
  | _ => exact leaves_of_all rfl

/-! ### What an instruction does to the loop and the timers -/

theorem Rule.loop {heedStop : Bool} (h : m.Rule heedStop self i m' code) :
    LoopEffect m.loop i code m'.loop := by
  cases h with
  | submit hphase => exact .submitted hphase
  | @submitRefused t who hphase =>
    cases who <;> exact .unavailable hphase (by simp [refused, Instr.IsLoopWork])
  | @enqueue t who => cases who <;> exact .queued (by simp [accepted, Instr.IsLoopWork])
  | @enqueueRefused t who => cases who <;> exact .refused (by simp [refused, Instr.IsLoopWork])
  | @microtask t caller hphase =>
    exact .pushed hphase (by cases caller <;> simp [Instr.IsLoopWork])
  | @microtaskRefused t caller hphase =>
    exact .closed hphase (by cases caller <;> simp [Instr.IsLoopWork])
  | leave => exact .left
  | record => exact .recorded
  | stopLoop hphase => exact .told hphase
  | stopLoopLate hphase => exact .idle (Or.inl rfl) hphase
  | markStopped hsubmitting hphase => exact .marked hphase hsubmitting
  | markStoppedLate hsubmitting hphase => exact .idle (Or.inr rfl) hphase
  | scanDrop => exact .dropped trivial
  | fireOnce => exact .dropped trivial
  | sweepLoop => exact .swept
  | _ => exact .same id

theorem Rule.timers {heedStop : Bool} (h : m.Rule heedStop self i m' code) :
    TimerEffect m.tasks.length m.timers i code m'.timers := by
  cases h with
  | pollEarly hearly => exact .early hearly
  | fireOnce hc hdue => exact .fired hc hdue
  | fireAgain hc hdue => exact .fired hc hdue
  | cancelTimer hc hopen => exact .cancelled hc hopen
  | cancelTimerLate hlate => exact .late hlate
  | @submitRefused t who | @enqueueRefused t who | @enqueue t who => cases who <;> exact .same id
  | _ => exact .same id

/-! ### What an instruction does to the strands and the tasks -/

/-- The strands stay as they are. -/
theorem strands_same (hstrands : m'.strands = m.strands) :
    ∃ (answer : Strand α → Option (TaskResult Unit)) (added : List (Strand α)),
      m'.strands = m.strands.modify self (fun s => { s with answer := answer s }) ++ added ∧
        (∀ s ∈ added, s.IsSetup) ∧ (added = [] ∨ ∃ t p, .awaitPromise t p ∈ code) := by
  refine ⟨Strand.answer, [], ?_, fun _ hs => absurd hs List.not_mem_nil, Or.inl rfl⟩
  rw [hstrands, List.append_nil]
  exact (List.modify_id self m.strands).symm

theorem Rule.strands {heedStop : Bool} (h : m.Rule heedStop self i m' code) :
    ∃ (answer : Strand α → Option (TaskResult Unit)) (added : List (Strand α)),
      m'.strands = m.strands.modify self (fun s => { s with answer := answer s }) ++ added ∧
        (∀ s ∈ added, s.IsSetup) ∧ (added = [] ∨ ∃ t p, .awaitPromise t p ∈ code) := by
  cases h with
  | @enterPromise t c setup =>
    refine ⟨Strand.answer, [{ role := .caller, code := [.setup m.promises.length setup] }],
      ?_, ?_, ?_⟩
    · exact congrArg (· ++ _) (List.modify_id self m.strands).symm
    · exact List.forall_mem_singleton.mpr ⟨rfl, rfl, _, _, rfl⟩
    · exact Or.inr ⟨_, _, List.mem_singleton_self _⟩
  | @answer result =>
    refine ⟨fun _ => some result, [], (List.append_nil _).symm, ?_, Or.inl rfl⟩
    exact fun _ hs => absurd hs List.not_mem_nil
  | @submitRefused t who | @enqueueRefused t who | @enqueue t who =>
    cases who <;> exact strands_same rfl
  | _ => exact strands_same rfl

/-- There are no new tasks. -/
theorem no_newTasks (h : m'.tasks.length = m.tasks.length) (t : TaskId) (c : TaskCell α)
    (ht : m.tasks.length ≤ t) (hc : m'.tasks[t]? = some c) : m.Rearms i c :=
  absurd (lt_length hc) (Nat.not_lt.mpr (h ▸ ht))

theorem Retains.of_eq (h : m'.tasks = m.tasks) : m.Retains i m' := by
  have hlength := congrArg List.length h
  refine ⟨Nat.le_of_eq hlength.symm, no_newTasks hlength, fun t c c' hc hc' => ?_⟩
  rw [h] at hc'
  obtain rfl := Option.some.inj (hc.symm.trans hc')
  exact .refl t i c

theorem retains_modify {f : TaskCell α → TaskCell α} (h : m'.tasks = (m.modify t f).tasks)
    (hf : ∀ c, m.tasks[t]? = some c → c.Kept t i (f c)) : m.Retains i m' := by
  have hlength : m'.tasks.length = m.tasks.length := h ▸ List.length_modify ..
  refine ⟨Nat.le_of_eq hlength.symm, no_newTasks hlength, fun k c c' hc hc' => ?_⟩
  rw [h] at hc'
  by_cases hk : t = k
  · subst hk
    obtain rfl := Option.some.inj ((getElem?_modify_self hc f).symm.trans hc')
    exact hf c hc
  · obtain rfl := Option.some.inj (((getElem?_modify_ne hk f).trans hc).symm.trans hc')
    exact .refl k i c

/-- The cell of a task is replaced. -/
theorem retains_replace {c d : TaskCell α} (h : m'.tasks = (m.modify t fun _ => c).tasks)
    (hd : m.tasks[t]? = some d) (hkept : d.Kept t i c) : m.Retains i m' := by
  refine retains_modify h fun e he => ?_
  obtain rfl := Option.some.inj (hd.symm.trans he)
  exact hkept

/-- A timer has armed a new task. -/
theorem retains_newTask {now n interval : Nat} {todo : List Nat} {due : List TaskId}
    {b : TimerCell α} {body : Body α} (hb : m.timers[n]? = some b)
    (hbody : b.repeating = some (interval, body))
    (h : m'.tasks = m.tasks ++ [TaskCell.ofBody body]) :
    m.Retains (.pollTimer now n todo due) m' := by
  refine ⟨?_, fun t c ht hc => ?_, fun t c c' hc hc' => ?_⟩
  · rw [h, List.length_append]
    exact Nat.le_add_right _ _
  · rw [h, List.getElem?_append_right ht] at hc
    obtain rfl := List.mem_singleton.mp (List.mem_of_getElem? hc)
    exact ⟨now, n, todo, due, b, interval, body, rfl, hb, hbody, rfl⟩
  · rw [h, List.getElem?_append_left (lt_length hc)] at hc'
    obtain rfl := Option.some.inj (hc.symm.trans hc')
    exact .refl t _ c

theorem Rule.retains {heedStop : Bool} (h : m.Rule heedStop self i m' code) : m.Retains i m' := by
  cases h with
  | start hc | settle hc | release hc | register hc =>
    exact retains_replace rfl hc ⟨rfl, Or.inl rfl, Or.inl rfl⟩
  | enterMissing hc | enterScript hc | enterAndThen hc | enterOrElse hc | enterPromise hc
  | enterAll hc | enterRace hc =>
    exact retains_replace rfl hc ⟨rfl, Or.inr ⟨rfl, Or.inl rfl⟩, Or.inl rfl⟩
  | signalSelf | signal => exact retains_modify rfl fun _ _ => ⟨rfl, Or.inl rfl, Or.inl rfl⟩
  | dropBody => exact retains_modify rfl fun _ _ => ⟨rfl, Or.inr ⟨rfl, Or.inr rfl⟩, Or.inl rfl⟩
  | @submit t who =>
    exact retains_modify rfl fun _ _ => ⟨rfl, Or.inl rfl, Or.inr (Or.inl ⟨who, rfl⟩)⟩
  | @microtask t caller =>
    exact retains_modify rfl fun _ _ => ⟨rfl, Or.inl rfl, Or.inr (Or.inr ⟨caller, rfl⟩)⟩
  | fireAgain hc _ hagain => exact retains_newTask hc hagain rfl
  | @submitRefused t who | @enqueueRefused t who | @enqueue t who => cases who <;> exact .of_eq rfl
  | _ => exact .of_eq rfl

/-- A repeating timer that fires arms a new task. -/
theorem Rule.tasks_eq {heedStop : Bool} {now n interval : Nat} {todo : List Nat}
    {due : List TaskId} {b : TimerCell α} {body : Body α}
    (h : m.Rule heedStop self (.pollTimer now n todo due) m' code) (hb : m.timers[n]? = some b)
    (hdue : b.nextRun ≤ now) (hagain : b.repeating = some (interval, body)) :
    m'.tasks = m.tasks ++ [TaskCell.ofBody body] := by
  cases h with
  | pollEarly hearly => exact absurd hdue (Nat.not_le.mpr (hearly b hb))
  | fireOnce hc _ honce =>
    obtain rfl := Option.some.inj (hb.symm.trans hc)
    cases hagain.symm.trans honce
  | fireAgain hc _ hagain' =>
    obtain rfl := Option.some.inj (hb.symm.trans hc)
    obtain ⟨-, rfl⟩ := Prod.mk.inj (Option.some.inj (hagain.symm.trans hagain'))
    rfl

/-- **What an instruction does.** -/
theorem exec_executes (heedStop : Bool) (i : Instr α) :
    m.Yields self i (m.exec heedStop self i) := by
  intro m' code h
  have hrule := exec_ruled h
  exact ⟨hrule.leaves, hrule.loop, hrule.timers, hrule.strands, hrule.retains⟩

end Machine

end ManagedHost
