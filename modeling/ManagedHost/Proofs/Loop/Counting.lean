import ManagedHost.Proofs.Loop.Stopping

/-!
# What a step does to the loop's books

The books of a loop are its queue, its microtasks, the tasks that it is responsible for and its
counters.  `Machine.exec_counts` says for all instructions what carrying one out does to them, and
which instructions that concern the books are left behind: `CountEffect` says it for the work of a
loop that nobody stops, and `StopEffect` for the instructions of a call of stop and what they bring
about.

`Machine.held` collects the tasks of all instructions of one kind that are before the strands, and
is followed through steps and moves by counting.
-/

namespace ManagedHost

variable {α : Type}

namespace Instr

/-- The task that waits for room in the queue. -/
def enqueue? : Instr α → Option TaskId
  | enqueue t _ => some t
  | _ => none

/-- The task that the loop lets go of. -/
def leave? : Instr α → Option TaskId
  | leave t => some t
  | _ => none

/-- The task that is counted by its state. -/
def record? : Instr α → Option TaskId
  | record t => some t
  | _ => none

/-- Whether the instruction belongs to a call of stop that the loop has heard. -/
def isStopping : Instr α → Bool
  | markStopped | joinThreads | sweepLoop | cancelLeft _ => true
  | _ => false

/-- Whether the instruction is one of those with which the loop ends the run of a task. -/
def isEnding : Instr α → Bool
  | leave _ | record _ => true
  | _ => false

/-- Whether the instruction changes the books, and is not the call of somebody. -/
def isBooking (j : Instr α) : Bool := j.enqueue?.isSome || j.isEnding || j.isStopping

theorem isBooking_eq_false {j : Instr α} : j.isBooking = false ↔
    j.enqueue? = none ∧ j.isEnding = false ∧ j.isStopping = false := by
  simp only [isBooking, Bool.or_eq_false_iff, Option.isSome_eq_false_iff, Option.isNone_iff_eq_none,
    and_assoc]

theorem leave?_eq_none {j : Instr α} (h : j.isEnding = false) : j.leave? = none := by
  cases j with
  | leave => cases h
  | _ => rfl

theorem record?_eq_none {j : Instr α} (h : j.isEnding = false) : j.record? = none := by
  cases j with
  | record => cases h
  | _ => rfl

theorem IsCall.isBooking_eq_false {j : Instr α} (h : j.IsCall) : j.isBooking = false := by
  cases j with
  | enqueue => exact h.elim
  | leave => exact h.elim
  | record => exact h.elim
  | markStopped => exact h.elim
  | joinThreads => exact h.elim
  | sweepLoop => exact h.elim
  | cancelLeft => exact h.elim
  | _ => rfl

end Instr

namespace LoopStats

/-- How many tasks were counted in the final state. -/
def count (s : LoopStats) : TaskState → Nat
  | .completed => s.completed
  | .failed => s.failed
  | .cancelled => s.cancelled
  | .pending | .running => 0

theorem record_submissions (s : LoopStats) (state : TaskState) :
    (s.record state).scheduled = s.scheduled ∧ (s.record state).microtasks = s.microtasks := by
  cases state <;> exact ⟨rfl, rfl⟩

/-- Counting a task in its final state adds one to the number of that state and no other. -/
theorem count_record (s : LoopStats) {state : TaskState} (h : state.isTerminal = true)
    (other : TaskState) :
    (s.record state).count other = s.count other + if state = other then 1 else 0 := by
  cases state <;> cases h <;> cases other <;> rfl

end LoopStats

/-- The task that the instruction brings to the loop. -/
def Machine.entry? (m : Machine α) : Instr α → Option TaskId
  | .submit t _ => if m.loop.phase = .running then some t else none
  | .microtask t _ => if m.loop.phase = .stopped then none else some t
  | _ => none

/-- **The effect of an instruction on the books of the loop**, unless it has to do with a call of
stop: the instructions that follow, and the loop afterwards. -/
inductive CountEffect (m : Machine α) : Instr α → List (Instr α) → EventLoop → Prop where
  | aside {i : Instr α} {code : List (Instr α)} {timers : List Nat} (hi : i.isBooking = false)
      (hentry : m.entry? i = none) (hcode : code.all (!·.isBooking) = true) :
      CountEffect m i code { m.loop with timers }
  | submitted {t : TaskId} {who : Submitter} (hphase : m.loop.phase = .running) :
      CountEffect m (.submit t who) [.enqueue t who]
        { m.loop.adopt t with
          submitting := m.loop.submitting + 1
          stats := { m.loop.stats with scheduled := m.loop.stats.scheduled + 1 } }
  | queued {t : TaskId} {who : Submitter} {code : List (Instr α)}
      (hcode : code.all (!·.isBooking) = true) :
      CountEffect m (.enqueue t who) code
        { m.loop with submitting := m.loop.submitting - 1, queue := m.loop.queue ++ [t] }
  | pushed {t : TaskId} {caller : Bool} {code : List (Instr α)} (hphase : m.loop.phase ≠ .stopped)
      (hcode : code.all (!·.isBooking) = true) :
      CountEffect m (.microtask t caller) code
        { m.loop.adopt t with
          microtasks := m.loop.microtasks ++ [t]
          stats := { m.loop.stats with microtasks := m.loop.stats.microtasks + 1 } }
  | left {t : TaskId} : CountEffect m (.leave t) [] (m.loop.release t)
  | recorded {t : TaskId} :
      CountEffect m (.record t) [] { m.loop with stats := m.loop.stats.record (m.state t) }

/-- **The effect of a call of stop on the books of the loop**, step by step, and what it does to a
submission that is under way. -/
inductive StopEffect (m : Machine α) : Instr α → List (Instr α) → EventLoop → Prop where
  | refused {t : TaskId} {who : Submitter} {code : List (Instr α)}
      (hsignal : m.loop.stopSignal = true) (hcode : code.all (!·.isBooking) = true) :
      StopEffect m (.enqueue t who) code
        { m.loop with submitting := m.loop.submitting - 1, active := m.loop.active.erase t }
  | told : StopEffect m .stopLoop [.markStopped] { m.loop with stopSignal := true }
  | marked : StopEffect m .markStopped [.joinThreads] { m.loop with phase := .stopped }
  | late : StopEffect m .markStopped [] m.loop
  | joined : StopEffect m .joinThreads [.sweepLoop] m.loop
  | swept : StopEffect m .sweepLoop
      (m.loop.timers.map .cancelTimer ++
        (m.loop.queue ++ m.loop.microtasks ++ m.loop.active).map .cancelLeft)
      { m.loop with timers := [], queue := [], microtasks := [], active := [] }
  | caught {t : TaskId} (hopen : (m.state t).isTerminal = false) :
      StopEffect m (.cancelLeft t) [.cancel t, .record t] m.loop
  | passed {t : TaskId} (hterminal : (m.state t).isTerminal = true) :
      StopEffect m (.cancelLeft t) [] m.loop

/-- Nothing of that happens while nobody stops the loop. -/
theorem StopEffect.not_calm {m : Machine α} {i : Instr α} {code : List (Instr α)} {l : EventLoop}
    (h : StopEffect m i code l) : i.isStopping = true ∨ l.stopSignal = true := by
  cases h with
  | refused hsignal => exact Or.inr hsignal
  | told => exact Or.inr rfl
  | _ => exact Or.inl rfl

/-- Code that does not concern the books. -/
theorem filterMap_of_all {code : List (Instr α)} (h : code.all (!·.isBooking) = true) :
    code.filterMap Instr.enqueue? = [] ∧ ∀ j ∈ code, j.isEnding = false ∧ j.isStopping = false := by
  have hnone : ∀ j ∈ code, j.enqueue? = none ∧ j.isEnding = false ∧ j.isStopping = false :=
    fun j hj => Instr.isBooking_eq_false.mp (by simpa using List.all_eq_true.mp h j hj)
  exact ⟨List.filterMap_eq_nil_iff.mpr fun j hj => (hnone j hj).1, fun j hj => (hnone j hj).2⟩

/-- Code in which no run ends. -/
theorem filterMap_of_isEnding {code : List (Instr α)} (h : ∀ j ∈ code, j.isEnding = false) :
    code.filterMap Instr.leave? = [] ∧ code.filterMap Instr.record? = [] :=
  ⟨List.filterMap_eq_nil_iff.mpr fun j hj => Instr.leave?_eq_none (h j hj),
    List.filterMap_eq_nil_iff.mpr fun j hj => Instr.record?_eq_none (h j hj)⟩

theorem count_cons_eq (l : List TaskId) (t k : TaskId) :
    (t :: l).count k = l.count k + [t].count k := by
  rw [← List.singleton_append, List.count_append, Nat.add_comm]

theorem count_insert_of_notMem {l : List TaskId} {t : TaskId} (h : t ∉ l) (k : TaskId) :
    (l.insert t).count k = l.count k + [t].count k := by
  rw [List.insert_of_not_mem h, count_cons_eq]

theorem count_erase_of_mem {l : List TaskId} {t : TaskId} (h : t ∈ l) (k : TaskId) :
    (l.erase t).count k + [t].count k = l.count k := by
  rw [(List.perm_cons_erase h).count_eq, count_cons_eq (l.erase t)]

namespace CountEffect

variable {m : Machine α} {i : Instr α} {code : List (Instr α)} {l : EventLoop}

/-- No instruction leaves behind one that belongs to the end of a run or to a call of stop. -/
theorem leaves (h : CountEffect m i code l) :
    ∀ j ∈ code, j.isEnding = false ∧ j.isStopping = false := by
  cases h with
  | aside _ _ hcode => exact (filterMap_of_all hcode).2
  | submitted => exact List.forall_mem_singleton.mpr ⟨rfl, rfl⟩
  | queued hcode => exact (filterMap_of_all hcode).2
  | pushed _ hcode => exact (filterMap_of_all hcode).2
  | left => exact fun _ hj => absurd hj List.not_mem_nil
  | recorded => exact fun _ hj => absurd hj List.not_mem_nil

/-- **What waits afterwards** waited before or was brought to the loop. -/
theorem count_waiting (h : CountEffect m i code l) (t : TaskId) :
    (code.filterMap Instr.enqueue?).count t + l.queue.count t + l.microtasks.count t =
      i.enqueue?.toList.count t + m.loop.queue.count t + m.loop.microtasks.count t +
        (m.entry? i).toList.count t := by
  cases h with
  | aside hi' hentry hcode =>
    rw [(filterMap_of_all hcode).1, (Instr.isBooking_eq_false.mp hi').1, hentry]
    rfl
  | @submitted k who hphase =>
    have hentry : m.entry? (.submit k who) = some k := if_pos hphase
    rw [hentry]
    show [k].count t + m.loop.queue.count t + m.loop.microtasks.count t =
      0 + m.loop.queue.count t + m.loop.microtasks.count t + [k].count t
    omega
  | @queued k who _ hcode =>
    rw [(filterMap_of_all hcode).1]
    show 0 + (m.loop.queue ++ [k]).count t + m.loop.microtasks.count t =
      [k].count t + m.loop.queue.count t + m.loop.microtasks.count t + 0
    rw [List.count_append]
    omega
  | @pushed k caller _ hphase hcode =>
    have hentry : m.entry? (.microtask k caller) = some k := if_neg hphase
    rw [(filterMap_of_all hcode).1, hentry]
    show 0 + m.loop.queue.count t + (m.loop.microtasks ++ [k]).count t =
      0 + m.loop.queue.count t + m.loop.microtasks.count t + [k].count t
    rw [List.count_append]
    omega
  | left => rfl
  | recorded => rfl

/-- **What the loop is responsible for afterwards** was so before, or was brought to it. -/
theorem count_active (h : CountEffect m i code l)
    (hfresh : ∀ t, m.entry? i = some t → t ∉ m.loop.active)
    (hheld : ∀ t, i.leave? = some t → t ∈ m.loop.active) (t : TaskId) :
    l.active.count t + i.leave?.toList.count t =
      m.loop.active.count t + (m.entry? i).toList.count t := by
  cases h with
  | aside hi' hentry =>
    rw [Instr.leave?_eq_none (Instr.isBooking_eq_false.mp hi').2.1, hentry]
  | @submitted k who hphase =>
    have hentry : m.entry? (.submit k who) = some k := if_pos hphase
    rw [hentry]
    exact count_insert_of_notMem (hfresh k hentry) t
  | queued => rfl
  | @pushed k caller _ hphase =>
    have hentry : m.entry? (.microtask k caller) = some k := if_neg hphase
    rw [hentry]
    exact count_insert_of_notMem (hfresh k hentry) t
  | @left k => exact count_erase_of_mem (hheld k rfl) t
  | recorded => rfl

theorem mem_active (h : CountEffect m i code l) {t : TaskId} (ht : t ∈ l.active) :
    t ∈ m.loop.active ∨ m.entry? i = some t := by
  cases h with
  | submitted hphase =>
    rcases List.mem_insert_iff.mp ht with rfl | ht
    · exact Or.inr (if_pos hphase)
    · exact Or.inl ht
  | pushed hphase =>
    rcases List.mem_insert_iff.mp ht with rfl | ht
    · exact Or.inr (if_neg hphase)
    · exact Or.inl ht
  | left => exact Or.inl (List.mem_of_mem_erase ht)
  | _ => exact Or.inl ht

/-- The submissions are counted as they are brought to the loop. -/
theorem submissions (h : CountEffect m i code l) :
    l.stats.scheduled + l.stats.microtasks =
      m.loop.stats.scheduled + m.loop.stats.microtasks + (m.entry? i).toList.length := by
  cases h with
  | aside _ hentry => rw [hentry]; rfl
  | @submitted k who hphase =>
    have hentry : m.entry? (.submit k who) = some k := if_pos hphase
    rw [hentry]
    exact Nat.succ_add _ _
  | queued => rfl
  | @pushed k caller _ hphase =>
    have hentry : m.entry? (.microtask k caller) = some k := if_neg hphase
    rw [hentry]
    rfl
  | left => rfl
  | @recorded k =>
    obtain ⟨hscheduled, hmicrotasks⟩ := m.loop.stats.record_submissions (m.state k)
    show (m.loop.stats.record (m.state k)).scheduled +
      (m.loop.stats.record (m.state k)).microtasks =
        m.loop.stats.scheduled + m.loop.stats.microtasks
    rw [hscheduled, hmicrotasks]

end CountEffect

namespace Machine

variable {m m' : Machine α} {t : TaskId} {self : Nat} {heedStop : Bool} {i j : Instr α}
  {code : List (Instr α)}

/-! ### Carrying out an instruction -/

/-- What the instruction does to the books if it need not wait. -/
def Counts (m : Machine α) (i : Instr α) (result : Option (Machine α × List (Instr α))) : Prop :=
  ∀ m' code, result = some (m', code) →
    CountEffect m i code m'.loop ∨ StopEffect m i code m'.loop

theorem Rule.counts (h : m.Rule heedStop self i m' code) :
    CountEffect m i code m'.loop ∨ StopEffect m i code m'.loop := by
  cases h with
  | submit hphase => exact Or.inl (.submitted hphase)
  | @submitRefused t who hphase =>
    have hentry : m.entry? (.submit t who) = none := if_neg hphase
    cases who <;> exact Or.inl (.aside rfl hentry rfl)
  | @enqueue t who => cases who <;> exact Or.inl (.queued rfl)
  -- only a loop that was told to stop refuses a task that it has let in
  | @enqueueRefused t who hsignal => cases who <;> exact Or.inr (.refused hsignal rfl)
  | @microtask t caller hphase => exact Or.inl (.pushed hphase (by cases caller <;> rfl))
  | @microtaskRefused t caller hphase =>
    exact Or.inl (.aside rfl (if_pos hphase) (by cases caller <;> rfl))
  | leave => exact Or.inl .left
  | record => exact Or.inl .recorded
  -- calls of stop
  | stopLoop => exact Or.inr .told
  | markStopped => exact Or.inr .marked
  | markStoppedLate => exact Or.inr .late
  | joinThreads => exact Or.inr .joined
  | sweepLoop => exact Or.inr .swept
  | cancelLeft hopen => exact Or.inr (.caught hopen)
  | cancelLeftLate hterminal => exact Or.inr (.passed hterminal)
  -- the others have nothing to do with the books
  | settle => exact Or.inl (.aside rfl rfl (all_settled rfl rfl rfl _ _))
  | settleLate => exact Or.inl (.aside rfl rfl (all_retried rfl _))
  | dispatch => exact Or.inl (.aside rfl rfl (all_dispatched (fun _ => rfl) (fun _ => rfl) _ _))
  | stopScheduler => exact Or.inl (.aside rfl rfl (all_drained rfl (fun _ => rfl) rfl _))
  | scanDone => exact Or.inl (.aside rfl rfl (all_due (fun _ => rfl) _))
  | _ => exact Or.inl (.aside rfl rfl rfl)

/-- **What an instruction does to the books of the loop.** -/
theorem exec_counts (heedStop : Bool) (i : Instr α) : m.Counts i (m.exec heedStop self i) :=
  fun _ _ h => (exec_ruled h).counts

/-- An instruction that has nothing to do with a call of stop. -/
theorem exec_counts_calm (h : m.exec heedStop self i = some (m', code)) (hi : i.isStopping = false)
    (hsignal : m'.loop.stopSignal = false) : CountEffect m i code m'.loop :=
  (exec_counts heedStop i m' code h).resolve_right fun hstop => by
    simpa [hi, hsignal] using hstop.not_calm

/-! ### Moves -/

/-- What callers do beside making calls counts no task. -/
theorem Move.stats_eq (h : m.Move m') : ∃ timers, m'.loop.stats = { m.loop.stats with timers } := by
  cases h with
  | addTimer delay repeating body =>
    by_cases hphase : (m.newTask body).2.loop.phase = .stopped
    · simp only [Machine.addTimer, if_pos hphase]
      exact ⟨_, rfl⟩
    · simp only [Machine.addTimer, if_neg hphase]
      exact ⟨_, rfl⟩
  | startLoop =>
    simp only [Machine.startLoop]
    split_ifs
    · exact ⟨_, rfl⟩
    · exact ⟨_, rfl⟩
  | startScheduler =>
    simp only [Machine.startScheduler, Machine.startLoop]
    split_ifs <;> exact ⟨_, rfl⟩
  | schedule t priority deadline h =>
    obtain ⟨scheduler, rfl⟩ := schedule_eq h
    exact ⟨_, rfl⟩
  | resolve t result h =>
    obtain ⟨promises, rfl⟩ := resolve?_eq h
    exact ⟨_, rfl⟩
  | release =>
    obtain ⟨gate, hgate⟩ := release_eq m
    rw [hgate]
    exact ⟨_, rfl⟩
  | _ => exact ⟨_, rfl⟩

/-! ### The tasks of instructions that are to be carried out -/

/-- The tasks of all instructions of one kind that are before the strands. -/
def held (m : Machine α) (f : Instr α → Option TaskId) : List TaskId :=
  m.strands.flatMap fun s => s.code.filterMap f

/-- One element of a list is replaced. -/
theorem count_flatMap_set {β : Type} {l : List β} {n : Nat} {x : β} (hx : l[n]? = some x) (y : β)
    (g : β → List TaskId) (t : TaskId) :
    ((l.set n y).flatMap g).count t + (g x).count t = (l.flatMap g).count t + (g y).count t := by
  induction l generalizing n with
  | nil => cases hx
  | cons z rest ih =>
    cases n with
    | zero =>
      obtain rfl : z = x := Option.some.inj hx
      simp only [List.set_cons_zero, List.flatMap_cons, List.count_append]
      omega
    | succ n =>
      have hrest := ih (n := n) hx
      simp only [List.set_cons_succ, List.flatMap_cons, List.count_append]
      omega

/-- After a strand has carried out the instruction `i`. -/
theorem count_held_carried {s : Strand α} {rest : List (Instr α)}
    {answer : Option (TaskResult Unit)} {added : List (Strand α)} (f : Instr α → Option TaskId)
    (hf : ∀ p setup, f (.setup p setup) = none) (hs : m.strands[self]? = some s)
    (hcode : s.code = i :: rest) (hadded : ∀ a ∈ added, a.IsSetup)
    (hm' : m'.strands = m.strands.set self { s with code := code ++ rest, answer } ++ added)
    (t : TaskId) :
    (m'.held f).count t + (f i).toList.count t =
      (m.held f).count t + (code.filterMap f).count t := by
  have hset := count_flatMap_set hs { s with code := code ++ rest, answer }
    (fun s => s.code.filterMap f) t
  have hnone : added.flatMap (fun s => s.code.filterMap f) = [] := by
    refine List.flatMap_eq_nil_iff.mpr fun a ha => ?_
    obtain ⟨-, -, p, setup, hsetup⟩ := hadded a ha
    rw [hsetup, List.filterMap_cons_none (hf p setup), List.filterMap_nil]
  have hfirst : s.code.filterMap f = (f i).toList ++ rest.filterMap f := by
    rw [hcode]
    cases hi : f i with
    | none => rw [List.filterMap_cons_none hi, Option.toList_none, List.nil_append]
    | some k => rw [List.filterMap_cons_some hi, Option.toList_some, List.singleton_append]
  unfold held
  rw [hm', List.flatMap_append, hnone, List.append_nil]
  simp only [hfirst, List.filterMap_append, List.count_append] at hset
  omega

/-- After a strand has found something to do. -/
theorem count_held_found {s : Strand α} {exited : Bool} (f : Instr α → Option TaskId)
    (hs : m.strands[self]? = some s) (hcode : s.code = [])
    (hm' : m'.strands = m.strands.set self { s with code, exited }) (t : TaskId) :
    (m'.held f).count t = (m.held f).count t + (code.filterMap f).count t := by
  have hset := count_flatMap_set hs { s with code, exited } (fun s => s.code.filterMap f) t
  dsimp only at hset
  rw [hcode, List.filterMap_nil, List.count_nil, Nat.add_zero] at hset
  unfold held
  rw [hm']
  exact hset

theorem Around.held_eq (h : m.Around m') (f : Instr α → Option TaskId)
    (hf : ∀ j : Instr α, j.IsCall → f j = none) : m'.held f = m.held f := by
  obtain ⟨new, hstrands, hnew⟩ := h.strands
  have hnone : new.flatMap (fun s => s.code.filterMap f) = [] := by
    refine List.flatMap_eq_nil_iff.mpr fun s hs => ?_
    exact List.filterMap_eq_nil_iff.mpr fun j hj => hf j ((hnew s hs).2.2.2 j hj).1
  unfold held
  rw [hstrands, List.flatMap_append, hnone, List.append_nil]

theorem mem_held {f : Instr α → Option TaskId} :
    t ∈ m.held f ↔ ∃ j, m.Holds j ∧ f j = some t := by
  simp only [held, List.mem_flatMap, List.mem_filterMap, Holds]
  constructor
  · rintro ⟨s, hs, j, hj, hf⟩
    exact ⟨j, ⟨s, hs, hj⟩, hf⟩
  · rintro ⟨j, ⟨s, hs, hj⟩, hf⟩
    exact ⟨s, hs, j, hj, hf⟩

/-- The tasks that a thread takes are those that it lets go of and counts. -/
theorem filterMap_runTasks (tasks : List TaskId) :
    (tasks.flatMap runTask : List (Instr α)).filterMap Instr.enqueue? = [] ∧
      (tasks.flatMap runTask : List (Instr α)).filterMap Instr.leave? = tasks ∧
      (tasks.flatMap runTask : List (Instr α)).filterMap Instr.record? = tasks := by
  induction tasks with
  | nil => exact ⟨rfl, rfl, rfl⟩
  | cons t rest ih =>
    obtain ⟨henqueue, hleave, hrecord⟩ := ih
    simp only [List.flatMap_cons, List.filterMap_append, henqueue, hleave, hrecord]
    exact ⟨rfl, rfl, rfl⟩

/-- **What a thread finds to do** it takes off the queue or the microtasks, and will let go of and
count. -/
theorem Finds.books {role : Role} {exited : Bool} (h : m.Finds role m' code exited) :
    ∃ taken, code.filterMap Instr.enqueue? = [] ∧ code.filterMap Instr.leave? = taken ∧
      code.filterMap Instr.record? = taken ∧ (∀ j ∈ code, j.isStopping = false) ∧
      (∀ t, taken.count t + m'.loop.queue.count t + m'.loop.microtasks.count t =
        m.loop.queue.count t + m.loop.microtasks.count t) ∧
      m'.loop.active = m.loop.active ∧ m'.loop.stats = m.loop.stats := by
  have hrun : ∀ tasks : List TaskId, ∀ j ∈ (tasks.flatMap runTask : List (Instr α)),
      j.isStopping = false := by
    intro tasks j hj
    obtain ⟨t, -, hj⟩ := List.mem_flatMap.mp hj
    simp only [runTask, List.mem_cons, List.not_mem_nil, or_false] at hj
    rcases hj with rfl | rfl | rfl <;> rfl
  cases h with
  | leaves => exact ⟨[], rfl, rfl, rfl, fun _ hj => absurd hj List.not_mem_nil,
      fun t => by rw [List.count_nil, Nat.zero_add], rfl, rfl⟩
  | @task t rest hqueue =>
    refine ⟨[t], rfl, rfl, rfl, ?_, fun k => ?_, rfl, rfl⟩
    · have hcode := hrun [t]
      rwa [List.flatMap_singleton] at hcode
    · rw [hqueue, count_cons_eq rest]
      show [t].count k + rest.count k + m.loop.microtasks.count k = _
      omega
  | microtasks =>
    obtain ⟨henqueue, hleave, hrecord⟩ := filterMap_runTasks (α := α) m.loop.microtasks
    refine ⟨m.loop.microtasks, henqueue, hleave, hrecord, hrun _, fun t => ?_, rfl, rfl⟩
    show m.loop.microtasks.count t + m.loop.queue.count t + 0 = _
    omega
  | timers | due => exact ⟨[], rfl, rfl, rfl, List.forall_mem_singleton.mpr rfl,
      fun t => (congrArg (· + _ + _) List.count_nil).trans (congrArg (· + _) (Nat.zero_add _)),
      rfl, rfl⟩

end Machine

end ManagedHost
