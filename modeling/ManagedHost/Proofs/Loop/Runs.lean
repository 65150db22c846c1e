import ManagedHost.Proofs.Loop.Execution

/-!
# Runs of the machine

A run is any order of steps of the strands, with anything in between that callers can do
(`Machine.Move`): they create tasks and continue them, begin calls, add timers, start the loop, let
time pass.  `Machine.Reaches` is what can be reached by one.

A step replaces the first instruction of one strand or gives a strand that has none something to do
(`Machine.Turn`).  `Machine.Holds` says that an instruction is before some strand; that is all that
most invariants need to know about the strands.
-/

namespace ManagedHost

variable {α : Type}

/-- Whether the cell is that of a task that was just created. -/
def TaskCell.IsNew (c : TaskCell α) : Prop :=
  ∃ body name, c = { TaskCell.ofBody body with name }

/-- Whether the tasks of a repeating timer continue no other task. -/
def TimerCell.MakesRoots (c : TimerCell α) : Prop :=
  ∀ interval body, c.repeating = some (interval, body) → (TaskCell.ofBody body).parent = none

/-- Whether the role is that of a thread of the loop. -/
def Role.IsLoop : Role → Prop
  | worker | microtasks | timers => True
  | caller | dispatcher => False

/-- What callers leave as it is in the loop.  They may start it and add timers. -/
structure EventLoop.Kept (l l' : EventLoop) : Prop where
  queue : l'.queue = l.queue
  microtasks : l'.microtasks = l.microtasks
  active : l'.active = l.active
  submitting : l'.submitting = l.submitting
  stopSignal : l'.stopSignal = l.stopSignal
  phase : l'.phase = l.phase ∨ l.phase = .idle ∧ l'.phase = .running
  timers : ∀ n ∈ l.timers, n ∈ l'.timers
  stopped : l.phase = .stopped → l'.timers = l.timers

theorem EventLoop.Kept.refl (l : EventLoop) : l.Kept l :=
  ⟨rfl, rfl, rfl, rfl, rfl, Or.inl rfl, fun _ => id, fun _ => rfl⟩

namespace Machine

variable {m m' : Machine α} {t : TaskId} {self : Nat} {heedStop : Bool} {i j : Instr α}
  {code : List (Instr α)}

/-! ### Strands that look for work -/

/-- **What a strand finds when it has worked off its code.** -/
inductive Finds (m : Machine α) : Role → Machine α → List (Instr α) → Bool → Prop where
  | leaves {role : Role} (hsignal : role ≠ .dispatcher → m.loop.stopSignal = true) :
      Finds m role m [] true
  | task {t : TaskId} {rest : List TaskId} (hqueue : m.loop.queue = t :: rest) :
      Finds m .worker (m.onLoop fun l => { l with queue := rest }) (runTask t) false
  | microtasks (hsome : m.loop.microtasks ≠ []) :
      Finds m .microtasks (m.onLoop fun l => { l with microtasks := [] })
        (m.loop.microtasks.flatMap runTask) false
  | timers (hsome : m.loop.timers ≠ []) :
      Finds m .timers (m.onLoop fun l => { l with lastScan := m.clock })
        [.scanTimers m.clock m.loop.timers []] false
  | due {e : Scheduled TaskId} {queue : DeadlineQueue TaskId}
      (hpop : m.scheduler.queue.popDue m.clock = some (e, queue)) :
      Finds m .dispatcher { m with scheduler := { m.scheduler with queue } }
        [.submit e.task .dispatcher] false

theorem idleStep_finds {role : Role} {exited : Bool}
    (h : m.idleStep heedStop role = some (m', code, exited)) : m.Finds role m' code exited := by
  cases role with
  | caller => cases h
  | worker =>
    simp only [idleStep] at h
    split_ifs at h with hstop
    · obtain ⟨rfl, rfl, rfl⟩ := h
      exact .leaves fun _ => (Bool.and_eq_true_iff.mp hstop).1
    · split at h
      · next hqueue =>
        obtain ⟨rfl, rfl, rfl⟩ := h
        exact .task hqueue
      · cases h
  | microtasks =>
    simp only [idleStep] at h
    split_ifs at h with hstop hempty
    · obtain ⟨rfl, rfl, rfl⟩ := h
      exact .leaves fun _ => (Bool.and_eq_true_iff.mp hstop).1
    · obtain ⟨rfl, rfl, rfl⟩ := h
      exact .microtasks fun hnil => hempty (List.isEmpty_iff.mpr hnil)
  | timers =>
    simp only [idleStep] at h
    split_ifs at h with hstop hempty
    · obtain ⟨rfl, rfl, rfl⟩ := h
      exact .leaves fun _ => (Bool.and_eq_true_iff.mp hstop).1
    · obtain ⟨rfl, rfl, rfl⟩ := h
      refine .timers fun hnil => hempty ?_
      exact Bool.or_eq_true_iff.mpr (Or.inl (List.isEmpty_iff.mpr hnil))
  | dispatcher =>
    simp only [idleStep] at h
    split_ifs at h
    · obtain ⟨rfl, rfl, rfl⟩ := h
      exact .leaves fun hne => absurd rfl hne
    · split at h
      · next hpop =>
        obtain ⟨rfl, rfl, rfl⟩ := h
        exact .due hpop
      · cases h

theorem Finds.strands_eq {role : Role} {exited : Bool} (h : m.Finds role m' code exited) :
    m'.strands = m.strands := by
  cases h <;> rfl

/-- A strand that looks for work does nothing to the tasks. -/
theorem Finds.tasks_eq {role : Role} {exited : Bool} (h : m.Finds role m' code exited) :
    m'.tasks = m.tasks := by
  cases h <;> rfl

theorem Finds.getElem?_tasks {role : Role} {exited : Bool} {x : TaskCell α}
    (h : m.Finds role m' code exited) (hx : m.tasks[t]? = some x) : m'.tasks[t]? = some x :=
  h.tasks_eq ▸ hx

/-- It does nothing to the timers either. -/
theorem Finds.timers_eq {role : Role} {exited : Bool} (h : m.Finds role m' code exited) :
    m'.timers = m.timers ∧ m'.loop.timers = m.loop.timers := by
  cases h <;> exact ⟨rfl, rfl⟩

/-- What a strand finds to do are runs of tasks, a look at the timers and submissions. -/
theorem Finds.forall_code {role : Role} {exited : Bool} {P : Instr α → Prop}
    (h : m.Finds role m' code exited) (hstart : ∀ t, P (.start t)) (hleave : ∀ t, P (.leave t))
    (hrecord : ∀ t, P (.record t)) (hscan : ∀ now timers, P (.scanTimers now timers []))
    (hsubmit : ∀ t via, P (.submit t via)) : ∀ j ∈ code, P j := by
  intro j hj
  have hrun : ∀ t, j ∈ runTask t → P j := by
    intro t hj
    simp only [runTask, List.mem_cons, List.not_mem_nil, or_false] at hj
    rcases hj with rfl | rfl | rfl
    · exact hstart t
    · exact hleave t
    · exact hrecord t
  cases h with
  | leaves => exact absurd hj List.not_mem_nil
  | task => exact hrun _ hj
  | microtasks =>
    obtain ⟨t, -, hj⟩ := List.mem_flatMap.mp hj
    exact hrun t hj
  | timers => exact List.mem_singleton.mp hj ▸ hscan _ _
  | due => exact List.mem_singleton.mp hj ▸ hsubmit _ _

/-! ### Turns -/

/-- **A step of the strand `self`.** -/
inductive Turn (m : Machine α) (heedStop : Bool) (self : Nat) (m' : Machine α) : Prop where
  | carried {s : Strand α} {i : Instr α} {rest code : List (Instr α)} {m₁ : Machine α}
      {answer : Option (TaskResult Unit)} {added : List (Strand α)}
      (hs : m.strands[self]? = some s) (hexited : s.exited = false) (hcode : s.code = i :: rest)
      (hexec : m.exec heedStop self i = some (m₁, code)) (hadded : ∀ a ∈ added, a.IsSetup)
      (hm' : m' = { m₁ with
        strands := m.strands.set self { s with code := code ++ rest, answer } ++ added })
      (hpromise : added = [] ∨ ∃ t p, .awaitPromise t p ∈ code)
  | found {s : Strand α} {role : Role} {code : List (Instr α)} {m₁ : Machine α} {exited : Bool}
      (hs : m.strands[self]? = some s) (hrole : s.role = role) (hexited : s.exited = false)
      (hcode : s.code = []) (hfinds : m.Finds role m₁ code exited)
      (hm' : m' = { m₁ with strands := m.strands.set self { s with code, exited } })

theorem modify_eq_set {β : Type} {l : List β} {n : Nat} {x : β} (h : l[n]? = some x) (f : β → β) :
    l.modify n f = l.set n (f x) := by
  rw [List.modify_eq_set_getElem?, h]
  rfl

theorem step_turn (h : m.step heedStop self = some m') : m.Turn heedStop self m' := by
  unfold step at h
  split at h
  · cases h
  · next s hs =>
    have hlt := (List.getElem?_eq_some_iff.mp hs).1
    split_ifs at h with hexited
    have hexited := Bool.eq_false_iff.mpr hexited
    split at h
    · next i rest hcode =>
      obtain ⟨⟨m₁, code⟩, hexec, rfl⟩ := Option.map_eq_some_iff.mp h
      obtain ⟨answer, added, hstrands, hadded, hpromise⟩ :=
        (exec_executes heedStop i m₁ code hexec).strands
      have hput : m₁.strands.modify self (fun s => { s with code := code ++ rest }) =
          m.strands.set self { s with code := code ++ rest, answer := answer s } ++ added := by
        have hs' : (m.strands.modify self fun s => { s with answer := answer s })[self]? =
            some { s with answer := answer s } := by
          rw [List.getElem?_modify_eq, hs]
          rfl
        have happend := modify_eq_set (l := m₁.strands) (n := self) (by
          rw [hstrands, List.getElem?_append_left (by rwa [List.length_modify])]
          exact hs') fun s => { s with code := code ++ rest }
        rw [happend, hstrands, modify_eq_set hs,
          List.set_append_left _ _ (by rwa [List.length_set]), List.set_set]
      exact .carried hs hexited hcode hexec hadded
        (congrArg (fun strands => { m₁ with strands }) hput) hpromise
    · next hcode =>
      obtain ⟨⟨m₁, code, exited⟩, hidle, rfl⟩ := Option.map_eq_some_iff.mp h
      have hfinds := idleStep_finds hidle
      refine .found hs rfl hexited hcode hfinds ?_
      dsimp only
      rw [hfinds.strands_eq, modify_eq_set hs]

section Strands

variable {s s' : Strand α} {added : List (Strand α)}

/-- One strand is changed, and others may be added. -/
theorem strand_cases (hm' : m'.strands = m.strands.set self s' ++ added) {k : Nat} {r : Strand α}
    (hr : m'.strands[k]? = some r) :
    k = self ∧ r = s' ∨ k ≠ self ∧ m.strands[k]? = some r ∨ r ∈ added := by
  rw [hm'] at hr
  rcases Nat.lt_or_ge k (m.strands.set self s').length with hk | hk
  · rw [List.getElem?_append_left hk] at hr
    rw [List.length_set] at hk
    by_cases hself : k = self
    · subst hself
      rw [List.getElem?_set_self hk] at hr
      exact Or.inl ⟨rfl, (Option.some.inj hr).symm⟩
    · rw [List.getElem?_set_ne (Ne.symm hself)] at hr
      exact Or.inr (Or.inl ⟨hself, hr⟩)
  · rw [List.getElem?_append_right hk] at hr
    exact Or.inr (Or.inr (List.mem_of_getElem? hr))

theorem strand_self (hs : m.strands[self]? = some s)
    (hm' : m'.strands = m.strands.set self s' ++ added) : m'.strands[self]? = some s' := by
  have hlt := (List.getElem?_eq_some_iff.mp hs).1
  rw [hm', List.getElem?_append_left (by rwa [List.length_set]), List.getElem?_set_self hlt]

theorem strand_ne (hm' : m'.strands = m.strands.set self s' ++ added) {k : Nat} {r : Strand α}
    (hr : m.strands[k]? = some r) (hk : k ≠ self) : m'.strands[k]? = some r := by
  have hlt := (List.getElem?_eq_some_iff.mp hr).1
  rw [hm', List.getElem?_append_left (by rwa [List.length_set]), List.getElem?_set_ne hk.symm]
  exact hr

/-- One strand is changed, and no other is added. -/
theorem strand_cases_set (hm' : m'.strands = m.strands.set self s') {k : Nat} {r : Strand α}
    (hr : m'.strands[k]? = some r) : k = self ∧ r = s' ∨ k ≠ self ∧ m.strands[k]? = some r := by
  rcases strand_cases (hm'.trans (List.append_nil _).symm) hr with hself | hne | hr
  · exact Or.inl hself
  · exact Or.inr hne
  · exact absurd hr List.not_mem_nil

theorem strand_ne_set (hm' : m'.strands = m.strands.set self s') {k : Nat} {r : Strand α}
    (hr : m.strands[k]? = some r) (hk : k ≠ self) : m'.strands[k]? = some r :=
  strand_ne (hm'.trans (List.append_nil _).symm) hr hk

end Strands

/-! ### Instructions that are to be carried out -/

/-- Whether the instruction is before some strand. -/
def Holds (m : Machine α) (j : Instr α) : Prop := ∃ s ∈ m.strands, j ∈ s.code

theorem holds_of_mem_work {w : Nat × Instr α} (h : w ∈ m.work) : m.Holds w.2 := by
  obtain ⟨code, hcode, hj⟩ := mem_of_mem_workFrom h
  obtain ⟨s, hs, rfl⟩ := List.mem_map.mp hcode
  exact ⟨s, hs, hj⟩

theorem holds_set {s s' : Strand α} {added : List (Strand α)} (hs : m.strands[self]? = some s)
    (hm' : m'.strands = m.strands.set self s' ++ added) :
    (∀ j, m.Holds j → j ∈ s.code ∨ m'.Holds j) ∧ (∀ j ∈ s'.code, m'.Holds j) ∧
      ∀ j, m'.Holds j → j ∈ s'.code ∨ m.Holds j ∨ ∃ a ∈ added, j ∈ a.code := by
  obtain ⟨hlt, hself⟩ := List.getElem?_eq_some_iff.mp hs
  refine ⟨?_, fun j hj => ?_, ?_⟩
  · rintro j ⟨r, hr, hj⟩
    obtain ⟨n, hn, rfl⟩ := List.mem_iff_getElem.mp hr
    by_cases hne : self = n
    · subst hne
      exact Or.inl (hself ▸ hj)
    · refine Or.inr ⟨m.strands[n], ?_, hj⟩
      rw [hm']
      refine List.mem_append_left _ (List.mem_iff_getElem?.mpr ⟨n, ?_⟩)
      rw [List.getElem?_set_ne hne, List.getElem?_eq_getElem hn]
  · refine ⟨s', ?_, hj⟩
    rw [hm']
    exact List.mem_append_left _ (List.mem_set hlt s')
  · rintro j ⟨r, hr, hj⟩
    rw [hm'] at hr
    rcases List.mem_append.mp hr with hr | hr
    · rcases List.mem_or_eq_of_mem_set hr with hr | rfl
      · exact Or.inr (Or.inl ⟨r, hr, hj⟩)
      · exact Or.inl hj
    · exact Or.inr (Or.inr ⟨r, hr, hj⟩)

/-- What is to be done after a strand has carried out the instruction `i`. -/
theorem holds_carried {s : Strand α} {rest : List (Instr α)} {answer : Option (TaskResult Unit)}
    {added : List (Strand α)} (hs : m.strands[self]? = some s) (hcode : s.code = i :: rest)
    (hadded : ∀ a ∈ added, a.IsSetup)
    (hm' : m'.strands = m.strands.set self { s with code := code ++ rest, answer } ++ added) :
    m.Holds i ∧ (∀ j, m.Holds j → j = i ∨ m'.Holds j) ∧ (∀ j ∈ code, m'.Holds j) ∧
      ∀ j, m'.Holds j → j ∈ code ∨ m.Holds j ∨ ∃ p setup, j = .setup p setup := by
  have hmem : ∀ j ∈ s.code, m.Holds j := fun j hj => ⟨s, List.mem_of_getElem? hs, hj⟩
  obtain ⟨hkeeps, hgains, hfrom⟩ := holds_set hs hm'
  refine ⟨hmem i (hcode ▸ List.mem_cons_self), fun j hj => ?_, fun j hj => ?_, fun j hj => ?_⟩
  · rcases hkeeps j hj with hj | hj
    · rw [hcode] at hj
      exact (List.mem_cons.mp hj).imp_right fun hj => hgains j (List.mem_append_right _ hj)
    · exact Or.inr hj
  · exact hgains j (List.mem_append_left _ hj)
  · rcases hfrom j hj with hj | hj | ⟨a, ha, hj⟩
    · refine (List.mem_append.mp hj).imp_right fun hj => Or.inl (hmem j ?_)
      exact hcode ▸ List.mem_cons_of_mem i hj
    · exact Or.inr (Or.inl hj)
    · obtain ⟨-, -, p, setup, hsetup⟩ := hadded a ha
      rw [hsetup] at hj
      exact Or.inr (Or.inr ⟨p, setup, List.mem_singleton.mp hj⟩)

/-- What is to be done after a strand has found something to do. -/
theorem holds_found {s : Strand α} {exited : Bool} (hs : m.strands[self]? = some s)
    (hcode : s.code = []) (hm' : m'.strands = m.strands.set self { s with code, exited }) :
    (∀ j, m.Holds j → m'.Holds j) ∧ (∀ j ∈ code, m'.Holds j) ∧
      ∀ j, m'.Holds j → j ∈ code ∨ m.Holds j := by
  obtain ⟨hkeeps, hgains, hfrom⟩ := holds_set hs (hm'.trans (List.append_nil _).symm)
  refine ⟨fun j hj => ?_, hgains, fun j hj => ?_⟩
  · refine (hkeeps j hj).resolve_left fun hj => ?_
    rw [hcode] at hj
    exact absurd hj List.not_mem_nil
  · exact (hfrom j hj).imp_right fun h => h.resolve_right fun ⟨a, ha, _⟩ =>
      absurd ha List.not_mem_nil

/-! ### Moves -/

/-- **What can happen beside the steps of the strands.**  Callers make calls on tasks that are
there, and continue only such.  Any number of callers may do so at any time; a body does no more
than its actions say, so it is never the body's own strand that schedules or continues a task, or
sets or cancels a timer. -/
inductive Move (m : Machine α) : Machine α → Prop where
  | newTask (body : Body α) (name : Option String) (hbody : (TaskCell.ofBody body).parent = none) :
      Move m (m.newTask body name).2
  | continueWith (parent : TaskId) (body : Body α) (hparent : parent < m.tasks.length)
      (hbody : (TaskCell.ofBody body).parent = some parent) : Move m (m.continueWith parent body).2
  | call (code : List (Instr α)) (hcode : ∀ i ∈ code, i.IsCall ∧ i.Grounded m.tasks.length) :
      Move m (m.call code).2
  | addTimer (delay : Nat) (repeating : Bool) (body : Body α)
      (hbody : (TaskCell.ofBody body).parent = none) : Move m (m.addTimer delay repeating body).2
  | startLoop : Move m m.startLoop
  | startScheduler : Move m m.startScheduler
  /-- Give a task to the scheduler. -/
  | schedule {m' : Machine α} (t : TaskId) (priority : Int) (deadline : Nat)
      (h : m.schedule t priority deadline = .ok m') : Move m m'
  /-- Use the resolver of a promise. -/
  | resolve {m' : Machine α} (t : TaskId) (result : Option (TaskResult α))
      (h : m.resolve? t result = some m') : Move m m'
  /-- Let a body through that is held at the gate. -/
  | release : Move m m.release.2
  /-- Give out handles, or take some back. -/
  | handles (handles : List TaskId) : Move m { m with handles }
  | elapse (micros : Nat) : Move m (m.elapse micros)

/-- What can be reached, by any order of steps and moves. -/
inductive Reaches (m : Machine α) : Machine α → Prop where
  | refl : Reaches m m
  | step {m' m'' : Machine α} (h : Reaches m m') (heedStop : Bool) (self : Nat)
      (hstep : m'.step heedStop self = some m'') : Reaches m m''
  | move {m' m'' : Machine α} (h : Reaches m m') (hmove : m'.Move m'') : Reaches m m''

/-- A machine on which nothing has happened yet. -/
def initial (config : LoopConfig) (workers : Nat) : Machine α :=
  { loop := { config }, scheduler := { workers } }

/-- What all moves have in common: tasks, timers and strands are added, and the loop keeps its
work. -/
structure Around (m m' : Machine α) : Prop where
  tasks : ∃ new, m'.tasks = m.tasks ++ new ∧ ∀ c ∈ new, c.IsNew
  children : ∀ t c p, m.tasks.length ≤ t → m'.tasks[t]? = some c → c.parent = some p →
    p < m.tasks.length ∧ m'.Holds (.register p t)
  timers : ∃ new, m'.timers = m.timers ++ new
  newTimers : ∀ n c, m.timers.length ≤ n → m'.timers[n]? = some c →
    m.tasks.length ≤ c.armed ∧ c.armed < m'.tasks.length ∧ c.cancelled = false ∧ c.MakesRoots ∧
      (n ∈ m'.loop.timers ∨ m'.Holds (.cancelTimer n))
  strands : ∃ new, m'.strands = m.strands ++ new ∧ ∀ s ∈ new, s.exited = false ∧
    (s.role.IsLoop → m.loop.phase = .idle) ∧ (s.role = .caller ∨ s.code = []) ∧
    ∀ j ∈ s.code, j.IsCall ∧ j.Grounded m.tasks.length
  loop : m.loop.Kept m'.loop

section Around

theorem no_new {β : Type} {p : β → Prop} (l : List β) : ∃ new, l = l ++ new ∧ ∀ x ∈ new, p x :=
  ⟨[], (List.append_nil _).symm, fun _ hx => absurd hx List.not_mem_nil⟩

/-- No tasks are added. -/
theorem no_children (htasks : m'.tasks = m.tasks) : ∀ t c p, m.tasks.length ≤ t →
    m'.tasks[t]? = some c → c.parent = some p → p < m.tasks.length ∧ m'.Holds (.register p t) := by
  intro t c p ht hc _
  have hlt := (List.getElem?_eq_some_iff.mp hc).1
  rw [htasks] at hlt
  exact absurd ht (Nat.not_le.mpr hlt)

/-- No timers are added. -/
theorem no_newTimers (htimers : m'.timers = m.timers) : ∀ n c, m.timers.length ≤ n →
    m'.timers[n]? = some c → m.tasks.length ≤ c.armed ∧ c.armed < m'.tasks.length ∧
      c.cancelled = false ∧ c.MakesRoots ∧ (n ∈ m'.loop.timers ∨ m'.Holds (.cancelTimer n)) := by
  intro n c hn hc
  have hlt := (List.getElem?_eq_some_iff.mp hc).1
  rw [htimers] at hlt
  exact absurd hn (Nat.not_le.mpr hlt)

/-- What is found in a list to which one element was added is that element, beyond the old ones. -/
theorem eq_of_getElem?_append_one {β : Type} {l : List β} {x y : β} {n : Nat} (hn : l.length ≤ n)
    (h : (l ++ [x])[n]? = some y) : n = l.length ∧ y = x := by
  have hlt := (List.getElem?_eq_some_iff.mp h).1
  rw [List.length_append, List.length_singleton] at hlt
  obtain rfl : n = l.length := Nat.le_antisymm (Nat.le_of_lt_succ hlt) hn
  rw [List.getElem?_append_right hn, Nat.sub_self] at h
  exact ⟨rfl, (Option.some.inj h).symm⟩

/-- Something has changed that has nothing to do with tasks, timers, strands and the loop. -/
theorem around_of_eq (htasks : m'.tasks = m.tasks) (htimers : m'.timers = m.timers)
    (hstrands : m'.strands = m.strands) (hloop : m'.loop = m.loop) : m.Around m' where
  tasks := htasks ▸ no_new _
  children := no_children htasks
  timers := ⟨[], htimers.trans (List.append_nil _).symm⟩
  newTimers := no_newTimers htimers
  strands := hstrands ▸ no_new _
  loop := hloop ▸ .refl _

theorem around_call {code : List (Instr α)}
    (hcode : ∀ i ∈ code, i.IsCall ∧ i.Grounded m.tasks.length) : m.Around (m.call code).2 where
  tasks := no_new _
  children := no_children rfl
  timers := ⟨[], (List.append_nil _).symm⟩
  newTimers := no_newTimers rfl
  strands := ⟨_, rfl, List.forall_mem_singleton.mpr ⟨rfl, False.elim, Or.inl rfl, hcode⟩⟩
  loop := .refl _

theorem isNew_ofBody (body : Body α) (name : Option String) :
    TaskCell.IsNew { TaskCell.ofBody body with name } :=
  ⟨body, name, rfl⟩

theorem around_newTask {body : Body α} {name : Option String}
    (hbody : (TaskCell.ofBody body).parent = none) : m.Around (m.newTask body name).2 where
  tasks := ⟨_, rfl, List.forall_mem_singleton.mpr (isNew_ofBody body name)⟩
  children := fun t c p ht hc hp => by
    obtain ⟨-, rfl⟩ := eq_of_getElem?_append_one ht hc
    cases hbody.symm.trans hp
  timers := ⟨[], (List.append_nil _).symm⟩
  newTimers := no_newTimers rfl
  strands := no_new _
  loop := .refl _

theorem around_continueWith {parent : TaskId} {body : Body α} (hparent : parent < m.tasks.length)
    (hbody : (TaskCell.ofBody body).parent = some parent) :
    m.Around (m.continueWith parent body).2 where
  tasks := ⟨_, rfl, List.forall_mem_singleton.mpr (isNew_ofBody body none)⟩
  children := fun t c p ht hc hp => by
    obtain ⟨rfl, rfl⟩ := eq_of_getElem?_append_one ht hc
    obtain rfl := Option.some.inj (hbody.symm.trans hp)
    exact ⟨hparent, _, List.mem_append_right _ List.mem_cons_self, List.mem_cons_self⟩
  timers := ⟨[], (List.append_nil _).symm⟩
  newTimers := no_newTimers rfl
  strands := ⟨_, rfl, List.forall_mem_singleton.mpr ⟨rfl, False.elim, Or.inl rfl,
    List.forall_mem_singleton.mpr ⟨trivial, hparent⟩⟩⟩
  loop := .refl _

/-- A new timer is registered, unless the loop has stopped: then a call begins that cancels it. -/
theorem around_addTimer {delay : Nat} {repeating : Bool} {body : Body α}
    (hbody : (TaskCell.ofBody body).parent = none) :
    m.Around (m.addTimer delay repeating body).2 := by
  have hroots : TimerCell.MakesRoots
      { repeating := if repeating then some (delay, body) else none
        nextRun := m.clock + delay
        armed := m.tasks.length } := by
    intro interval body' hrepeating
    dsimp only at hrepeating
    split_ifs at hrepeating
    obtain ⟨-, rfl⟩ := Prod.mk.inj (Option.some.inj hrepeating)
    exact hbody
  have hlt : m.tasks.length < (m.tasks ++ [{ TaskCell.ofBody body with name := none }]).length := by
    rw [List.length_append]
    exact Nat.lt_succ_self _
  unfold Machine.addTimer
  dsimp only
  by_cases hphase : (m.newTask body).2.loop.phase = .stopped
  · rw [if_pos hphase]
    refine ⟨(around_newTask hbody).tasks, fun t c p ht hc hp => ?_, ⟨_, rfl⟩, fun n c hn hc => ?_,
      ⟨_, rfl, List.forall_mem_singleton.mpr ⟨rfl, False.elim, Or.inl rfl,
        List.forall_mem_singleton.mpr ⟨trivial, trivial⟩⟩⟩, .refl _⟩
    · obtain ⟨-, rfl⟩ := eq_of_getElem?_append_one ht hc
      cases hbody.symm.trans hp
    · obtain ⟨rfl, rfl⟩ := eq_of_getElem?_append_one hn hc
      exact ⟨Nat.le_refl _, hlt, rfl, hroots,
        Or.inr ⟨_, List.mem_append_right _ List.mem_cons_self, List.mem_cons_self⟩⟩
  · rw [if_neg hphase]
    refine ⟨(around_newTask hbody).tasks, fun t c p ht hc hp => ?_, ⟨_, rfl⟩, fun n c hn hc => ?_,
      no_new _, rfl, rfl, rfl, rfl, rfl, Or.inl rfl, fun n hn => List.mem_append_left _ hn,
      fun hstopped => absurd hstopped hphase⟩
    · obtain ⟨-, rfl⟩ := eq_of_getElem?_append_one ht hc
      cases hbody.symm.trans hp
    · obtain ⟨rfl, rfl⟩ := eq_of_getElem?_append_one hn hc
      exact ⟨Nat.le_refl _, hlt, rfl, hroots,
        Or.inl (List.mem_append_right _ (List.mem_singleton_self _))⟩

/-- The threads of the loop begin without code. -/
theorem thread_begins {workers : Nat} {s : Strand α} (hs : s ∈ List.replicate workers
      { role := .worker } ++ [{ role := .microtasks }, { role := .timers }]) :
    s.exited = false ∧ s.role ≠ .dispatcher ∧ s.code = [] := by
  rcases List.mem_append.mp hs with hs | hs
  · rw [List.eq_of_mem_replicate hs]
    exact ⟨rfl, nofun, rfl⟩
  · rcases List.mem_cons.mp hs with rfl | hs
    · exact ⟨rfl, nofun, rfl⟩
    · rw [List.mem_singleton.mp hs]
      exact ⟨rfl, nofun, rfl⟩

theorem around_startLoop (m : Machine α) : m.Around m.startLoop := by
  unfold startLoop
  split_ifs with hphase
  · refine ⟨no_new _, no_children rfl, ⟨[], (List.append_nil _).symm⟩, no_newTimers rfl,
      ⟨_, rfl, fun s hs => ?_⟩, rfl, rfl, rfl, rfl, rfl, Or.inr ⟨hphase, rfl⟩, fun _ => id,
      fun _ => rfl⟩
    obtain ⟨hexited, -, hcode⟩ := thread_begins hs
    refine ⟨hexited, fun _ => hphase, Or.inr hcode, fun j hj => ?_⟩
    rw [hcode] at hj
    exact absurd hj List.not_mem_nil
  · exact around_of_eq rfl rfl rfl rfl

theorem around_startScheduler (m : Machine α) : m.Around m.startScheduler := by
  unfold startScheduler
  split_ifs
  · obtain ⟨htasks, hchildren, htimers, hnewTimers, ⟨new, hstrands, hnew⟩, hloop⟩ :=
      around_startLoop m
    have hholds : ∀ j, m.startLoop.Holds j → Holds { m.startLoop with
        scheduler := { m.startLoop.scheduler with phase := .running }
        strands := m.startLoop.strands ++ [{ role := .dispatcher }] } j :=
      fun j ⟨s, hs, hj⟩ => ⟨s, List.mem_append_left _ hs, hj⟩
    refine ⟨htasks, fun t c p ht hc hp => ?_, htimers, fun n c hn hc => ?_,
      ⟨new ++ [{ role := .dispatcher }], ?_, ?_⟩, hloop⟩
    · exact (hchildren t c p ht hc hp).imp_right (hholds _)
    · obtain ⟨hle, hlt, hcancelled, hroots, hregistered⟩ := hnewTimers n c hn hc
      exact ⟨hle, hlt, hcancelled, hroots, hregistered.imp_right (hholds _)⟩
    · rw [← List.append_assoc, ← hstrands]
    · refine List.forall_mem_append.mpr ⟨hnew, List.forall_mem_singleton.mpr
        ⟨rfl, False.elim, Or.inr rfl, ?_⟩⟩
      exact fun _ hj => absurd hj List.not_mem_nil
  · exact around_of_eq rfl rfl rfl rfl

theorem resolve?_eq {result : Option (TaskResult α)} (h : m.resolve? t result = some m') :
    ∃ promises, m' = { m with promises } := by
  unfold resolve? at h
  split at h
  · cases h
  · obtain rfl := Option.some.inj h
    cases result with
    | none => exact ⟨_, rfl⟩
    | some r => exact ⟨_, rfl⟩

theorem schedule_eq {priority : Int} {deadline : Nat}
    (h : m.schedule t priority deadline = .ok m') : ∃ scheduler, m' = { m with scheduler } := by
  unfold schedule at h
  cases hsubmit : m.scheduler.submit t priority deadline with
  | error e =>
    rw [hsubmit] at h
    cases h
  | ok scheduler =>
    rw [hsubmit] at h
    exact ⟨scheduler, (Except.ok.inj h).symm⟩

theorem release_eq (m : Machine α) : ∃ gate, m.release.2 = { m with gate } := by
  unfold release
  split
  · exact ⟨_, rfl⟩
  · exact ⟨_, rfl⟩

theorem Move.around (h : m.Move m') : m.Around m' := by
  cases h with
  | newTask body name hbody => exact around_newTask hbody
  | continueWith parent body hparent hbody => exact around_continueWith hparent hbody
  | call code hcode => exact around_call hcode
  | addTimer delay repeating body hbody => exact around_addTimer hbody
  | startLoop => exact around_startLoop m
  | startScheduler => exact around_startScheduler m
  | schedule t priority deadline h =>
    obtain ⟨scheduler, rfl⟩ := schedule_eq h
    exact around_of_eq rfl rfl rfl rfl
  | resolve t result h =>
    obtain ⟨promises, rfl⟩ := resolve?_eq h
    exact around_of_eq rfl rfl rfl rfl
  | release =>
    obtain ⟨gate, hgate⟩ := release_eq m
    rw [hgate]
    exact around_of_eq rfl rfl rfl rfl
  | handles => exact around_of_eq rfl rfl rfl rfl
  | elapse => exact around_of_eq rfl rfl rfl rfl

theorem Around.beside (h : m.Around m') : m.Beside m' := by
  obtain ⟨new, htasks, -⟩ := h.tasks
  obtain ⟨added, hstrands, hadded⟩ := h.strands
  exact ⟨⟨new, htasks⟩, ⟨added, hstrands, fun s hs j hj => ((hadded s hs).2.2.2 j hj).1⟩⟩

theorem Around.length_le (h : m.Around m') : m.tasks.length ≤ m'.tasks.length := by
  obtain ⟨new, htasks, -⟩ := h.tasks
  rw [htasks, List.length_append]
  exact Nat.le_add_right _ _

/-- A task is as it was before, or new. -/
theorem Around.cell_or_new {c : TaskCell α} (h : m.Around m') (hc : m'.tasks[t]? = some c) :
    m.tasks[t]? = some c ∨ m.tasks.length ≤ t ∧ c.IsNew := by
  obtain ⟨new, htasks, hnew⟩ := h.tasks
  rw [htasks] at hc
  rcases Nat.lt_or_ge t m.tasks.length with ht | ht
  · rw [List.getElem?_append_left ht] at hc
    exact Or.inl hc
  · rw [List.getElem?_append_right ht] at hc
    exact Or.inr ⟨ht, hnew c (List.mem_of_getElem? hc)⟩

theorem Around.holds (h : m.Around m') (hj : m.Holds j) : m'.Holds j := by
  obtain ⟨s, hs, hj⟩ := hj
  obtain ⟨added, hstrands, -⟩ := h.strands
  exact ⟨s, hstrands ▸ List.mem_append_left _ hs, hj⟩

theorem Around.of_holds (h : m.Around m') (hj : m'.Holds j) :
    m.Holds j ∨ j.IsCall ∧ j.Grounded m.tasks.length := by
  obtain ⟨s, hs, hj⟩ := hj
  obtain ⟨added, hstrands, hadded⟩ := h.strands
  rw [hstrands] at hs
  rcases List.mem_append.mp hs with hs | hs
  · exact Or.inl ⟨s, hs, hj⟩
  · exact Or.inr ((hadded s hs).2.2.2 j hj)

end Around

/-! ### All tasks at once -/

/-- The invariants of each task, as they are known for one (`TaskCell.Sound`). -/
structure Governed (m : Machine α) : Prop where
  grounded : ∀ j, m.Holds j → j.Grounded m.tasks.length
  sound : ∀ t c, m.tasks[t]? = some c → ∃ log, TaskCell.Sound t c m.work log

theorem governed_initial (config : LoopConfig) (workers : Nat) :
    (initial config workers : Machine α).Governed where
  grounded := fun _ ⟨_, hs, _⟩ => absurd hs List.not_mem_nil
  sound := fun _ _ hc => absurd hc (Option.not_mem_none _)

/-- A task that has just been created is governed. -/
theorem sound_of_isNew {c : TaskCell α} (hc : c.IsNew)
    (hgrounded : ∀ j, m.Holds j → j.IsPlain t) : ∃ log, TaskCell.Sound t c m.work log := by
  obtain ⟨body, name, rfl⟩ := hc
  exact ⟨_, Watch.sound_of_isPlain body name fun w hw => hgrounded w.2 (holds_of_mem_work hw)⟩

/-- A task that an instruction has added is new. -/
theorem Retains.isNew {c : TaskCell α} (h : m.Retains i m') (ht : m.tasks.length ≤ t)
    (hc : m'.tasks[t]? = some c) : c.IsNew := by
  obtain ⟨-, -, -, -, -, -, body, -, -, -, rfl⟩ := h.new t c ht hc
  exact isNew_ofBody body none

/-- A step does not take tasks away, and those that it adds are new. -/
theorem step_tasks (h : m.step heedStop self = some m') :
    m.tasks.length ≤ m'.tasks.length ∧ (∀ j, m'.Holds j → m.Holds j ∨ j.Grounded m.tasks.length) ∧
      ∀ t c, m.tasks.length ≤ t → m'.tasks[t]? = some c → c.IsNew := by
  cases step_turn h with
  | carried hs _ hcode hexec hadded hm' =>
    have hexecutes := exec_executes heedStop _ _ _ hexec
    have htasks : m'.tasks = _ := congrArg tasks hm'
    obtain ⟨-, -, -, hfrom⟩ := holds_carried hs hcode hadded (congrArg strands hm')
    rw [htasks]
    refine ⟨hexecutes.tasks.length, fun j hj => ?_, fun t c => hexecutes.tasks.isNew⟩
    rcases hfrom j hj with hj | hj | ⟨p, setup, rfl⟩
    · cases hexecutes.leaves j hj with
      | grounded hj => exact Or.inr hj
      | submitted => exact Or.inr trivial
      | told => exact Or.inr trivial
      | marked => exact Or.inr trivial
      | joined => exact Or.inr trivial
    · exact Or.inl hj
    · exact Or.inr trivial
  | found hs _ _ hcode hfinds hm' =>
    obtain ⟨-, -, hfrom⟩ := holds_found hs hcode (congrArg strands hm')
    have htasks : m'.tasks = m.tasks := (congrArg tasks hm').trans hfinds.tasks_eq
    rw [htasks]
    refine ⟨Nat.le_refl _, fun j hj => ?_,
      fun t c ht hc => absurd (lt_length hc) (Nat.not_lt.mpr ht)⟩
    refine (hfrom j hj).symm.imp_right fun hj => ?_
    exact hfinds.forall_code (fun _ => trivial) (fun _ => trivial) (fun _ => trivial)
      (fun _ _ => trivial) (fun _ _ => trivial) j hj

/-- What a step keeps of a task that is there. -/
theorem Governed.cell_step {c : TaskCell α} (g : m.Governed) (h : m.step heedStop self = some m')
    (hc : m.tasks[t]? = some c) : ∃ c', m'.tasks[t]? = some c' ∧
      (∃ log, TaskCell.Sound t c' m'.work log) ∧
      (c.state.isTerminal = true → c'.state = c.state ∧ c'.outcome = c.outcome) := by
  obtain ⟨log, hsound⟩ := g.sound t c hc
  obtain ⟨c', hc', hsound', hfinal⟩ := Watch.turn_effect (w := ⟨m, log⟩) heedStop self hc hsound
  have hmachine : ((⟨m, log⟩ : Watch α).turn t heedStop self).machine = m' := by
    unfold Watch.turn
    rw [h]
    dsimp only
    split <;> rfl
  rw [hmachine] at hc' hsound'
  exact ⟨c', hc', ⟨_, hsound'⟩, hfinal⟩

theorem Governed.step (g : m.Governed) (h : m.step heedStop self = some m') : m'.Governed := by
  obtain ⟨hlength, hfrom, hnew⟩ := step_tasks h
  have hgrounded : ∀ j, m'.Holds j → j.Grounded m.tasks.length := fun j hj =>
    (hfrom j hj).elim (g.grounded j) id
  refine ⟨fun j hj => (hgrounded j hj).mono hlength, fun t c' hc' => ?_⟩
  cases hc : m.tasks[t]? with
  | none =>
    have ht := List.getElem?_eq_none_iff.mp hc
    exact sound_of_isNew (hnew t c' ht hc') fun j hj => (hgrounded j hj).isPlain ht
  | some c =>
    obtain ⟨d, hd, hsound, -⟩ := g.cell_step h hc
    obtain rfl := Option.some.inj (hd.symm.trans hc')
    exact hsound

/-- The outcome of a task is there exactly when its state is final. -/
theorem Governed.isSome_eq {c : TaskCell α} (g : m.Governed) (hc : m.tasks[t]? = some c) :
    c.outcome.isSome = c.state.isTerminal := by
  obtain ⟨log, hsound⟩ := g.sound t c hc
  exact hsound.settling.fate.isSome_eq

/-- A step does not change the outcome of a task that has settled. -/
theorem Governed.outcome_step {r : TaskResult α} (g : m.Governed)
    (h : m.step heedStop self = some m') (hr : m.outcome t = some r) : m'.outcome t = some r := by
  obtain ⟨c, hc, hr⟩ := Option.bind_eq_some_iff.mp hr
  have hterminal : c.state.isTerminal = true := by
    rw [← g.isSome_eq hc, hr]
    rfl
  obtain ⟨c', hc', -, hfinal⟩ := g.cell_step h hc
  unfold outcome
  rw [hc', Option.bind_some, (hfinal hterminal).2]
  exact hr

theorem Governed.around (g : m.Governed) (h : m.Around m') : m'.Governed := by
  have hgrounded : ∀ j, m'.Holds j → j.Grounded m.tasks.length := fun j hj =>
    (h.of_holds hj).elim (g.grounded j) And.right
  refine ⟨fun j hj => (hgrounded j hj).mono h.length_le, fun t c' hc' => ?_⟩
  rcases h.cell_or_new hc' with hc | ⟨ht, hnew⟩
  · obtain ⟨log, hsound⟩ := g.sound t c' hc
    obtain ⟨added, hwork, hplain⟩ := h.beside.work_eq (t := t)
    rw [hwork]
    exact ⟨log, (hsound.extend hplain).perm List.perm_append_comm⟩
  · exact sound_of_isNew hnew fun j hj => (hgrounded j hj).isPlain ht

theorem Reaches.governed (h : m.Reaches m') (g : m.Governed) : m'.Governed := by
  induction h with
  | refl => exact g
  | step _ heedStop self hstep ih => exact ih.step hstep
  | move _ hmove ih => exact ih.around hmove.around

end Machine

end ManagedHost
