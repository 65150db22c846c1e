import ManagedHost.Proofs.Schedule.Dispatch

/-!
# Where the names of tasks come from

To do something to a task one has to name it.  `Machine.exec_traces` follows the names through all
instructions: what an instruction leaves behind names a task that the instruction itself named, that
was stored somewhere (`Machine.Knows`), or that a timer has armed which fires or of which the task
is being cancelled.  So a task that nobody knows and nobody names stays as it is.
-/

namespace ManagedHost

variable {α : Type}

namespace Instr

/-- Whether the instruction names the task, so that carrying it out may change it or pass it on. -/
def Mentions (t : TaskId) : Instr α → Prop
  | start k | enter k | hold k | perform k _ _ | andThen k _ _ _ | orElse k _ _ _
  | awaitPromise k _ | awaitAll k _ _ _ | awaitAny k _ | settle k _ _ _ | signal k | release k
  | dropBody k | cancel k | fail k _ | submit k _ | enqueue k _ | microtask k _ | leave k | record k
  | cancelLeft k => k = t
  | dispatch k children => k = t ∨ t ∈ children
  | register k child => k = t ∨ child = t
  | scanTimers _ _ due | pollTimer _ _ _ due => t ∈ due
  | _ => False

/-- Whether the instruction is part of a cancellation of the task, or of what follows it. -/
def Wipes (t : TaskId) : Instr α → Prop
  | cancel k | signal k | release k | dropBody k => k = t
  | settle k _ result mode => k = t ∧ result = .error .cancelled ∧ mode = .cancel
  | dispatch k children => k = t ∧ t ∉ children
  | _ => False

end Instr

namespace Machine

variable {m m' : Machine α} {t : TaskId} {self : Nat} {heedStop : Bool} {i i' j : Instr α}
  {code : List (Instr α)}

/-- Whether the task is stored somewhere from where somebody may take it: among the handles, as a
continuation, in the loop or with the scheduler. -/
def Knows (m : Machine α) (t : TaskId) : Prop :=
  t ∈ m.handles ∨ (∃ (k : TaskId) (c : TaskCell α), m.tasks[k]? = some c ∧ t ∈ c.continuations) ∨
    (t ∈ m.loop.queue ∨ t ∈ m.loop.microtasks ∨ t ∈ m.loop.active) ∨
    ∃ e ∈ m.scheduler.queue.entries, e.task = t

/-- Whether the instruction takes the task that the timer, which is as `b`, has armed: the timer
fires, or the task is to be cancelled. -/
inductive Takes (k : Nat) (b : TimerCell α) : Instr α → Prop where
  | fires {now : Nat} {todo : List Nat} {due : List TaskId} (hdue : b.nextRun ≤ now) :
      Takes k b (.pollTimer now k todo due)
  | cancels : Takes k b (.cancelArmed k)

/-- **Where a name comes from**, when `i` leaves behind the instruction `j`. -/
inductive Traced (m : Machine α) (t : TaskId) (i j : Instr α) : Prop where
  | own (hi : i.Mentions t) (hwipes : i.Wipes t → j.Wipes t)
  | known (h : m.Knows t)
  | armed {k : Nat} {b : TimerCell α} (hb : m.timers[k]? = some b) (harmed : b.armed = t)
      (htakes : Takes k b i) (hwipes : i = .cancelArmed k → j.Wipes t)

/-- What is left behind names no task from anywhere else, and no handles are given out. -/
def Traces (m : Machine α) (i : Instr α) (result : Option (Machine α × List (Instr α))) : Prop :=
  ∀ m' code, result = some (m', code) →
    m'.handles = m.handles ∧ ∀ j ∈ code, ∀ t, j.Mentions t → m.Traced t i j

/-- The name is that of the instruction, which is not part of a cancellation. -/
theorem traced_own (hi : i.Mentions t) (hnot : ¬ i.Wipes t) : m.Traced t i j :=
  .own hi fun h => absurd h hnot

theorem traces_nil : ∀ j ∈ ([] : List (Instr α)), ∀ t, j.Mentions t → m.Traced t i j :=
  fun _ hj => absurd hj List.not_mem_nil

/-- An instruction is followed by another one with its own name. -/
theorem traces_own (hj : ∀ t, j.Mentions t → i.Mentions t ∧ ¬ i.Wipes t) :
    ∀ k ∈ [j], ∀ t, k.Mentions t → m.Traced t i k :=
  List.forall_mem_singleton.mpr fun t ht => traced_own (hj t ht).1 (hj t ht).2

/-- An instruction is followed by one for a task that is known. -/
theorem traces_known {k : TaskId} (hk : m.Knows k) (hi : ∀ t, i.Mentions t → k = t)
    (hrest : ∀ j ∈ code, ∀ t, j.Mentions t → m.Traced t i' j) :
    ∀ j ∈ i :: code, ∀ t, j.Mentions t → m.Traced t i' j :=
  List.forall_mem_cons.mpr ⟨fun t ht => Traced.known (hi t ht ▸ hk), hrest⟩

theorem Rule.traces (h : m.Rule heedStop self i m' code) :
    ∀ j ∈ code, ∀ t, j.Mentions t → m.Traced t i j := by
  cases h with
  -- tasks that are run
  | start | enterMissing | enterScript | enterAndThen | enterOrElse | enterPromise | enterAll
  | enterRace | scriptEnd | note | noteToken | noteState | signalSelf | handleMissing | waitToken
  | andThen | andThenError | orElse | orElseValue | promiseMessage | promiseToken | promiseClosed
  | allDone | allNext | allError | raceWon | raceToken | raceEmpty | fail | submit =>
    exact traces_own fun _ ht => ⟨ht, id⟩
  | cancelHandle hk | runHandle hk =>
    exact traces_known (Or.inl (List.mem_of_getElem? hk)) (fun _ => id)
      (traces_own fun _ ht => ⟨ht, id⟩)
  | stopFromWithin =>
    exact List.forall_mem_cons.mpr ⟨fun _ => False.elim, traces_own fun _ ht => ⟨ht, id⟩⟩
  | gate | cancelLeft =>
    exact List.forall_mem_cons.mpr ⟨fun _ ht => traced_own ht id, traces_own fun _ ht => ⟨ht, id⟩⟩
  -- settlements and what follows them
  | settle =>
    exact forall_settled (fun _ hk => .own hk fun _ => hk)
      (fun _ hk => .own hk fun _ => hk) (fun _ hk => .own hk fun _ => hk) _ _
  | settleLate => exact forall_retried (fun _ hk => .own hk fun _ => hk) _
  | @release t c hc =>
    refine List.forall_mem_singleton.mpr fun t' ht' => ?_
    by_cases hmem : t' ∈ c.continuations
    · exact Traced.known (Or.inr (Or.inl ⟨t, c, hc, hmem⟩))
    · obtain rfl := ht'.resolve_right hmem
      exact .own rfl fun _ => ⟨rfl, hmem⟩
  | @dispatch t children c =>
    have hchild : ∀ k ∈ children, ∀ t', k = t' → ∀ j,
        m.Traced t' (.dispatch t children) j := by
      rintro k hk t' rfl j
      exact traced_own (Or.inr hk) fun hwipes => hwipes.2 hk
    exact forall_dispatched (fun k hk t' ht' => hchild k hk t' ht' _)
      (fun k hk t' ht' => hchild k hk t' ht' _) c.bound
  | registerLate =>
    refine traces_own fun t' ht' => ⟨ht'.imp_right fun hmem => ?_, id⟩
    exact (List.mem_singleton.mp hmem).symm
  | cancel =>
    exact List.forall_mem_singleton.mpr fun _ ht => .own ht fun _ => ⟨ht, rfl, rfl⟩
  -- submissions
  | @submitRefused t who | @enqueueRefused t who =>
    cases who with
    | caller => exact List.forall_mem_singleton.mpr fun _ => False.elim
    | timer => exact traces_own fun _ ht => ⟨ht, id⟩
    | dispatcher => exact traces_own fun _ ht => ⟨ht, id⟩
  | @enqueue t who =>
    cases who with
    | caller => exact List.forall_mem_singleton.mpr fun _ => False.elim
    | timer => exact traces_nil
    | dispatcher => exact traces_nil
  | @microtask t caller =>
    cases caller with
    | true => exact List.forall_mem_singleton.mpr fun _ => False.elim
    | false => exact traces_nil
  | @microtaskRefused t caller =>
    cases caller with
    | true => exact List.forall_mem_singleton.mpr fun _ => False.elim
    | false => exact traces_own fun _ ht => ⟨ht, id⟩
  -- timers
  | scanDone => exact List.forall_mem_map.mpr fun k hk t ht => traced_own (ht ▸ hk) id
  | scanDrop | scanFind | pollEarly => exact traces_own fun _ ht => ⟨ht, id⟩
  | fireOnce hb hdue | fireAgain hb hdue =>
    refine List.forall_mem_singleton.mpr fun t ht => ?_
    rcases List.mem_append.mp ht with ht | ht
    · exact traced_own ht id
    · exact .armed hb (List.mem_singleton.mp ht).symm (.fires hdue) nofun
  | cancelArmed hb =>
    exact List.forall_mem_singleton.mpr fun t ht => .armed hb ht .cancels fun _ => ht
  | cancelTimer => exact List.forall_mem_singleton.mpr fun _ => False.elim
  | setup | stopLoop | markStopped | joinThreads =>
    exact List.forall_mem_singleton.mpr fun _ => False.elim
  | sweepLoop =>
    refine forall_swept (fun _ _ _ => False.elim) fun k hk t' ht' => ?_
    obtain rfl : k = t' := ht'
    simp only [List.mem_append] at hk
    exact Traced.known (Or.inr (Or.inr (Or.inl (or_assoc.mp hk))))
  | stopScheduler =>
    refine forall_drained (fun _ => False.elim) (fun e he t' ht' => ?_) fun _ => False.elim
    exact Traced.known (Or.inr (Or.inr (Or.inr ⟨e, he, ht'⟩)))
  -- the others leave nothing behind
  | _ => exact traces_nil

theorem Rule.handles (h : m.Rule heedStop self i m' code) : m'.handles = m.handles := by
  cases h with
  | @submitRefused t who | @enqueueRefused t who | @enqueue t who => cases who <;> rfl
  | _ => rfl

/-- **Instructions name no task out of thin air.** -/
theorem exec_traces (heedStop : Bool) (i : Instr α) : m.Traces i (m.exec heedStop self i) := by
  intro m' code h
  have hrule := exec_ruled h
  exact ⟨hrule.handles, hrule.traces⟩

/-! ### What is not named -/

/-- A continuation was on the list, or the instruction has put it there. -/
theorem mem_of_mem_continuations {k : TaskId} {c c' : TaskCell α} (h : TaskEffect k c i c' code)
    (ht : t ∈ c'.continuations) : t ∈ c.continuations ∨ i = .register k t := by
  cases h with
  | released => exact absurd ht List.not_mem_nil
  | registered =>
    refine (List.mem_append.mp ht).imp_right fun ht => ?_
    rw [List.mem_singleton.mp ht]
  | idle _ hsame => exact Or.inl (hsame.continuations ▸ ht)
  | _ => exact Or.inl ht

/-- A task that was not in the loop is brought to it by an instruction that names it. -/
theorem mentions_of_mem_loop {l l' : EventLoop} (h : LoopEffect l i code l')
    (ht : t ∈ l'.queue ∨ t ∈ l'.microtasks ∨ t ∈ l'.active) :
    (t ∈ l.queue ∨ t ∈ l.microtasks ∨ t ∈ l.active) ∨ i.Mentions t ∧ ¬ i.Wipes t := by
  cases h with
  | submitted =>
    refine ht.elim (fun ht => Or.inl (Or.inl ht)) (Or.elim · (fun ht => Or.inl (Or.inr (Or.inl ht)))
      fun ht => ?_)
    rcases List.mem_insert_iff.mp ht with rfl | ht
    · exact Or.inr ⟨rfl, id⟩
    · exact Or.inl (Or.inr (Or.inr ht))
  | queued =>
    refine ht.elim (fun ht => ?_) fun ht => Or.inl (Or.inr ht)
    rcases List.mem_append.mp ht with ht | ht
    · exact Or.inl (Or.inl ht)
    · rw [List.mem_singleton.mp ht]
      exact Or.inr ⟨rfl, id⟩
  | refused => exact Or.inl (ht.imp_right (Or.imp_right List.mem_of_mem_erase))
  | pushed =>
    refine ht.elim (fun ht => Or.inl (Or.inl ht)) (Or.elim · (fun ht => ?_) fun ht => ?_)
    · rcases List.mem_append.mp ht with ht | ht
      · exact Or.inl (Or.inr (Or.inl ht))
      · rw [List.mem_singleton.mp ht]
        exact Or.inr ⟨rfl, id⟩
    · rcases List.mem_insert_iff.mp ht with rfl | ht
      · exact Or.inr ⟨rfl, id⟩
      · exact Or.inl (Or.inr (Or.inr ht))
  | left => exact Or.inl (ht.imp_right (Or.imp_right List.mem_of_mem_erase))
  | swept =>
    rcases ht with ht | ht | ht
    · exact absurd ht List.not_mem_nil
    · exact absurd ht List.not_mem_nil
    · exact absurd ht List.not_mem_nil
  | _ => exact Or.inl ht

/-- **A task is stored somewhere only by an instruction that names it**, and not to cancel it. -/
theorem exec_knows (h : m.exec heedStop self i = some (m', code)) (hk : m'.Knows t) :
    m.Knows t ∨ i.Mentions t ∧ ¬ i.Wipes t := by
  rcases hk with hk | ⟨k, c', hc', hk⟩ | hk | ⟨e, he, hk⟩
  · rw [(exec_traces heedStop i m' code h).1] at hk
    exact Or.inl (Or.inl hk)
  · rcases exec_cell h hc' with ⟨c, hc, heffect, -⟩ | ⟨-, hrearms⟩
    · rcases mem_of_mem_continuations heffect hk with hk | rfl
      · exact Or.inl (Or.inr (Or.inl ⟨k, c, hc, hk⟩))
      · exact Or.inr ⟨Or.inr rfl, id⟩
    · -- a task that a timer has just armed has no continuations
      obtain ⟨-, -, -, -, -, -, body, -, -, -, rfl⟩ := hrearms
      exact absurd hk List.not_mem_nil
  · exact (mentions_of_mem_loop (exec_executes heedStop i m' code h).loop hk).imp_left
      fun hk => Or.inr (Or.inr (Or.inl hk))
  · have heffect := (exec_schedules heedStop i m' code h).1
    refine Or.inl (Or.inr (Or.inr (Or.inr ⟨e, ?_, hk⟩)))
    generalize m'.scheduler = s at heffect he
    cases heffect with
    | closed => exact absurd he List.not_mem_nil
    | _ => exact he

/-- **A task that is not named stays in its state**, and one that is named to cancel it can only be
cancelled. -/
theorem exec_state {c : TaskCell α} (h : m.exec heedStop self i = some (m', code))
    (hc : m.tasks[t]? = some c) : (¬ i.Mentions t → m'.state t = m.state t) ∧
      (i.Wipes t → m'.state t = m.state t ∨ m'.state t = .cancelled) := by
  obtain ⟨⟨c', hc', heffect⟩, -⟩ := exec_affects heedStop self hc i m' code h
  rw [(cell_eq hc).1, (cell_eq hc').1]
  cases heffect with
  | started => exact ⟨fun hnot => absurd rfl hnot, False.elim⟩
  | settled =>
    refine ⟨fun hnot => absurd rfl hnot, fun hwipes => Or.inr ?_⟩
    rw [hwipes.2.1]
    rfl
  | idle _ hsame => exact ⟨fun _ => hsame.state, fun _ => Or.inl hsame.state⟩
  | _ => exact ⟨fun _ => rfl, fun _ => Or.inl rfl⟩

end Machine

end ManagedHost
