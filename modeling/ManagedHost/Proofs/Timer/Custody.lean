import ManagedHost.Proofs.Loop.Cancelling
import ManagedHost.Proofs.Schedule.Ledger
import ManagedHost.Proofs.Timer.Timetable

/-!
# Tasks that a timer keeps to itself

A task that a timer has armed and not handed out is not known to anybody (`Machine.Untouched`), and
so nothing happens to it.  When the timer is cancelled, only the cancellation of the task names it
(`Machine.Withdrawn`), and nothing else can happen to it.  `Machine.Custody` says so of all timers;
every step keeps it, and everything that callers may do (`Timetable.Runs.custody`).

Whoever cancels a timer goes on to cancel the task that it has armed, and does not have to wait for
anything (`Chronicle.Reaches.revokes`).  Only the task with which a timer is armed when it
fires after that is left alone.
-/

namespace ManagedHost

variable {α : Type}

theorem SchedulerEffect.queue_kept {m : Machine α} {self : Nat} {i : Instr α}
    {code : List (Instr α)} {s : Scheduler} (h : SchedulerEffect m self i code s)
    (kept : m.scheduler.queue.Kept) : s.queue.Kept := by
  cases h with
  | closed => exact DeadlineQueue.drain_kept _
  | _ => exact kept

/-- A timer that is as before has not fired. -/
theorem TimerEffect.not_due {fresh : TaskId} {timers timers' : List (TimerCell α)}
    {code : List (Instr α)} {now k : Nat} {todo : List Nat} {due : List TaskId} {b : TimerCell α}
    (h : TimerEffect fresh timers (.pollTimer now k todo due) code timers')
    (hb : timers[k]? = some b) (hb' : timers'[k]? = some b) : now < b.nextRun := by
  cases h with
  | same hi => exact absurd trivial hi
  | early hearly => exact hearly b hb
  | fired hc =>
    obtain rfl := Option.some.inj (hb.symm.trans hc)
    rw [List.getElem?_set_self (List.getElem?_eq_some_iff.mp hb).1] at hb'
    have hfired := congrArg TimerCell.fired (Option.some.inj hb')
    rw [TimerCell.fire_fired] at hfired
    exact absurd hfired (Nat.succ_ne_self _)

/-- A timer that was cancelled stays so. -/
theorem TimerEffect.cancelled_before {fresh : TaskId} {timers timers' : List (TimerCell α)}
    {i : Instr α} {code : List (Instr α)} {k : Nat} {b : TimerCell α}
    (h : TimerEffect fresh timers i code timers') (hb : timers[k]? = some b)
    (hcancelled : b.cancelled = true) : ∃ b', timers'[k]? = some b' ∧ b'.cancelled = true := by
  have hlt : k < timers'.length := h.length_eq ▸ (List.getElem?_eq_some_iff.mp hb).1
  have hb' := List.getElem?_eq_getElem hlt
  refine ⟨_, hb', ?_⟩
  obtain ⟨c, hc, hcell⟩ := h.cell hb'
  obtain rfl := Option.some.inj (hb.symm.trans hc)
  rcases hcell with heq | ⟨-, heq, -⟩ | ⟨now, todo, due, -, heq, -⟩
  · rw [heq, hcancelled]
  · rw [heq]
  · rw [heq, TimerCell.fire_cancelled, hcancelled]

namespace Machine

variable {m m' m₁ : Machine α} {t : TaskId} {self n : Nat} {heedStop : Bool} {i j : Instr α}
  {code rest : List (Instr α)} {s : Strand α} {b : TimerCell α} {k : Nat}
  {answer : Option (TaskResult Unit)} {added : List (Strand α)}

/-- Whether nobody knows the task or names it, and nothing has happened to it. -/
structure Untouched (m : Machine α) (t : TaskId) : Prop where
  unknown : ¬ m.Knows t
  unnamed : ∀ j, m.Holds j → ¬ j.Mentions t
  pending : m.state t = .pending

/-- Whether nobody knows the task, or names it other than to cancel it. -/
structure Withdrawn (m : Machine α) (t : TaskId) : Prop where
  unknown : ¬ m.Knows t
  wiped : ∀ j, m.Holds j → j.Mentions t → j.Wipes t
  state : m.state t = .pending ∨ m.state t = .cancelled

theorem Untouched.withdrawn (h : m.Untouched t) : m.Withdrawn t :=
  ⟨h.unknown, fun j hj hmentions => absurd hmentions (h.unnamed j hj), Or.inl h.pending⟩

/-! ### Instructions -/

/-- A task that an instruction creates is pending. -/
theorem exec_absent (h : m.exec heedStop self i = some (m₁, code)) (ht : m.tasks.length ≤ t) :
    m₁.state t = m.state t := by
  unfold state
  rw [List.getElem?_eq_none ht]
  cases hc : m₁.tasks[t]? with
  | none => rfl
  | some c =>
    obtain ⟨body, name, rfl⟩ := (exec_executes heedStop i m₁ code h).tasks.isNew ht hc
    rfl

/-- A task that is not named stays in its state. -/
theorem exec_unnamed (h : m.exec heedStop self i = some (m₁, code)) (hi : ¬ i.Mentions t) :
    m₁.state t = m.state t := by
  cases hc : m.tasks[t]? with
  | some c => exact (exec_state h hc).1 hi
  | none => exact exec_absent h (List.getElem?_eq_none_iff.mp hc)

/-- A task that is named to cancel it stays in its state, or is cancelled. -/
theorem exec_wipes (h : m.exec heedStop self i = some (m₁, code)) (hi : i.Wipes t) :
    m₁.state t = m.state t ∨ m₁.state t = .cancelled := by
  cases hc : m.tasks[t]? with
  | some c => exact (exec_state h hc).2 hi
  | none => exact Or.inl (exec_absent h (List.getElem?_eq_none_iff.mp hc))

/-- Only whoever cancels a timer is to cancel the task that it has armed. -/
theorem Rule.of_cancelArmed (h : m.Rule heedStop self i m₁ code) (hj : .cancelArmed k ∈ code) :
    i = .cancelTimer k := by
  have hnone : code.all (!·.isCancelArmed k) = false := by
    rw [List.all_eq_false]
    exact ⟨_, hj, by simp [Instr.isCancelArmed]⟩
  cases h with
  | cancelTimer =>
    obtain rfl := Instr.cancelArmed.inj (List.mem_singleton.mp hj)
    rfl
  | scanDone => cases hnone.symm.trans (all_due (fun _ => rfl) _)
  | settle => cases hnone.symm.trans (all_settled rfl rfl rfl _ _)
  | settleLate => cases hnone.symm.trans (all_retried rfl _)
  | dispatch => cases hnone.symm.trans (all_dispatched (fun _ => rfl) (fun _ => rfl) _ _)
  | @submitRefused t who | @enqueueRefused t who | @enqueue t who => cases who <;> cases hnone
  | @microtask t caller | @microtaskRefused t caller => cases caller <;> cases hnone
  | sweepLoop => cases hnone.symm.trans (all_swept (fun _ => rfl) (fun _ => rfl) _ _)
  | stopScheduler => cases hnone.symm.trans (all_drained rfl (fun _ => rfl) rfl _)
  | _ => cases hnone

section Carried

variable (hs : m.strands[self]? = some s) (hcode : s.code = i :: rest)
  (hexec : m.exec heedStop self i = some (m₁, code)) (hadded : ∀ a ∈ added, a.IsSetup)
  (hm' : m' = { m₁ with
    strands := m.strands.set self { s with code := code ++ rest, answer } ++ added })
include hs hcode hexec hadded hm'

/-- A task that nobody names stays so, unless the timer that has armed it fires or the task is being
cancelled with it. -/
theorem Untouched.carried (h : m.Untouched t)
    (htakes : ∀ k b, m.timers[k]? = some b → Takes k b i → b.armed ≠ t) : m'.Untouched t := by
  obtain ⟨hi, -, -, hfrom⟩ := holds_carried hs hcode hadded (congrArg strands hm')
  have hnot := h.unnamed i hi
  refine ⟨fun hknows => ?_, fun j hj hmentions => ?_, ?_⟩
  · have hknows₁ : m₁.Knows t := by
      rw [hm'] at hknows
      exact hknows
    exact (exec_knows hexec hknows₁).elim h.unknown fun hmentions => hnot hmentions.1
  · rcases hfrom j hj with hj | hj | ⟨p, setup, rfl⟩
    · cases (exec_traces heedStop i m₁ code hexec).2 j hj t hmentions with
      | own hmentions => exact hnot hmentions
      | known hknows => exact h.unknown hknows
      | armed hb harmed htaken => exact htakes _ _ hb htaken harmed
    · exact h.unnamed j hj hmentions
    · exact hmentions
  · rw [hm']
    exact (exec_unnamed hexec hnot).trans h.pending

/-- A task that is only named to cancel it stays so, unless the timer that has armed it fires. -/
theorem Withdrawn.carried (h : m.Withdrawn t)
    (htakes : ∀ k b, m.timers[k]? = some b → Takes k b i → b.armed = t → i = .cancelArmed k) :
    m'.Withdrawn t := by
  obtain ⟨hi, -, -, hfrom⟩ := holds_carried hs hcode hadded (congrArg strands hm')
  refine ⟨fun hknows => ?_, fun j hj hmentions => ?_, ?_⟩
  · have hknows₁ : m₁.Knows t := by
      rw [hm'] at hknows
      exact hknows
    exact (exec_knows hexec hknows₁).elim h.unknown fun ⟨hmentions, hnot⟩ =>
      hnot (h.wiped i hi hmentions)
  · rcases hfrom j hj with hj | hj | ⟨p, setup, rfl⟩
    · cases (exec_traces heedStop i m₁ code hexec).2 j hj t hmentions with
      | own hmentions hwipes => exact hwipes (h.wiped i hi hmentions)
      | known hknows => exact absurd hknows h.unknown
      | armed hb harmed htaken hwipes => exact hwipes (htakes _ _ hb htaken harmed)
    · exact h.wiped j hj hmentions
    · exact hmentions.elim
  · have hstate : m₁.state t = m.state t ∨ m₁.state t = .cancelled := by
      by_cases hmentions : i.Mentions t
      · exact exec_wipes hexec (h.wiped i hi hmentions)
      · exact Or.inl (exec_unnamed hexec hmentions)
    rw [hm']
    show m₁.state t = .pending ∨ m₁.state t = .cancelled
    rcases hstate with hsame | hcancelled
    · exact hsame ▸ h.state
    · exact Or.inr hcancelled

end Carried

/-! ### Everything else -/

/-- Whether nobody has got to know the task or names it who did not before, and nothing has happened
to it. -/
structure Spares (m m' : Machine α) (t : TaskId) : Prop where
  knows : m'.Knows t → m.Knows t
  names : ∀ j, m'.Holds j → j.Mentions t → m.Holds j ∨ m.Knows t
  state : m'.state t = m.state t

theorem Untouched.spared (h : m.Untouched t) (hspares : m.Spares m' t) : m'.Untouched t where
  unknown hknows := h.unknown (hspares.knows hknows)
  unnamed j hj hmentions :=
    (hspares.names j hj hmentions).elim (h.unnamed j · hmentions) h.unknown
  pending := hspares.state.trans h.pending

theorem Withdrawn.spared (h : m.Withdrawn t) (hspares : m.Spares m' t) : m'.Withdrawn t where
  unknown hknows := h.unknown (hspares.knows hknows)
  wiped j hj hmentions := (hspares.names j hj hmentions).elim (h.wiped j · hmentions)
    fun hknows => absurd hknows h.unknown
  state := hspares.state ▸ h.state

/-- A task that was just created is pending, as it was when it was not there. -/
theorem state_of_new (h : ∃ new, m'.tasks = m.tasks ++ new ∧ ∀ c ∈ new, c.IsNew) (t : TaskId) :
    m'.state t = m.state t := by
  obtain ⟨new, htasks, hnew⟩ := h
  unfold state
  rw [htasks]
  rcases Nat.lt_or_ge t m.tasks.length with ht | ht
  · rw [List.getElem?_append_left ht]
  · rw [List.getElem?_append_right ht, List.getElem?_eq_none ht]
    cases hc : new[t - m.tasks.length]? with
    | none => rfl
    | some c =>
      obtain ⟨body, name, rfl⟩ := hnew c (List.mem_of_getElem? hc)
      rfl

theorem continuations_of_new (h : ∃ new, m'.tasks = m.tasks ++ new ∧ ∀ c ∈ new, c.IsNew)
    {k : TaskId} {c : TaskCell α} (hc : m'.tasks[k]? = some c) (ht : t ∈ c.continuations) :
    m.tasks[k]? = some c := by
  obtain ⟨new, htasks, hnew⟩ := h
  rw [htasks] at hc
  rcases Nat.lt_or_ge k m.tasks.length with hk | hk
  · rwa [List.getElem?_append_left hk] at hc
  · rw [List.getElem?_append_right hk] at hc
    obtain ⟨body, name, rfl⟩ := hnew c (List.mem_of_getElem? hc)
    exact absurd ht List.not_mem_nil

/-- Nobody learns of a task when tasks are created. -/
theorem knows_of_new (h : ∃ new, m'.tasks = m.tasks ++ new ∧ ∀ c ∈ new, c.IsNew)
    (hhandles : m'.handles = m.handles) (hqueue : m'.loop.queue = m.loop.queue)
    (hmicrotasks : m'.loop.microtasks = m.loop.microtasks)
    (hactive : m'.loop.active = m.loop.active) (hscheduler : m'.scheduler = m.scheduler)
    (hknows : m'.Knows t) : m.Knows t := by
  unfold Knows at hknows ⊢
  rw [hhandles, hqueue, hmicrotasks, hactive, hscheduler] at hknows
  refine hknows.imp_right (Or.imp_left ?_)
  rintro ⟨k, c, hc, ht⟩
  exact ⟨k, c, continuations_of_new h hc ht, ht⟩

/-- What a strand finds to do is about tasks that were known. -/
theorem Finds.spares {role : Role} {exited : Bool} (h : m.Finds role m₁ code exited)
    (kept : m.scheduler.queue.Kept) : m₁.scheduler.queue.Kept ∧
      ∀ t, (m₁.Knows t → m.Knows t) ∧ ∀ j ∈ code, j.Mentions t → m.Knows t := by
  have hrun : ∀ {k t : TaskId} {j : Instr α}, j ∈ runTask k → j.Mentions t → k = t := by
    intro k t j hj ht
    simp only [runTask, List.mem_cons, List.not_mem_nil, or_false] at hj
    rcases hj with rfl | rfl | rfl <;> exact ht
  cases h with
  | leaves => exact ⟨kept, fun t => ⟨id, fun j hj => absurd hj List.not_mem_nil⟩⟩
  | @task k rest hqueue =>
    have hk : k ∈ m.loop.queue := hqueue ▸ List.mem_cons_self
    refine ⟨kept, fun t => ⟨fun hknows => ?_, fun j hj ht => ?_⟩⟩
    · refine hknows.imp_right (Or.imp_right (Or.imp_left (Or.imp_left fun ht => ?_)))
      exact hqueue ▸ List.mem_cons_of_mem k ht
    · obtain rfl := hrun hj ht
      exact Or.inr (Or.inr (Or.inl (Or.inl hk)))
  | microtasks =>
    refine ⟨kept, fun t => ⟨fun hknows => ?_, fun j hj ht => ?_⟩⟩
    · refine hknows.imp_right (Or.imp_right (Or.imp_left (Or.imp_right (Or.imp_left fun ht => ?_))))
      exact absurd ht List.not_mem_nil
    · obtain ⟨k, hk, hj⟩ := List.mem_flatMap.mp hj
      obtain rfl := hrun hj ht
      exact Or.inr (Or.inr (Or.inl (Or.inr (Or.inl hk))))
  | timers =>
    refine ⟨kept, fun t => ⟨id, List.forall_mem_singleton.mpr fun ht => ?_⟩⟩
    exact absurd ht List.not_mem_nil
  | @due e queue hpop =>
    obtain ⟨-, kept', hperm, -⟩ := kept.popDue_eq_some hpop
    refine ⟨kept', fun t => ⟨fun hknows => ?_, List.forall_mem_singleton.mpr fun ht => ?_⟩⟩
    · refine hknows.imp_right (Or.imp_right (Or.imp_right ?_))
      rintro ⟨x, hx, rfl⟩
      exact ⟨x, hperm.mem_iff.mpr (List.mem_cons_of_mem e hx), rfl⟩
    · exact Or.inr (Or.inr (Or.inr ⟨e, hperm.mem_iff.mpr List.mem_cons_self, ht⟩))

/-! ### Custody -/

/-- **What is known of the tasks that timers have armed**, and of those that do not exist yet. -/
structure Custody (m : Machine α) : Prop where
  absent : ∀ t, m.tasks.length ≤ t → m.Untouched t
  reserved : ∀ (k : Nat) (b : TimerCell α), m.timers[k]? = some b → b.cancelled = false →
    b.Loaded → m.Untouched b.armed
  withdrawn : ∀ (k : Nat) (b : TimerCell α), m.timers[k]? = some b → b.cancelled = true →
    b.Loaded → m.Withdrawn b.armed
  /-- Only the tasks of timers that are cancelled are to be cancelled with them. -/
  aimed : ∀ k, m.Holds (.cancelArmed k) →
    ∃ b, m.timers[k]? = some b ∧ b.cancelled = true
  kept : m.scheduler.queue.Kept

theorem custody_initial (config : LoopConfig) (workers : Nat) :
    (initial config workers : Machine α).Custody where
  absent t _ := by
    refine ⟨?_, fun j ⟨_, hs, _⟩ => absurd hs List.not_mem_nil, rfl⟩
    rintro (ht | ⟨k, c, hc, -⟩ | (ht | ht | ht) | ⟨e, he, -⟩)
    · exact absurd ht List.not_mem_nil
    · cases hc
    · exact absurd ht List.not_mem_nil
    · exact absurd ht List.not_mem_nil
    · exact absurd ht List.not_mem_nil
    · exact absurd he List.not_mem_nil
  reserved _ _ hb := absurd hb (Option.not_mem_none _)
  withdrawn _ _ hb := absurd hb (Option.not_mem_none _)
  aimed _ := fun ⟨_, hs, _⟩ => absurd hs List.not_mem_nil
  kept := DeadlineQueue.drain_kept {}

/-- **Custody is kept when the tasks in question are spared** and no timer fires. -/
theorem Custody.spared (h : m.Custody) (kept : m'.scheduler.queue.Kept)
    (hlength : m.tasks.length ≤ m'.tasks.length)
    (htimers : ∀ (k : Nat) (b : TimerCell α), m'.timers[k]? = some b → m.timers[k]? = some b ∨
      b.cancelled = false ∧ m.tasks.length ≤ b.armed)
    (hold : ∀ (k : Nat) (b : TimerCell α), m.timers[k]? = some b → m'.timers[k]? = some b)
    (habsent : ∀ t, m'.tasks.length ≤ t → m.Spares m' t)
    (hspares : ∀ (k : Nat) (b : TimerCell α), m'.timers[k]? = some b → b.Loaded →
      m.Spares m' b.armed)
    (haimed : ∀ k, m'.Holds (.cancelArmed k) → m.Holds (.cancelArmed k)) : m'.Custody where
  absent t ht := (h.absent t (hlength.trans ht)).spared (habsent t ht)
  reserved k b hb hopen hloaded := by
    rcases htimers k b hb with hold | ⟨-, hnew⟩
    · exact (h.reserved k b hold hopen hloaded).spared (hspares k b hb hloaded)
    · exact (h.absent _ hnew).spared (hspares k b hb hloaded)
  withdrawn k b hb hcancelled hloaded := by
    rcases htimers k b hb with hold | ⟨hopen, -⟩
    · exact (h.withdrawn k b hold hcancelled hloaded).spared (hspares k b hb hloaded)
    · cases hopen.symm.trans hcancelled
  aimed k hk := by
    obtain ⟨b, hb, hcancelled⟩ := h.aimed k (haimed k hk)
    exact ⟨b, hold k b hb, hcancelled⟩
  kept := kept

theorem Custody.found {role : Role} {exited : Bool} (h : m.Custody)
    (hs : m.strands[self]? = some s) (hcode : s.code = []) (hfinds : m.Finds role m₁ code exited)
    (hm' : m' = { m₁ with strands := m.strands.set self { s with code, exited } }) :
    m'.Custody := by
  obtain ⟨-, -, hfrom⟩ := holds_found hs hcode (congrArg strands hm')
  obtain ⟨kept, hsame⟩ := hfinds.spares h.kept
  have htasks : m'.tasks = m.tasks := hm' ▸ hfinds.tasks_eq
  have htimers : m'.timers = m.timers := hm' ▸ hfinds.timers_eq.1
  have hspares : ∀ t, m.Spares m' t := fun t => by
    obtain ⟨hknows, hmentions⟩ := hsame t
    refine ⟨fun h => hknows ?_, fun j hj ht => ?_, state_of_new (htasks ▸ no_new _) t⟩
    · rw [hm'] at h
      exact h
    · exact (hfrom j hj).symm.imp_right fun hj => hmentions j hj ht
  refine h.spared (hm' ▸ kept) (congrArg List.length htasks).ge
    (fun k b hb => Or.inl (htimers ▸ hb)) (fun k b hb => htimers ▸ hb) (fun t _ => hspares t)
    (fun k b _ _ => hspares _) fun k hk => ?_
  have hcode : ∀ j ∈ code, j ≠ .cancelArmed k :=
    hfinds.forall_code (fun _ => nofun) (fun _ => nofun) (fun _ => nofun) (fun _ _ => nofun)
      fun _ _ => nofun
  exact (hfrom _ hk).resolve_left fun hj => hcode _ hj rfl

section Steps

variable (harmed : ∀ (k : Nat) (b : TimerCell α), m.timers[k]? = some b →
    b.armed < m.tasks.length)
  (hapart : ∀ (j k : Nat) (b c : TimerCell α), m.timers[j]? = some b → m.timers[k]? = some c →
    b.armed = c.armed → j = k)
include harmed hapart

theorem Custody.carried (h : m.Custody) (hs : m.strands[self]? = some s)
    (hcode : s.code = i :: rest) (hexec : m.exec heedStop self i = some (m₁, code))
    (hadded : ∀ a ∈ added, a.IsSetup)
    (hm' : m' = { m₁ with
      strands := m.strands.set self { s with code := code ++ rest, answer } ++ added }) :
    m'.Custody := by
  obtain ⟨hi, -, -, hfrom⟩ := holds_carried hs hcode hadded (congrArg strands hm')
  have hrule := exec_ruled hexec
  have htimers : TimerEffect m.tasks.length m.timers i code m'.timers := hm' ▸ hrule.timers
  have hlength : m.tasks.length ≤ m'.tasks.length :=
    hm' ▸ (exec_executes heedStop i m₁ code hexec).tasks.length
  -- tasks that are new are those of no timer
  have habsent : ∀ t, m.tasks.length ≤ t → m'.Untouched t := fun t ht =>
    (h.absent t ht).carried hs hcode hexec hadded hm' fun k b hb _ =>
      ((harmed k b hb).trans_le ht).ne
  refine
    { absent := fun t ht => habsent t (hlength.trans ht)
      reserved := fun k b' hb' hopen hloaded => ?reserved
      withdrawn := fun k b' hb' hcancelled hloaded => ?withdrawn
      aimed := fun k hk => ?aimed
      kept := hm' ▸ hrule.schedules.queue_kept h.kept }
  case reserved =>
    obtain ⟨b, hb, rfl | ⟨-, rfl, -⟩ | ⟨now, todo, due, -, rfl, -⟩⟩ := htimers.cell hb'
    · refine (h.reserved k b' hb hopen hloaded).carried hs hcode hexec hadded hm'
        fun n c hc htaken harmed' => ?_
      obtain rfl := hapart n k c b' hc hb harmed'
      obtain rfl := Option.some.inj (hb.symm.trans hc)
      cases htaken with
      | fires hdue => exact absurd hdue (Nat.not_le.mpr (htimers.not_due hb hb'))
      | cancels =>
        obtain ⟨d, hd, hcancelled⟩ := h.aimed n hi
        obtain rfl := Option.some.inj (hb.symm.trans hd)
        cases hopen.symm.trans hcancelled
    · cases hopen
    · obtain ⟨hnew, -⟩ := (b.fire_armed_cases now m.tasks.length).resolve_left fun hkept =>
        hkept.2 hloaded
      exact habsent _ hnew.ge
  case withdrawn =>
    obtain ⟨b, hb, rfl | ⟨hopen, rfl, rfl, -⟩ | ⟨now, todo, due, -, rfl, -⟩⟩ := htimers.cell hb'
    · refine (h.withdrawn k b' hb hcancelled hloaded).carried hs hcode hexec hadded hm'
        fun n c hc htaken harmed' => ?_
      obtain rfl := hapart n k c b' hc hb harmed'
      obtain rfl := Option.some.inj (hb.symm.trans hc)
      cases htaken with
      | fires hdue => exact absurd hdue (Nat.not_le.mpr (htimers.not_due hb hb'))
      | cancels => rfl
    · exact (h.reserved k b hb hopen hloaded).withdrawn.carried hs hcode hexec hadded hm'
        fun n c hc htaken => nomatch htaken
    · obtain ⟨hnew, -⟩ := (b.fire_armed_cases now m.tasks.length).resolve_left fun hkept =>
        hkept.2 hloaded
      exact (habsent _ hnew.ge).withdrawn
  case aimed =>
    rcases hfrom _ hk with hj | hj | ⟨p, setup, heq⟩
    · obtain rfl := hrule.of_cancelArmed hj
      cases hrule with
      | @cancelTimer _ b hc =>
        have hb := (congrArg (fun m => m.timers[k]?) hm').trans
          (List.getElem?_set_self (List.getElem?_eq_some_iff.mp hc).1)
        exact ⟨{ b with cancelled := true }, hb, rfl⟩
      | cancelTimerLate => exact absurd hj List.not_mem_nil
    · obtain ⟨b, hb, hcancelled⟩ := h.aimed k hj
      exact htimers.cancelled_before hb hcancelled
    · cases heq

theorem Custody.step (h : m.Custody) (hstep : m.step heedStop self = some m') : m'.Custody := by
  cases step_turn hstep with
  | carried hs _ hcode hexec hadded hm' =>
    exact h.carried harmed hapart hs hcode hexec hadded hm'
  | found hs _ _ hcode hfinds hm' => exact h.found hs hcode hfinds hm'

end Steps

/-! ### Callers -/

/-- The scheduler's queue stays in order when callers do something. -/
theorem Move.queue_kept (h : m.Move m') (kept : m.scheduler.queue.Kept) :
    m'.scheduler.queue.Kept := by
  cases h with
  | addTimer delay repeating body =>
    unfold Machine.addTimer
    dsimp only
    by_cases hphase : (m.newTask body).2.loop.phase = .stopped
    · rw [if_pos hphase]
      exact kept
    · rw [if_neg hphase]
      exact kept
  | startLoop => exact m.startLoop_eq.1 ▸ kept
  | startScheduler =>
    obtain ⟨phase, hscheduler⟩ := m.startScheduler_eq.1
    rw [hscheduler]
    exact kept
  | @schedule m' t priority deadline h =>
    unfold Machine.schedule Scheduler.submit at h
    split_ifs at h
    · cases h
    · obtain rfl := Except.ok.inj h
      exact (kept.push t priority deadline).1
  | resolve t result h =>
    obtain ⟨promises, rfl⟩ := resolve?_eq h
    exact kept
  | release =>
    obtain ⟨gate, hgate⟩ := m.release_eq
    rw [hgate]
    exact kept
  | _ => exact kept

/-- What a caller does to cancel a task does not depend on timers. -/
theorem Around.not_cancelArmed (h : m.Around m') (hk : m'.Holds (.cancelArmed k)) :
    m.Holds (.cancelArmed k) :=
  (h.of_holds hk).resolve_right fun hcall => hcall.1

theorem Custody.move (h : m.Custody) (hmove : m.Move m') (htimers : m'.timers = m.timers)
    (hdiscreet : m.Discreet m') : m'.Custody := by
  have haround := hmove.around
  have hspares : ∀ t, m.Reserved t ∨ m'.tasks.length ≤ t → m.Spares m' t := fun t ht =>
    ⟨(hdiscreet t ht).1, fun j hj hmentions => Or.inl ((hdiscreet t ht).2 j hj hmentions),
      state_of_new haround.tasks t⟩
  refine h.spared (hmove.queue_kept h.kept) haround.length_le
    (fun k b hb => Or.inl (htimers ▸ hb)) (fun k b hb => htimers ▸ hb)
    (fun t ht => hspares t (Or.inr ht)) (fun k b hb hloaded => ?_) fun k => haround.not_cancelArmed
  exact hspares _ (Or.inl ⟨k, b, htimers ▸ hb, hloaded, rfl⟩)

/-- Adding a timer names no task. -/
theorem spares_addTimer {delay : Nat} {repeating : Bool} {body : Body α}
    (hbody : (TaskCell.ofBody body).parent = none) (t : TaskId) :
    m.Spares (m.addTimer delay repeating body).2 t := by
  have haround : m.Around (m.addTimer delay repeating body).2 := around_addTimer hbody
  have htasks := haround.tasks
  unfold Machine.addTimer at htasks ⊢
  dsimp only at htasks ⊢
  by_cases hphase : (m.newTask body).2.loop.phase = .stopped
  · rw [if_pos hphase] at htasks ⊢
    refine ⟨knows_of_new htasks rfl rfl rfl rfl rfl, ?_, state_of_new htasks t⟩
    rintro j ⟨s, hs, hj⟩ hmentions
    rcases List.mem_append.mp hs with hs | hs
    · exact Or.inl ⟨s, hs, hj⟩
    · rw [List.mem_singleton.mp hs] at hj
      rw [List.mem_singleton.mp hj] at hmentions
      exact hmentions.elim
  · rw [if_neg hphase] at htasks ⊢
    exact ⟨knows_of_new htasks rfl rfl rfl rfl rfl, fun j hj _ => Or.inl hj,
      state_of_new htasks t⟩

theorem Custody.addTimer (h : m.Custody) {delay : Nat} {repeating : Bool} {body : Body α}
    (hbody : (TaskCell.ofBody body).parent = none) :
    (m.addTimer delay repeating body).2.Custody := by
  have haround : m.Around (m.addTimer delay repeating body).2 := around_addTimer hbody
  refine h.spared (Move.queue_kept (.addTimer delay repeating body hbody) h.kept)
    haround.length_le (fun k b hb => ?_) (fun k b hb => ?_) (fun t _ => spares_addTimer hbody t)
    (fun k b _ _ => spares_addTimer hbody _) fun k => haround.not_cancelArmed
  · rcases cell_addTimer hb with hb | ⟨-, rfl⟩
    · exact Or.inl hb
    · exact Or.inr ⟨rfl, Nat.le_refl _⟩
  · rw [(m.addTimer_frame delay repeating body).1,
      List.getElem?_append_left (List.getElem?_eq_some_iff.mp hb).1]
    exact hb

end Machine

theorem Timetable.Runs.custody {config : LoopConfig} {workers : Nat} {d : Timetable α}
    (h : (Timetable.start config workers).Runs d) : d.machine.Custody := by
  induction h with
  | refl => exact Machine.custody_initial config workers
  | @step d e hruns hstep ih =>
    cases hstep with
    | turn heedStop self hturn =>
      exact ih.step hruns.distinct.armed hruns.distinct.apart (Chronicle.turn_step hturn)
    | add delay repeating body hbody => exact ih.addTimer hbody
    | move hmove htimers hdiscreet => exact ih.move hmove htimers hdiscreet

namespace Chronicle

open Machine

variable {c d : Chronicle α} {self k : Nat} {heedStop : Bool} {b : TimerCell α} {s : Strand α}
  {config : LoopConfig} {workers : Nat}

/-- **What becomes of the task that a cancelled timer has armed**: it has settled, somebody is just
about to cancel it or to take it up, or it is forgotten. -/
inductive Revokes (c : Chronicle α) (k : Nat) (b : TimerCell α) : Prop where
  | settled (h : (c.machine.state b.armed).isTerminal = true)
  | cancelling (h : c.machine.Cancelling b.armed)
  | canceller {n : Nat} (h : c.machine.CancelsArmedAt n k)
  | forgotten (h : c.overtaken k = true)

/-- Every step keeps that, if it does with whoever is to take up the task. -/
theorem Revokes.turn (h : c.Revokes k b) (g : c.machine.Governed)
    (hturn : c.turn heedStop self = some d)
    (hcanceller : ∀ n, c.machine.CancelsArmedAt n k → d.Revokes k b) : d.Revokes k b := by
  cases h with
  | settled h => exact .settled ((g.advances_step (turn_step hturn)).final _ h ▸ h)
  | cancelling h =>
    obtain ⟨n, hn⟩ := h
    exact (cancelsAt_turn hturn hn).elim .settled fun hn => .cancelling ⟨n, hn⟩
  | canceller h => exact hcanceller _ h
  | forgotten h => exact .forgotten (overtaken_turn hturn h)

theorem Revokes.carried {i : Instr α} {rest code : List (Instr α)} {m₁ : Machine α}
    {answer : Option (TaskResult Unit)} {added : List (Strand α)} (h : c.Revokes k b)
    (g : c.machine.Governed) (hturn : c.turn heedStop self = some d)
    (hs : c.machine.strands[self]? = some s) (hexited : s.exited = false)
    (hcode : s.code = i :: rest) (hexec : c.machine.exec heedStop self i = some (m₁, code))
    (hd : d.machine = { m₁ with
      strands := c.machine.strands.set self { s with code := code ++ rest, answer } ++ added })
    (hb : c.machine.timers[k]? = some b) : d.Revokes k b := by
  refine h.turn g hturn fun n hn => ?_
  have hstrands := congrArg strands hd
  rcases hn.carried hs hcode hstrands with hn | ⟨rfl, rfl⟩
  · exact .canceller hn
  · -- the task is cancelled now
    cases exec_ruled hexec with
    | cancelArmed hc =>
      obtain rfl := Option.some.inj (hb.symm.trans hc)
      exact .cancelling ⟨n, _, _, _, strand_self hs hstrands, hexited, rfl, rfl⟩
    | cancelArmedNone hnone => cases hnone.symm.trans hb

theorem Revokes.around {m : Machine α} (h : c.Revokes k b) (haround : c.machine.Around m) :
    Revokes { c with machine := m } k b := by
  cases h with
  | settled h => exact .settled (haround.advances.final _ h ▸ h)
  | cancelling h =>
    obtain ⟨n, hn⟩ := h
    exact .cancelling ⟨n, hn.around haround⟩
  | canceller h => exact .canceller (h.around haround)
  | forgotten h => exact .forgotten h

/-- **A task that a cancelled timer has armed** has settled, or somebody is just about to cancel it,
unless the timer was armed with it when it fired after its cancellation was over. -/
theorem Reaches.revokes (h : (start config workers).Reaches c)
    (hb : c.machine.timers[k]? = some b) (hcancelled : b.cancelled = true) : c.Revokes k b := by
  induction h generalizing b with
  | refl => exact absurd hb (Option.not_mem_none _)
  | @turn c d hreach heedStop self hturn ih =>
    have g := hreach.governed
    cases turn_turn hturn with
    | @carried s i rest code m₁ answer added hs hexited hcode hexec hadded hd hevents =>
      have hstrands := congrArg strands hd
      have htimers : TimerEffect c.machine.tasks.length c.machine.timers i code d.machine.timers :=
        hd ▸ (exec_ruled hexec).timers
      obtain ⟨b₀, hb₀, hcell⟩ := htimers.cell hb
      have hold : b₀.cancelled = true → d.Revokes k b₀ := fun hcancelled₀ =>
        (ih hb₀ hcancelled₀).carried g hturn hs hexited hcode hexec hd hb₀
      rcases hcell with rfl | ⟨-, rfl, rfl, rfl⟩ | ⟨now, todo, due, hdue, rfl, rfl, rfl⟩
      · exact hold hcancelled
      · exact .canceller ⟨_, _, strand_self hs hstrands, hexited, rfl⟩
      · rw [TimerCell.fire_cancelled] at hcancelled
        cases hrepeating : b₀.repeating with
        | none =>
          -- it keeps its task
          have harmed : (b₀.fire now c.machine.tasks.length).armed = b₀.armed :=
            TimerCell.fire_armed_once hrepeating
          cases hold hcancelled with
          | settled h => exact .settled (harmed ▸ h)
          | cancelling h => exact .cancelling (harmed ▸ h)
          | canceller h => exact .canceller h
          | forgotten h => exact .forgotten h
        | some every =>
          have hrepeats : b₀.repeating.isSome = true := hrepeating ▸ rfl
          exact (canceller_or_overtaken hs hcode hstrands hevents hb₀ hcancelled hrepeats hdue).elim
            (fun ⟨_, hn⟩ => .canceller hn) .forgotten
    | @found s role code m₁ exited hs hrole hexited hcode hfinds hd hevents =>
      have htimers : d.machine.timers = c.machine.timers := hd ▸ hfinds.timers_eq.1
      rw [htimers] at hb
      exact (ih hb hcancelled).turn g hturn fun n hn =>
        .canceller (hn.found hs hcode (congrArg strands hd))
  | @move c hreach m hmove ih =>
    have haround := hmove.around
    have hb₀ : c.machine.timers[k]? = some b := by
      obtain ⟨new, htimers⟩ := haround.timers
      rcases Nat.lt_or_ge k c.machine.timers.length with hk | hk
      · have hb' : m.timers[k]? = some b := hb
        rwa [htimers, List.getElem?_append_left hk] at hb'
      · -- a timer that is new is not cancelled
        obtain ⟨-, -, hopen, -⟩ := haround.newTimers k b hk hb
        cases hopen.symm.trans hcancelled
    exact (ih hb₀ hcancelled).around haround

end Chronicle

end ManagedHost
