import ManagedHost.Proofs.Loop.Runs

/-!
# No task is forgotten

A task that somebody has begun to run or to settle does not get lost on the way.  While it is
pending it is in the loop's queue, among its microtasks, or before a strand that will start it,
settle it or hand it on (`Machine.Attends`); that is kept by every step (`Attends.step`).  While it
is running, some strand is at its body.

From this follows, for every run, who looks after the tasks that are not settled
(`Machine.Attended`): the continuations of other tasks, and the tasks that timers have armed.
-/

namespace ManagedHost

variable {α : Type}

namespace Instr

/-- Whether the instruction is part of a run of the task's body, up to the settlement at its end. -/
def Bears (t : TaskId) : Instr α → Prop
  | enter k | perform k _ _ | andThen k _ _ _ | orElse k _ _ _ | awaitPromise k _
  | awaitAll k _ _ _ | awaitAny k _ => k = t
  | settle k old _ mode => k = t ∧ old = .running ∧ mode = .run
  | _ => False

/-- Whether the instruction starts or settles the task if it is pending, or hands it on to one that
does. -/
def Carries (t : TaskId) : Instr α → Prop
  | start k | cancel k | fail k _ | cancelLeft k | microtask k false => k = t
  | submit k who | enqueue k who => k = t ∧ who ≠ .caller
  | settle k old _ mode => k = t ∧ (mode = .cancel ∨ old = .pending)
  | dispatch _ children => t ∈ children
  | scanTimers _ _ due | pollTimer _ _ _ due => t ∈ due
  | _ => False

end Instr

/-! ### Effects of single instructions -/

section Effects

variable {t : TaskId} {i : Instr α} {c c' : TaskCell α} {code : List (Instr α)} {l l' : EventLoop}

theorem TaskEffect.pending_of_pending (h : TaskEffect t c i c' code)
    (hpending : c'.state = .pending) : c.state = .pending := by
  cases h with
  | started => cases hpending
  | settled =>
    have hterminal := TaskResult.isTerminal_state (α := α) ‹_›
    rw [show TaskResult.state _ = .pending from hpending] at hterminal
    cases hterminal
  | idle _ hsame => exact hsame.state ▸ hpending
  | _ => exact hpending

theorem TaskEffect.running_of_running (h : TaskEffect t c i c' code)
    (hrunning : c'.state = .running) : c.state = .running ∨ i = .start t ∧ code = [.enter t] := by
  cases h with
  | started => exact Or.inr ⟨rfl, rfl⟩
  | settled =>
    have hterminal := TaskResult.isTerminal_state (α := α) ‹_›
    rw [show TaskResult.state _ = .running from hrunning] at hterminal
    cases hterminal
  | idle _ hsame => exact Or.inl (hsame.state ▸ hrunning)
  | _ => exact Or.inl hrunning

/-- A continuation stays on the list until the list is dispatched. -/
theorem TaskEffect.mem_continuations {k : TaskId} (h : TaskEffect t c i c' code)
    (hk : k ∈ c.continuations) : k ∈ c'.continuations ∨ .dispatch t c.continuations ∈ code := by
  cases h with
  | released => exact Or.inr (List.mem_singleton_self _)
  | registered => exact Or.inl (List.mem_append_left _ hk)
  | idle _ hsame => exact Or.inl (hsame.continuations ▸ hk)
  | _ => exact Or.inl hk

theorem LoopEffect.mem_queue (h : LoopEffect l i code l') (ht : t ∈ l.queue) :
    t ∈ l'.queue ∨ .cancelLeft t ∈ code := by
  cases h with
  | queued => exact Or.inl (List.mem_append_left _ ht)
  | swept =>
    refine Or.inr (List.mem_append_right _ (List.mem_map.mpr ⟨t, ?_, rfl⟩))
    exact List.mem_append_left _ (List.mem_append_left _ ht)
  | _ => exact Or.inl ht

theorem LoopEffect.mem_microtasks (h : LoopEffect l i code l') (ht : t ∈ l.microtasks) :
    t ∈ l'.microtasks ∨ .cancelLeft t ∈ code := by
  cases h with
  | pushed => exact Or.inl (List.mem_append_left _ ht)
  | swept =>
    refine Or.inr (List.mem_append_right _ (List.mem_map.mpr ⟨t, ?_, rfl⟩))
    exact List.mem_append_left _ (List.mem_append_right _ ht)
  | _ => exact Or.inl ht

end Effects

namespace Machine

variable {m m' : Machine α} {t : TaskId} {self : Nat} {heedStop : Bool} {i j : Instr α}
  {code : List (Instr α)} {c c' : TaskCell α}

/-! ### Bodies that are run -/

/-- **A body is worked through to the settlement at its end.** -/
theorem exec_bears (hi : i.Bears t) (hgrounded : i.Grounded m.tasks.length)
    (h : m.exec heedStop self i = some (m', code)) :
    (∃ j ∈ code, j.Bears t) ∨ ∃ r, i = .settle t .running r .run := by
  cases exec_ruled h with
  | enterNone hnone =>
    exact absurd hgrounded (Nat.not_lt.mpr (List.getElem?_eq_none_iff.mp hnone))
  -- the body ends
  | enterMissing | scriptEnd | handleMissing | andThen | andThenError | orElse | orElseValue
  | promiseMessage | promiseToken | promiseClosed | allDone | allError | raceWon | raceToken
  | raceEmpty => exact Or.inl ⟨_, List.mem_singleton_self _, hi, rfl, rfl⟩
  -- it goes on, perhaps after something else
  | enterScript | enterAndThen | enterOrElse | enterPromise | enterAll | enterRace | note
  | noteToken | noteState | signalSelf | waitToken | allNext =>
    exact Or.inl ⟨_, List.mem_singleton_self _, hi⟩
  | cancelHandle | runHandle | gate | stopFromWithin =>
    exact Or.inl ⟨_, List.mem_cons_of_mem _ (List.mem_singleton_self _), hi⟩
  | @settle k old result mode | @settleLate k old result mode =>
    obtain ⟨rfl, rfl, rfl⟩ := hi
    exact Or.inr ⟨result, rfl⟩
  | _ => exact hi.elim

/-! ### Tasks that are handed on -/

theorem isTerminal_pending (hc : m.tasks[t]? = some c) (hpending : c.state = .pending) :
    (m.state t).isTerminal = false := by
  rw [(cell_eq hc).1, hpending]
  rfl

/-- **A pending task is passed on** until it is started or settled. -/
theorem exec_carries (hc : m.tasks[t]? = some c) (hpending : c.state = .pending)
    (hi : i.Carries t) (hgrounded : i.Grounded m.tasks.length)
    (h : m.exec heedStop self i = some (m', code)) (hc' : m'.tasks[t]? = some c')
    (hpending' : c'.state = .pending) :
    t ∈ m'.loop.queue ∨ t ∈ m'.loop.microtasks ∨ ∃ j ∈ code, j.Carries t := by
  have hopen := isTerminal_pending hc hpending
  cases exec_ruled h with
  -- what starts or settles the task does not leave it pending
  | start hd =>
    obtain rfl := hi
    obtain rfl := Option.some.inj ((getElem?_modify_self hd _).symm.trans hc')
    cases hpending'
  | @settle k old result mode d hd hold =>
    obtain ⟨rfl, -⟩ := hi
    obtain rfl := Option.some.inj ((getElem?_modify_self hd _).symm.trans hc')
    have hterminal := TaskResult.isTerminal_state result
    rw [show result.state = .pending from hpending'] at hterminal
    cases hterminal
  -- what comes too late found a task that was not pending
  | startLate hlate =>
    obtain rfl := hi
    exact absurd hpending (hlate c hc)
  | cancelLate hterminal | cancelLeftLate hterminal =>
    obtain rfl := hi
    cases hopen.symm.trans hterminal
  | @settleLate k old result mode hlate =>
    obtain ⟨rfl, hmode⟩ := hi
    have hold : old ≠ .pending := fun hold => hlate c hc (hpending.trans hold.symm)
    obtain rfl := hmode.resolve_right hold
    exact Or.inr (Or.inr ⟨.cancel k, List.mem_singleton_self _, rfl⟩)
  | cancel => exact Or.inr (Or.inr ⟨_, List.mem_singleton_self _, hi, Or.inl rfl⟩)
  | fail => exact Or.inr (Or.inr ⟨_, List.mem_singleton_self _, hi, Or.inr rfl⟩)
  | @cancelLeft k => exact Or.inr (Or.inr ⟨.cancel k, List.mem_cons_self, hi⟩)
  -- submissions
  | submit => exact Or.inr (Or.inr ⟨_, List.mem_singleton_self _, hi⟩)
  | @submitRefused k who | @enqueueRefused k who =>
    cases who with
    | caller => exact absurd rfl hi.2
    | timer => exact Or.inr (Or.inr ⟨_, List.mem_singleton_self _, hi.1⟩)
    | dispatcher => exact Or.inr (Or.inr ⟨_, List.mem_singleton_self _, hi.1⟩)
  | @enqueue k who =>
    obtain ⟨rfl, -⟩ := hi
    refine Or.inl ?_
    cases who <;> exact List.mem_append_right _ (List.mem_singleton_self _)
  | @microtask k caller =>
    cases caller with
    | true => exact hi.elim
    | false =>
      obtain rfl : k = t := hi
      exact Or.inr (Or.inl (List.mem_append_right _ (List.mem_singleton_self _)))
  | @microtaskRefused k caller =>
    cases caller with
    | true => exact hi.elim
    | false => exact Or.inr (Or.inr ⟨_, List.mem_singleton_self _, hi⟩)
  -- continuations
  | dispatchNone hnone =>
    exact absurd hgrounded (Nat.not_lt.mpr (List.getElem?_eq_none_iff.mp hnone))
  | @dispatch k children d =>
    refine Or.inr (Or.inr ⟨_, List.mem_map.mpr ⟨t, hi, rfl⟩, ?_⟩)
    cases d.bound <;> rfl
  -- tasks that timers have handed out
  | scanDone => exact Or.inr (Or.inr ⟨_, List.mem_map_of_mem hi, rfl, nofun⟩)
  | scanDrop | scanFind | pollEarly => exact Or.inr (Or.inr ⟨_, List.mem_singleton_self _, hi⟩)
  | fireOnce | fireAgain =>
    exact Or.inr (Or.inr ⟨_, List.mem_singleton_self _, List.mem_append_left _ hi⟩)
  | _ => exact hi.elim

/-- **Whether somebody will start the pending task, settle it or hand it on.** -/
def Attends (m : Machine α) (t : TaskId) : Prop :=
  t ∈ m.loop.queue ∨ t ∈ m.loop.microtasks ∨ ∃ j, m.Holds j ∧ j.Carries t

theorem Attends.of_holds (hj : m.Holds j) (hcarries : j.Carries t) : m.Attends t :=
  Or.inr (Or.inr ⟨j, hj, hcarries⟩)

theorem holds_of_found_task {role : Role} {exited : Bool} {m₁ : Machine α}
    (h : m.Finds role m₁ code exited) :
    (t ∈ m.loop.queue → t ∈ m₁.loop.queue ∨ .start t ∈ code) ∧
      (t ∈ m.loop.microtasks → t ∈ m₁.loop.microtasks ∨ .start t ∈ code) := by
  cases h with
  | task hqueue =>
    refine ⟨fun ht => ?_, Or.inl⟩
    rw [hqueue] at ht
    rcases List.mem_cons.mp ht with rfl | ht
    · exact Or.inr List.mem_cons_self
    · exact Or.inl ht
  | microtasks =>
    refine ⟨Or.inl, fun ht => Or.inr ?_⟩
    exact List.mem_flatMap.mpr ⟨t, ht, List.mem_cons_self⟩
  | leaves | timers | due => exact ⟨Or.inl, Or.inl⟩

theorem Attends.step (h : m.Attends t) (hgrounded : ∀ j, m.Holds j → j.Grounded m.tasks.length)
    (hstep : m.step heedStop self = some m') (hc : m.tasks[t]? = some c)
    (hpending : c.state = .pending) (hc' : m'.tasks[t]? = some c')
    (hpending' : c'.state = .pending) : m'.Attends t := by
  cases step_turn hstep with
  | carried hs _ hcode hexec hadded hm' =>
    obtain ⟨hi, hkeeps, hgains, -⟩ := holds_carried hs hcode hadded (congrArg strands hm')
    have hloop := (exec_executes heedStop _ _ _ hexec).loop
    have hloop' : m'.loop = _ := congrArg loop hm'
    rw [← hloop'] at hloop
    rcases h with ht | ht | ⟨j, hj, hcarries⟩
    · exact (hloop.mem_queue ht).imp_right fun hj => Or.inr ⟨.cancelLeft t, hgains _ hj, rfl⟩
    · refine (hloop.mem_microtasks ht).elim (fun ht => Or.inr (Or.inl ht)) fun hj => ?_
      exact .of_holds (hgains _ hj) rfl
    · rcases hkeeps j hj with rfl | hj'
      · have htasks : m'.tasks = _ := congrArg tasks hm'
        rw [htasks] at hc'
        rcases exec_carries hc hpending hcarries (hgrounded j hi) hexec hc' hpending' with
          ht | ht | ⟨k, hk, hcarries'⟩
        · exact Or.inl (hloop' ▸ ht)
        · exact Or.inr (Or.inl (hloop' ▸ ht))
        · exact .of_holds (hgains k hk) hcarries'
      · exact .of_holds hj' hcarries
  | found hs _ _ hcode hfinds hm' =>
    obtain ⟨hkeeps, hgains, -⟩ := holds_found hs hcode (congrArg strands hm')
    have hloop' : m'.loop = _ := congrArg loop hm'
    obtain ⟨hqueue, hmicrotasks⟩ := holds_of_found_task (t := t) hfinds
    rcases h with ht | ht | ⟨j, hj, hcarries⟩
    · refine (hqueue ht).imp (fun ht => hloop' ▸ ht) fun hj => ?_
      exact Or.inr ⟨.start t, hgains _ hj, rfl⟩
    · refine (hmicrotasks ht).elim (fun ht => Or.inr (Or.inl (hloop' ▸ ht))) fun hj => ?_
      exact .of_holds (hgains _ hj) rfl
    · exact .of_holds (hkeeps j hj) hcarries

theorem Attends.around (h : m.Attends t) (hm' : m.Around m') : m'.Attends t := by
  rcases h with ht | ht | ⟨j, hj, hcarries⟩
  · exact Or.inl (hm'.loop.queue ▸ ht)
  · exact Or.inr (Or.inl (hm'.loop.microtasks ▸ ht))
  · exact .of_holds (hm'.holds hj) hcarries

/-! ### Who looks after the tasks that are not settled -/

/-- **Who looks after the tasks that are not settled.** -/
structure Attended (m : Machine α) : Prop where
  /-- A task that is running has a strand at its body. -/
  bodies : ∀ t c, m.tasks[t]? = some c → c.state = .running → ∃ j, m.Holds j ∧ j.Bears t
  /-- A continuation that is pending waits for its parent, unless it is attended to. -/
  children : ∀ t c p, m.tasks[t]? = some c → c.parent = some p → p < t ∧
    (c.state = .pending → m.Attends t ∨
      (∃ d, m.tasks[p]? = some d ∧ t ∈ d.continuations) ∨ m.Holds (.register p t))
  /-- The tasks that timers have armed are there, and those that they will arm continue no other. -/
  timers : ∀ (n : Nat) (c : TimerCell α), m.timers[n]? = some c →
    c.armed < m.tasks.length ∧ c.MakesRoots

theorem attended_initial (config : LoopConfig) (workers : Nat) :
    (initial config workers : Machine α).Attended where
  bodies := fun _ _ hc => absurd hc (Option.not_mem_none _)
  children := fun _ _ _ hc => absurd hc (Option.not_mem_none _)
  timers := fun _ _ hc => absurd hc (Option.not_mem_none _)

/-- An instruction changes the cell of a task that is there, as `TaskEffect` says.  Any other task
is one that a repeating timer has armed. -/
theorem exec_cell (hexec : m.exec heedStop self i = some (m', code))
    (hc' : m'.tasks[t]? = some c') :
    (∃ c, m.tasks[t]? = some c ∧ TaskEffect t c i c' code ∧ c'.parent = c.parent) ∨
      m.tasks.length ≤ t ∧ m.Rearms i c' := by
  have hretains := (exec_executes heedStop i m' code hexec).tasks
  rcases Nat.lt_or_ge t m.tasks.length with hlt | hge
  · have hc := List.getElem?_eq_getElem hlt
    obtain ⟨⟨d, hd, heffect⟩, -⟩ := exec_affects heedStop self hc i m' code hexec
    obtain rfl := Option.some.inj (hd.symm.trans hc')
    exact Or.inl ⟨_, hc, heffect, (hretains.cell t _ d hc hc').parent⟩
  · exact Or.inr ⟨hge, hretains.new t c' hge hc'⟩

/-- What becomes of a task in a step. -/
theorem step_cell (hstep : m.step heedStop self = some m') {c : TaskCell α}
    (hc : m.tasks[t]? = some c) :
    ∃ c', m'.tasks[t]? = some c' ∧ (c' = c ∨ ∃ i code, TaskEffect t c i c' code) := by
  cases step_turn hstep with
  | @carried s i rest code m₁ answer added hs _ hcode hexec hadded hm' =>
    obtain ⟨⟨c', hc', heffect⟩, -⟩ := exec_affects heedStop self hc i m₁ code hexec
    exact ⟨c', hm' ▸ hc', Or.inr ⟨i, code, heffect⟩⟩
  | found hs _ _ hcode hfinds hm' =>
    exact ⟨c, (congrArg (·.tasks[t]?) hm').trans (hfinds.getElem?_tasks hc), Or.inl rfl⟩

/-- A step does not make a task pending. -/
theorem step_pending (hstep : m.step heedStop self = some m') (ht : t < m.tasks.length) :
    ∃ c c', m.tasks[t]? = some c ∧ m'.tasks[t]? = some c' ∧
      (c'.state = .pending → c.state = .pending) := by
  have hc := List.getElem?_eq_getElem ht
  obtain ⟨c', hc', rfl | ⟨i, code, heffect⟩⟩ := step_cell hstep hc
  · exact ⟨_, _, hc, hc', id⟩
  · exact ⟨_, c', hc, hc', heffect.pending_of_pending⟩

section Step

variable (g : m.Governed) (a : m.Attended) (hstep : m.step heedStop self = some m')
include g a hstep

theorem Attended.bodies_step :
    ∀ t c, m'.tasks[t]? = some c → c.state = .running → ∃ j, m'.Holds j ∧ j.Bears t := by
  intro t c' hc' hrunning'
  cases step_turn hstep with
  | @carried s i rest code m₁ answer added hs _ hcode hexec hadded hm' =>
    obtain ⟨hi, hkeeps, hgains, -⟩ := holds_carried hs hcode hadded (congrArg strands hm')
    have htasks : m'.tasks = m₁.tasks := by rw [hm']
    rw [htasks] at hc'
    rcases exec_cell hexec hc' with ⟨c, hc, heffect, -⟩ | ⟨-, _, _, _, _, _, _, body, -, -, -, rfl⟩
    swap
    · cases hrunning'
    rcases heffect.running_of_running hrunning' with hrunning | ⟨-, rfl⟩
    · obtain ⟨j, hj, hbears⟩ := a.bodies t c hc hrunning
      rcases hkeeps j hj with rfl | hj'
      · rcases exec_bears hbears (g.grounded j hi) hexec with ⟨k, hk, hbears'⟩ | ⟨r, rfl⟩
        · exact ⟨k, hgains k hk, hbears'⟩
        · -- the settlement at the end of a body finds the task running
          cases heffect with
          | settled =>
            have hterminal := TaskResult.isTerminal_state r
            rw [show r.state = .running from hrunning'] at hterminal
            cases hterminal
          | idle hidle => exact absurd hrunning (hidle rfl)
      · exact ⟨j, hj', hbears⟩
    · exact ⟨.enter t, hgains _ (List.mem_singleton_self _), rfl⟩
  | @found s role code m₁ exited hs _ _ hcode hfinds hm' =>
    obtain ⟨hkeeps, -⟩ := holds_found hs hcode (congrArg strands hm')
    have htasks : m'.tasks = m.tasks := (congrArg tasks hm').trans hfinds.tasks_eq
    rw [htasks] at hc'
    obtain ⟨j, hj, hbears⟩ := a.bodies t c' hc' hrunning'
    exact ⟨j, hkeeps j hj, hbears⟩

theorem Attended.children_step : ∀ t c p, m'.tasks[t]? = some c → c.parent = some p → p < t ∧
    (c.state = .pending → m'.Attends t ∨
      (∃ d, m'.tasks[p]? = some d ∧ t ∈ d.continuations) ∨ m'.Holds (.register p t)) := by
  intro t c' p hc' hp
  have hattends : ∀ c, m.tasks[t]? = some c → c.state = .pending → c'.state = .pending →
      m.Attends t → m'.Attends t := fun c hc hpending hpending' h =>
    h.step g.grounded hstep hc hpending hc' hpending'
  cases step_turn hstep with
  | @carried s i rest code m₁ answer added hs _ hcode hexec hadded hm' =>
    obtain ⟨hi, hkeeps, hgains, -⟩ := holds_carried hs hcode hadded (congrArg strands hm')
    have htasks : m'.tasks = m₁.tasks := by rw [hm']
    rw [htasks] at hc' ⊢
    rcases exec_cell hexec hc' with ⟨c, hc, heffect, hparent⟩ |
      ⟨-, _, n, _, _, b, _, _, -, hb, hbody, rfl⟩
    swap
    · -- a task that a timer has armed continues no other
      cases ((a.timers n b hb).2 _ _ hbody).symm.trans hp
    obtain ⟨hlt, hwaits⟩ := a.children t c p hc (hparent.symm.trans hp)
    refine ⟨hlt, fun hpending' => ?_⟩
    have hpending := heffect.pending_of_pending hpending'
    -- what the instruction does to the parent
    have hp := List.getElem?_eq_getElem (Nat.lt_trans hlt (lt_length hc))
    obtain ⟨⟨d', hd', heffect'⟩, -⟩ := exec_affects heedStop self hp i m₁ code hexec
    rcases hwaits hpending with h | ⟨d, hd, hmem⟩ | hregister
    · exact Or.inl (hattends c hc hpending hpending' h)
    · obtain rfl := Option.some.inj (hp.symm.trans hd)
      rcases heffect'.mem_continuations hmem with hmem' | hdispatch
      · exact Or.inr (Or.inl ⟨d', hd', hmem'⟩)
      · exact Or.inl (.of_holds (hgains _ hdispatch) hmem)
    · rcases hkeeps _ hregister with rfl | hregister'
      · cases heffect' with
        | registered =>
          exact Or.inr (Or.inl ⟨_, hd', List.mem_append_right _ (List.mem_singleton_self _)⟩)
        | late =>
          have hnow := hgains _ (List.mem_singleton_self _)
          exact Or.inl (.of_holds hnow (List.mem_singleton_self t))
        | idle hidle => exact absurd rfl hidle
      · exact Or.inr (Or.inr hregister')
  | @found s role code m₁ exited hs _ _ hcode hfinds hm' =>
    obtain ⟨hkeeps, -⟩ := holds_found hs hcode (congrArg strands hm')
    have htasks : m'.tasks = m.tasks := (congrArg tasks hm').trans hfinds.tasks_eq
    rw [htasks] at hc' ⊢
    obtain ⟨hparent, hwaits⟩ := a.children t c' p hc' hp
    refine ⟨hparent, fun hpending => (hwaits hpending).imp (hattends c' hc' hpending hpending) ?_⟩
    exact Or.imp_right (hkeeps _)

omit a in
/-- A task that is pending was so before, and whoever attends to it still does. -/
theorem Governed.attends_step (ht : t < m.tasks.length) (hpending' : m'.state t = .pending) :
    m.state t = .pending ∧ (m.Attends t → m'.Attends t) := by
  obtain ⟨c, c', hc, hc', hback⟩ := step_pending hstep ht
  rw [(cell_eq hc').1] at hpending'
  have hpending := hback hpending'
  exact ⟨(cell_eq hc).1.trans hpending,
    fun h => h.step g.grounded hstep hc hpending hc' hpending'⟩

omit g in
theorem Attended.timers_step : ∀ (n : Nat) (b : TimerCell α), m'.timers[n]? = some b →
    b.armed < m'.tasks.length ∧ b.MakesRoots := by
  intro n b' hb'
  have hlength : m.tasks.length ≤ m'.tasks.length := (step_tasks hstep).1
  cases step_turn hstep with
  | @carried s i rest code m₁ answer added hs _ hcode hexec hadded hm' =>
    have hrule := exec_ruled hexec
    have htimers : TimerEffect m.tasks.length m.timers i code m'.timers := hm' ▸ hrule.timers
    obtain ⟨b, hb, hcell⟩ := htimers.cell hb'
    obtain ⟨hlt, hroots⟩ := a.timers n b hb
    rcases hcell with rfl | ⟨-, rfl, -⟩ | ⟨now, todo, due, hdue, rfl, rfl, -⟩
    · exact ⟨Nat.lt_of_lt_of_le hlt hlength, hroots⟩
    · exact ⟨Nat.lt_of_lt_of_le hlt hlength, hroots⟩
    · refine ⟨?_, fun interval body h => hroots interval body (b.fire_repeating ▸ h)⟩
      cases hrepeating : b.repeating with
      | none =>
        rw [TimerCell.fire_armed_once hrepeating]
        exact Nat.lt_of_lt_of_le hlt hlength
      | some again =>
        rw [TimerCell.fire_armed_again hrepeating, hm', hrule.tasks_eq hb hdue hrepeating,
          List.length_append]
        exact Nat.lt_succ_self _
  | found hs _ _ hcode hfinds hm' =>
    have htimers : m'.timers = m.timers := hm' ▸ hfinds.timers_eq.1
    exact (a.timers n b' (htimers ▸ hb')).imp_left (Nat.lt_of_lt_of_le · hlength)

theorem Attended.step : m'.Attended :=
  ⟨a.bodies_step g hstep, a.children_step g hstep, a.timers_step hstep⟩

end Step

/-- Nothing that callers do takes a task away from those who look after it. -/
theorem Attended.around (a : m.Attended) (h : m.Around m') : m'.Attended := by
  have hcell : ∀ {t c}, m.tasks[t]? = some c → m'.tasks[t]? = some c := h.beside.getElem?_tasks
  refine
    { bodies := fun t c hc hrunning => ?bodies, children := fun t c p hc hp => ?children,
      timers := fun n c hc => ?timers }
  case bodies =>
    rcases h.cell_or_new hc with hc | ⟨-, body, name, rfl⟩
    · obtain ⟨j, hj, hbears⟩ := a.bodies t c hc hrunning
      exact ⟨j, h.holds hj, hbears⟩
    · cases hrunning
  case children =>
    rcases h.cell_or_new hc with hc | ⟨ht, -⟩
    · obtain ⟨hlt, hwaits⟩ := a.children t c p hc hp
      refine ⟨hlt, fun hpending => (hwaits hpending).imp (·.around h) ?_⟩
      exact Or.imp (fun ⟨d, hd, hmem⟩ => ⟨d, hcell hd, hmem⟩) h.holds
    · obtain ⟨hlt, hregister⟩ := h.children t c p ht hc hp
      exact ⟨Nat.lt_of_lt_of_le hlt ht, fun _ => Or.inr (Or.inr hregister)⟩
  case timers =>
    rcases Nat.lt_or_ge n m.timers.length with hn | hn
    · obtain ⟨new, htimers⟩ := h.timers
      rw [htimers, List.getElem?_append_left hn] at hc
      exact (a.timers n c hc).imp_left (Nat.lt_of_lt_of_le · h.length_le)
    · obtain ⟨-, hlt, -, hroots, -⟩ := h.newTimers n c hn hc
      exact ⟨hlt, hroots⟩

theorem Reaches.attended (h : m.Reaches m') (g : m.Governed) (a : m.Attended) : m'.Attended := by
  induction h with
  | refl => exact a
  | step hreach heedStop self hstep ih => exact ih.step (hreach.governed g) hstep
  | move _ hmove ih => exact ih.around hmove.around

end Machine

end ManagedHost
