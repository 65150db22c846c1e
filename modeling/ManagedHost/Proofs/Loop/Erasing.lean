import ManagedHost.Proofs.Loop.Active

/-!
# Erasing a call

What a call to schedule a task has done is told by comparing the run with the one in which the call
is not made.  An `Eraser` takes away what the call has left behind: whether the task is bound to the
loop, its place among the active tasks, the submission under way and the counted one, and what its
strand has yet to do.  Whatever else is done in the machine can be done in the erased one as well.

* `Eraser.step_follows`: another strand's step, unless it depends on what is erased
  (`Eraser.Spares`).
* `Eraser.move_follows`: what callers do beside the strands.
-/

namespace ManagedHost

variable {α : Type}

/-- What a call to schedule a task leaves behind, as maps that take it away again. -/
structure Eraser where
  /-- The strand that makes the call. -/
  strand : Nat
  task : TaskId
  bound : Bool → Bool := id
  active : List TaskId → List TaskId := id
  submitting : Nat → Nat := id
  scheduled : Nat → Nat := id
  -- what an instruction takes away, it takes away from what is left
  active_erase : ∀ l k, active (l.erase k) = (active l).erase k := by intros; rfl
  active_nil : active [] = [] := by rfl
  submitting_pred : ∀ n, submitting (n - 1) = submitting n - 1 := by intros; rfl
  submitting_zero : submitting 0 = 0 := by rfl

namespace Eraser

/-- The cell of the task `k`. -/
def cell (E : Eraser) (k : TaskId) (c : TaskCell α) : TaskCell α :=
  { c with bound := if k = E.task then E.bound c.bound else c.bound }

/-- The loop without what the call has put into it. -/
def loop (E : Eraser) (l : EventLoop) : EventLoop :=
  { l with
    active := E.active l.active
    submitting := E.submitting l.submitting
    stats := { l.stats with scheduled := E.scheduled l.stats.scheduled } }

/-- The machine as if the call had not been made. -/
def apply (E : Eraser) (m : Machine α) : Machine α :=
  { m with
    tasks := m.tasks.mapIdx E.cell
    loop := E.loop m.loop
    strands := m.strands.set E.strand { role := .caller } }

variable {E : Eraser} {m m₁ : Machine α} {k : TaskId} {c c' : TaskCell α}

/-! ### Cells -/

theorem cell_task (E : Eraser) (c : TaskCell α) :
    E.cell E.task c = { c with bound := E.bound c.bound } := by
  rw [cell, if_pos rfl]

theorem cell_of_ne (hk : k ≠ E.task) (c : TaskCell α) : E.cell k c = c := by
  simp only [cell, if_neg hk]

/-- Only the cell of the task changes. -/
theorem mapIdx_cell (E : Eraser) (l : List (TaskCell α)) :
    l.mapIdx E.cell = l.modify E.task fun c => { c with bound := E.bound c.bound } := by
  refine List.ext_getElem? fun k => ?_
  rw [List.getElem?_mapIdx]
  by_cases hk : k = E.task
  · subst hk
    rw [List.getElem?_modify_eq]
    exact congrArg (Option.map · _) (funext E.cell_task)
  · rw [List.getElem?_modify_ne _ _ (Ne.symm hk), funext (cell_of_ne hk)]
    exact Option.map_id'

theorem length_apply (E : Eraser) (m : Machine α) :
    (E.apply m).tasks.length = m.tasks.length :=
  List.length_mapIdx

theorem getElem?_apply (E : Eraser) (m : Machine α) (k : TaskId) :
    (E.apply m).tasks[k]? = (m.tasks[k]?).map (E.cell k) :=
  List.getElem?_mapIdx

theorem getElem?_apply_some (hc : m.tasks[k]? = some c) :
    (E.apply m).tasks[k]? = some (E.cell k c) := by
  rw [getElem?_apply, hc, Option.map_some]

theorem getElem?_apply_none (hnone : m.tasks[k]? = none) : (E.apply m).tasks[k]? = none := by
  rw [getElem?_apply, hnone, Option.map_none]

theorem state_ne_apply {state : TaskState} (hlate : ∀ c, m.tasks[k]? = some c → c.state ≠ state) :
    ∀ c, (E.apply m).tasks[k]? = some c → c.state ≠ state := by
  intro c hc
  rw [getElem?_apply] at hc
  obtain ⟨d, hd, rfl⟩ := Option.map_eq_some_iff.mp hc
  exact hlate d hd

@[simp]
theorem state_apply (E : Eraser) (m : Machine α) (k : TaskId) :
    (E.apply m).state k = m.state k := by
  unfold Machine.state
  rw [getElem?_apply, Option.map_map]
  rfl

@[simp]
theorem token_apply (E : Eraser) (m : Machine α) (k : TaskId) :
    (E.apply m).token k = m.token k := by
  unfold Machine.token
  rw [getElem?_apply, Option.map_map]
  rfl

@[simp]
theorem outcome_apply (E : Eraser) (m : Machine α) (k : TaskId) :
    (E.apply m).outcome k = m.outcome k := by
  unfold Machine.outcome
  rw [getElem?_apply, Option.bind_map]
  rfl

/-- A change to a cell that has nothing to do with what is erased. -/
theorem modify_apply {f g : TaskCell α → TaskCell α} (h : ∀ c, g (E.cell k c) = E.cell k (f c)) :
    (E.apply m).modify k g = E.apply (m.modify k f) := by
  have htasks : (m.tasks.mapIdx E.cell).modify k g = (m.tasks.modify k f).mapIdx E.cell := by
    refine List.ext_getElem? fun j => ?_
    rw [List.getElem?_mapIdx, List.getElem?_modify, List.getElem?_modify, List.getElem?_mapIdx,
      Option.map_eq_map, Option.map_eq_map, Option.map_map, Option.map_map]
    by_cases hj : k = j
    · subst hj
      simp only [if_true, Function.comp_def, h]
    · simp only [if_neg hj, Function.comp_def]
  exact congrArg (fun tasks => { E.apply m with tasks }) htasks

/-- A cell is replaced. -/
theorem replace_apply (c : TaskCell α) :
    ((E.apply m).modify k fun _ => E.cell k c) = E.apply (m.modify k fun _ => c) :=
  modify_apply fun _ => rfl

theorem signal_apply :
    (E.apply m).modify k TaskCell.signal = E.apply (m.modify k TaskCell.signal) :=
  modify_apply fun _ => rfl

theorem dropBody_apply :
    ((E.apply m).modify k fun c => { c with body := none }) =
      E.apply (m.modify k fun c => { c with body := none }) :=
  modify_apply fun _ => rfl

/-! ### Strands -/

/-- What an eraser relies on as long as its call is under way or has failed. -/
structure Suits (E : Eraser) (m : Machine α) : Prop where
  caller : ∃ s, m.strands[E.strand]? = some s ∧ s.role = .caller
  task : E.task < m.tasks.length
  submitting : E.submitting (m.loop.submitting + 1) = E.submitting m.loop.submitting + 1
  scheduled : E.scheduled (m.loop.stats.scheduled + 1) = E.scheduled m.loop.stats.scheduled + 1

/-- Changes of two strands do not depend on their order. -/
theorem modify_set {β : Type} {n k : Nat} (hk : k ≠ n) (l : List β) (x : β) (f : β → β) :
    (l.set n x).modify k f = (l.modify k f).set n x := by
  refine List.ext_getElem? fun j => ?_
  rw [List.getElem?_modify, List.getElem?_set, List.getElem?_set, List.getElem?_modify,
    List.length_modify]
  by_cases hj : n = j
  · subst hj
    simp only [if_neg hk, if_true]
    split_ifs
    · rfl
    · rfl
  · rw [if_neg hj, if_neg hj]

theorem Suits.lt (h : E.Suits m) : E.strand < m.strands.length := by
  obtain ⟨s, hs, -⟩ := h.caller
  exact (List.getElem?_eq_some_iff.mp hs).1

/-- Callers are not among the threads that others wait for. -/
theorem Suits.othersAny_apply (h : E.Suits m) (self : Nat) {p : Strand α → Bool}
    (hp : ∀ s : Strand α, s.role = .caller → p s = false) :
    (E.apply m).othersAny self p = m.othersAny self p := by
  obtain ⟨s, hs, hrole⟩ := h.caller
  have hlt := h.lt
  unfold Machine.othersAny
  rw [Bool.eq_iff_iff, List.any_eq_true, List.any_eq_true]
  have hback : ∀ (r : Strand α) (k : Nat), p r = true →
      ((r, k) ∈ (E.apply m).strands.zipIdx ↔ (r, k) ∈ m.strands.zipIdx) := by
    intro r k hr
    rw [List.mem_zipIdx_iff_getElem?, List.mem_zipIdx_iff_getElem?]
    show (m.strands.set E.strand _)[k]? = _ ↔ _
    by_cases hk : k = E.strand
    · subst hk
      rw [List.getElem?_set_self hlt, hs]
      refine iff_of_false ?_ ?_
      · rintro ⟨rfl⟩
        exact absurd hr (Bool.eq_false_iff.mp (hp _ rfl))
      · rintro ⟨rfl⟩
        exact absurd hr (Bool.eq_false_iff.mp (hp _ hrole))
    · rw [List.getElem?_set_ne (Ne.symm hk)]
  constructor
  · rintro ⟨⟨r, k⟩, hmem, hr⟩
    exact ⟨(r, k), (hback r k (Bool.and_eq_true_iff.mp hr).2).mp hmem, hr⟩
  · rintro ⟨⟨r, k⟩, hmem, hr⟩
    exact ⟨(r, k), (hback r k (Bool.and_eq_true_iff.mp hr).2).mpr hmem, hr⟩

theorem Suits.hasRoom_apply (h : E.Suits m) : (E.apply m).hasRoom = m.hasRoom := by
  obtain ⟨s, hs, hrole⟩ := h.caller
  obtain ⟨hlt, hs⟩ := List.getElem?_eq_some_iff.mp hs
  have hidle : (E.apply m).idleWorkers = m.idleWorkers := by
    show (m.strands.set E.strand _).countP _ = m.strands.countP _
    rw [List.countP_set hlt, hs, hrole]
    simp
  unfold Machine.hasRoom
  rw [hidle]
  rfl

/-! ### Instructions -/

/-- What has to hold of an instruction for it not to tell whether the call was made. -/
structure Spares (E : Eraser) (m : Machine α) (i : Instr α) : Prop where
  /-- The task itself may be brought to the loop only if that is not erased. -/
  entry : ∀ k, m.entry? i = some k → (k = E.task → E.bound true = true) ∧
    E.active (m.loop.active.insert k) = (E.active m.loop.active).insert k
  /-- Its continuations go where they would have gone. -/
  dispatch : ∀ children, i = .dispatch E.task children →
    children = [] ∨ ∀ c, m.tasks[E.task]? = some c → E.bound c.bound = c.bound
  /-- Whoever empties the loop finds the same active tasks. -/
  sweep : i = .sweepLoop → E.active m.loop.active = m.loop.active

/-! ### Changes to the loop -/

/-- The loop is changed and nothing else. -/
theorem withLoop_apply {l l' : EventLoop} (h : l' = E.loop l) :
    ({ E.apply m with loop := l' } : Machine α) = E.apply { m with loop := l } :=
  congrArg (fun loop => ({ E.apply m with loop } : Machine α)) h

theorem loop_submit {l : EventLoop} {t : TaskId}
    (hactive : E.active (l.active.insert t) = (E.active l.active).insert t)
    (hsubmitting : E.submitting (l.submitting + 1) = E.submitting l.submitting + 1)
    (hscheduled : E.scheduled (l.stats.scheduled + 1) = E.scheduled l.stats.scheduled + 1) :
    { (E.loop l).adopt t with
      submitting := (E.loop l).submitting + 1
      stats := { (E.loop l).stats with scheduled := (E.loop l).stats.scheduled + 1 } } =
    E.loop { l.adopt t with
      submitting := l.submitting + 1
      stats := { l.stats with scheduled := l.stats.scheduled + 1 } } := by
  simp only [loop, EventLoop.adopt, hactive, hsubmitting, hscheduled]

theorem loop_push {l : EventLoop} {t : TaskId}
    (hactive : E.active (l.active.insert t) = (E.active l.active).insert t) :
    { (E.loop l).adopt t with
      microtasks := (E.loop l).microtasks ++ [t]
      stats := { (E.loop l).stats with microtasks := (E.loop l).stats.microtasks + 1 } } =
    E.loop { l.adopt t with
      microtasks := l.microtasks ++ [t]
      stats := { l.stats with microtasks := l.stats.microtasks + 1 } } := by
  simp only [loop, EventLoop.adopt, hactive]

theorem loop_enqueue (l : EventLoop) (t : TaskId) :
    { E.loop l with
      submitting := (E.loop l).submitting - 1, queue := (E.loop l).queue ++ [t] } =
    E.loop { l with submitting := l.submitting - 1, queue := l.queue ++ [t] } := by
  simp only [loop, E.submitting_pred]

theorem loop_refuse (l : EventLoop) (t : TaskId) :
    { E.loop l with
      submitting := (E.loop l).submitting - 1, active := (E.loop l).active.erase t } =
    E.loop { l with submitting := l.submitting - 1, active := l.active.erase t } := by
  simp only [loop, E.submitting_pred, E.active_erase]

theorem loop_release (l : EventLoop) (t : TaskId) :
    (E.loop l).release t = E.loop (l.release t) := by
  simp only [loop, EventLoop.release, E.active_erase]

theorem loop_record (l : EventLoop) (state : TaskState) :
    { E.loop l with stats := (E.loop l).stats.record state } =
      E.loop { l with stats := l.stats.record state } := by
  cases state <;> rfl

theorem loop_sweep (l : EventLoop) :
    { E.loop l with timers := [], queue := [], microtasks := [], active := [] } =
      E.loop { l with timers := [], queue := [], microtasks := [], active := [] } := by
  simp only [loop, E.active_nil]

/-- Tasks that are added are not the one of the call. -/
theorem tasks_append (h : E.task < m.tasks.length) (c : TaskCell α) :
    (m.tasks ++ [c]).mapIdx E.cell = m.tasks.mapIdx E.cell ++ [c] := by
  rw [List.mapIdx_append]
  refine congrArg (m.tasks.mapIdx E.cell ++ ·) ?_
  show [E.cell (0 + m.tasks.length) c] = [c]
  rw [Nat.zero_add, cell_of_ne (Nat.ne_of_gt h)]

theorem newTask_apply (h : E.task < m.tasks.length) (body : Body α) (name : Option String) :
    (E.apply m).newTask body name = ((m.newTask body name).1, E.apply (m.newTask body name).2) := by
  refine Prod.ext ?_ ?_
  · exact E.length_apply m
  · exact congrArg (fun tasks => ({ E.apply m with tasks } : Machine α)) (tasks_append h _).symm

/-- Binding a task to the loop. -/
theorem bind_apply (h : k = E.task → E.bound true = true) :
    ((E.apply m).modify k fun c => { c with bound := true }) =
      E.apply (m.modify k fun c => { c with bound := true }) := by
  refine modify_apply fun c => ?_
  unfold cell
  split_ifs with hk
  · rw [h hk]
  · rfl

theorem rule_congr {heedStop : Bool} {self : Nat} {i : Instr α} {code : List (Instr α)}
    {x : Machine α} (h : m.Rule heedStop self i x code) (hx : x = m₁) :
    m.Rule heedStop self i m₁ code := hx ▸ h

/-- **An instruction of another strand does the same** when the call has not been made. -/
theorem rule_erased {heedStop : Bool} {self : Nat} {i : Instr α} {code : List (Instr α)}
    (h : m.Rule heedStop self i m₁ code) (hself : self ≠ E.strand) (hE : E.Suits m)
    (hs : E.Spares m i) : (E.apply m).Rule heedStop self i (E.apply m₁) code := by
  have hzero : m.loop.submitting = 0 → (E.apply m).loop.submitting = 0 :=
    fun hsubmitting => (congrArg E.submitting hsubmitting).trans E.submitting_zero
  have houtcome : m.outcome = (E.apply m).outcome := funext fun k => (E.outcome_apply m k).symm
  cases h with
  -- tasks that are run
  | start hc hpending => exact replace_apply _ ▸ .start (getElem?_apply_some hc) hpending
  | startLate hlate => exact .startLate (state_ne_apply hlate)
  | enterNone hnone => exact .enterNone (getElem?_apply_none hnone)
  | enterMissing hc hbody => exact replace_apply _ ▸ .enterMissing (getElem?_apply_some hc) hbody
  | enterScript hc hbody => exact replace_apply _ ▸ .enterScript (getElem?_apply_some hc) hbody
  | enterAndThen hc hbody => exact replace_apply _ ▸ .enterAndThen (getElem?_apply_some hc) hbody
  | enterOrElse hc hbody => exact replace_apply _ ▸ .enterOrElse (getElem?_apply_some hc) hbody
  | @enterPromise t c setup hc hbody =>
    refine rule_congr (.enterPromise (getElem?_apply_some hc) hbody) ?_
    have htaken : ((E.apply m).modify t fun _ => { E.cell t c with body := none }) =
        E.apply (m.modify t fun _ => { c with body := none }) :=
      replace_apply { c with body := none }
    rw [htaken]
    refine congrArg (fun strands => ({ E.apply _ with strands, promises := _ } : Machine α)) ?_
    exact (List.set_append_left _ _ hE.lt).symm
  | enterAll hc hbody => exact replace_apply _ ▸ .enterAll (getElem?_apply_some hc) hbody
  | enterRace hc hbody => exact replace_apply _ ▸ .enterRace (getElem?_apply_some hc) hbody
  | hold hopen => exact .hold hopen
  -- scripts
  | @scriptEnd t ending =>
    have hending : (E.apply m).endingResult t ending = m.endingResult t ending := by
      cases ending with
      | done => rfl
      | token value => exact congrArg (fun b => Except.ok (value b)) (E.token_apply m t)
    exact hending ▸ .scriptEnd
  | note => exact .note
  | noteToken => exact E.token_apply m _ ▸ .noteToken
  | noteState hk => exact E.state_apply m _ ▸ .noteState hk
  | signalSelf => exact signal_apply ▸ .signalSelf
  | cancelHandle hk => exact .cancelHandle hk
  | runHandle hk => exact .runHandle hk
  | handleMissing haction hnone => exact .handleMissing haction hnone
  | gate => exact .gate
  | waitToken htoken => exact .waitToken ((E.token_apply m _).trans htoken)
  | stopFromWithin => exact .stopFromWithin
  -- bodies that wait for others
  | andThen hparent => exact .andThen ((E.outcome_apply m _).trans hparent)
  | andThenError hparent => exact .andThenError ((E.outcome_apply m _).trans hparent)
  | orElse hparent => exact .orElse ((E.outcome_apply m _).trans hparent)
  | orElseValue hparent => exact .orElseValue ((E.outcome_apply m _).trans hparent)
  | promiseMessage hc hmessage => exact E.token_apply m _ ▸ .promiseMessage hc hmessage
  | promiseToken hc hmessage htoken hheed =>
    exact .promiseToken hc hmessage ((E.token_apply m _).trans htoken) hheed
  | promiseClosed hc hmessage hclosed hquiet =>
    exact .promiseClosed hc hmessage hclosed (by rwa [token_apply])
  | allDone => exact .allDone
  | allNext hk => exact .allNext ((E.outcome_apply m _).trans hk)
  | allError hk => exact .allError ((E.outcome_apply m _).trans hk)
  | raceWon hfirst => exact E.token_apply m _ ▸ .raceWon (houtcome ▸ hfirst)
  | raceToken hnone htoken hheed =>
    exact .raceToken (houtcome ▸ hnone) ((E.token_apply m _).trans htoken) hheed
  | raceEmpty hquiet => exact .raceEmpty (by rwa [token_apply])
  -- settlements and what follows them
  | settle hc hold => exact replace_apply _ ▸ .settle (getElem?_apply_some hc) hold
  | settleLate hlate => exact .settleLate (state_ne_apply hlate)
  | signal => exact signal_apply ▸ .signal
  | releaseNone hnone => exact .releaseNone (getElem?_apply_none hnone)
  | release hc => exact replace_apply _ ▸ .release (getElem?_apply_some hc)
  | dispatchNone hnone => exact .dispatchNone (getElem?_apply_none hnone)
  | @dispatch t children c hc =>
    have hrule : (E.apply m).Rule heedStop self (.dispatch t children) _ _ :=
      .dispatch (getElem?_apply_some hc)
    by_cases ht : t = E.task
    · subst ht
      rcases hs.dispatch children rfl with rfl | hbound
      · exact hrule
      · have hsame : (E.cell E.task c).bound = c.bound := by
          rw [cell_task]
          exact hbound c hc
        exact hsame ▸ hrule
    · exact cell_of_ne ht c ▸ hrule
  | registerNone hnone => exact .registerNone (getElem?_apply_none hnone)
  | register hc hopen => exact replace_apply _ ▸ .register (getElem?_apply_some hc) hopen
  | registerLate hc hsealed => exact .registerLate (getElem?_apply_some hc) hsealed
  | dropBody => exact dropBody_apply ▸ .dropBody
  | cancel hopen => exact E.state_apply m _ ▸ .cancel (by rwa [state_apply])
  | cancelLate hterminal => exact .cancelLate (by rwa [state_apply])
  | fail => exact .fail
  -- submissions
  | submit hphase =>
    obtain ⟨hbound, hactive⟩ := hs.entry _ (if_pos hphase)
    refine rule_congr (.submit hphase) ?_
    rw [bind_apply hbound]
    exact withLoop_apply (loop_submit hactive hE.submitting hE.scheduled)
  | @submitRefused t who hphase => cases who <;> exact .submitRefused hphase
  | @enqueue t who hroom hgo =>
    have hmachine := congrArg (fun x : Machine α => (x.accepted who).1)
      (withLoop_apply (m := m) (E.loop_enqueue m.loop t))
    cases who <;> exact rule_congr (.enqueue (hE.hasRoom_apply.trans hroom) hgo) hmachine
  | @enqueueRefused t who hsignal hheed =>
    have hheed' : (heedStop || !(E.apply m).hasRoom) = true := by rwa [hE.hasRoom_apply]
    have hmachine := congrArg (fun x : Machine α => (x.refused t .stopped who).1)
      (withLoop_apply (m := m) (E.loop_refuse m.loop t))
    cases who <;> exact rule_congr (.enqueueRefused hsignal hheed') hmachine
  | microtask hphase =>
    obtain ⟨hbound, hactive⟩ := hs.entry _ (if_neg hphase)
    refine rule_congr (.microtask hphase) ?_
    rw [bind_apply hbound]
    exact withLoop_apply (loop_push hactive)
  | microtaskRefused hphase => exact .microtaskRefused hphase
  | answer =>
    refine rule_congr .answer ?_
    exact congrArg (fun strands => ({ E.apply m with strands } : Machine α))
      (modify_set hself _ _ _)
  -- the loop, its timers and promises
  | leave => exact rule_congr .leave (withLoop_apply (loop_release _ _))
  | record =>
    refine rule_congr .record ?_
    rw [state_apply]
    exact withLoop_apply (loop_record _ _)
  | scanDone => exact .scanDone
  | scanDrop hlate => exact .scanDrop hlate
  | scanFind hc hopen => exact .scanFind hc hopen
  | pollEarly hearly => exact .pollEarly hearly
  | @fireOnce _ timer _ _ c hc hdue honce =>
    refine rule_congr (.fireOnce hc hdue honce) ?_
    rw [length_apply]
    rfl
  | @fireAgain _ timer _ _ c _ body hc hdue hagain =>
    refine rule_congr (.fireAgain hc hdue hagain) ?_
    rw [length_apply]
    exact congrArg (fun tasks => ({ E.apply m with tasks, timers := _ } : Machine α))
      (tasks_append hE.task _).symm
  | cancelTimer hc hopen => exact .cancelTimer hc hopen
  | cancelTimerLate hlate => exact .cancelTimerLate hlate
  | cancelArmed hc => exact .cancelArmed hc
  | cancelArmedNone hnone => exact .cancelArmedNone hnone
  | setup => exact .setup
  | setupEnd => exact .setupEnd
  -- calls of stop
  | stopLoop hphase => exact .stopLoop hphase
  | stopLoopLate hphase => exact .stopLoopLate hphase
  | markStopped hsubmitting hphase => exact .markStopped (hzero hsubmitting) hphase
  | markStoppedLate hsubmitting hphase => exact .markStoppedLate (hzero hsubmitting) hphase
  | joinThreads hothers =>
    refine .joinThreads ?_
    rwa [hE.othersAny_apply self fun s hs => by simp [Machine.isLoopThread, hs]]
  | sweepLoop =>
    have hrule : (E.apply m).Rule heedStop self .sweepLoop _ _ := .sweepLoop
    have hactive : (E.apply m).loop.active = m.loop.active := hs.sweep rfl
    rw [hactive] at hrule
    exact rule_congr hrule (withLoop_apply (loop_sweep m.loop))
  | cancelLeft hopen => exact .cancelLeft (by rwa [state_apply])
  | cancelLeftLate hterminal => exact .cancelLeftLate (by rwa [state_apply])
  | stopScheduler hphase => exact .stopScheduler hphase
  | stopSchedulerLate hphase => exact .stopSchedulerLate hphase
  | joinDispatcher hothers =>
    refine .joinDispatcher ?_
    rwa [hE.othersAny_apply self fun s hs => by simp [hs]]

/-- The result `r'` is what erasing leaves of the result `r`, if there is one. -/
def Follows (E : Eraser) (r r' : Option (Machine α × List (Instr α))) : Prop :=
  ∀ m₁ code, r = some (m₁, code) → r' = some (E.apply m₁, code)

/-- **An instruction of another strand does the same** when the call has not been made. -/
theorem exec_follows (heedStop : Bool) {self : Nat} (hself : self ≠ E.strand) (i : Instr α)
    (hE : E.Suits m) (h : E.Spares m i) :
    E.Follows (m.exec heedStop self i) ((E.apply m).exec heedStop self i) :=
  fun _ _ hexec => (rule_erased (Machine.exec_ruled hexec) hself hE h).exec_eq

/-! ### Strands that look for work -/

theorem idleStep_follows {heedStop : Bool} {role : Role} {code : List (Instr α)} {exited : Bool}
    (h : m.idleStep heedStop role = some (m₁, code, exited)) :
    (E.apply m).idleStep heedStop role = some (E.apply m₁, code, exited) := by
  have hsignal : (E.apply m).loop.stopSignal = m.loop.stopSignal := rfl
  cases role with
  | caller => cases h
  | worker =>
    have hqueue : (E.apply m).loop.queue = m.loop.queue := rfl
    simp only [Machine.idleStep, hsignal, hqueue] at h ⊢
    split_ifs at h ⊢
    · obtain ⟨rfl, rfl, rfl⟩ := h
      rfl
    · cases hnext : m.loop.queue with
      | nil => rw [hnext] at h; cases h
      | cons t rest =>
        rw [hnext] at h
        obtain ⟨rfl, rfl, rfl⟩ := h
        rfl
  | microtasks =>
    have hmicrotasks : (E.apply m).loop.microtasks = m.loop.microtasks := rfl
    have hticked : (E.apply m).loop.hasTicked (E.apply m).loop.config.microtaskInterval
        (E.apply m).clock = m.loop.hasTicked m.loop.config.microtaskInterval m.clock := rfl
    simp only [Machine.idleStep, hsignal, hmicrotasks, hticked] at h ⊢
    split_ifs at h ⊢
    · obtain ⟨rfl, rfl, rfl⟩ := h
      rfl
    · obtain ⟨rfl, rfl, rfl⟩ := h
      rfl
  | timers =>
    have htimers : (E.apply m).loop.timers = m.loop.timers := rfl
    have hscan : (E.apply m).loop.lastScan = m.loop.lastScan := rfl
    have hclock : (E.apply m).clock = m.clock := rfl
    have hticked : (E.apply m).loop.hasTicked (E.apply m).loop.config.timerInterval
        m.clock = m.loop.hasTicked m.loop.config.timerInterval m.clock := rfl
    simp only [Machine.idleStep, hsignal, htimers, hscan, hclock, hticked] at h ⊢
    split_ifs at h ⊢
    · obtain ⟨rfl, rfl, rfl⟩ := h
      rfl
    · obtain ⟨rfl, rfl, rfl⟩ := h
      rfl
  | dispatcher =>
    have hscheduler : (E.apply m).scheduler = m.scheduler := rfl
    have hclock : (E.apply m).clock = m.clock := rfl
    simp only [Machine.idleStep, hscheduler, hclock] at h ⊢
    split_ifs at h ⊢
    · obtain ⟨rfl, rfl, rfl⟩ := h
      rfl
    · cases hdue : m.scheduler.queue.popDue m.clock with
      | none => rw [hdue] at h; cases h
      | some next =>
        rw [hdue] at h
        obtain ⟨rfl, rfl, rfl⟩ := h
        rfl

/-! ### Steps and moves -/

/-- **A step of another strand is the same** when the call has not been made. -/
theorem step_follows (hE : E.Suits m) {heedStop : Bool} {self : Nat} (hself : self ≠ E.strand)
    (hspares : ∀ i, m.next? self = some i → E.Spares m i)
    (h : m.step heedStop self = some m₁) :
    (E.apply m).step heedStop self = some (E.apply m₁) := by
  have hput : ∀ (m : Machine α) (f : Strand α → Strand α),
      { E.apply m with strands := (E.apply m).strands.modify self f } =
        E.apply { m with strands := m.strands.modify self f } := fun m f =>
    congrArg (fun strands => ({ E.apply m with strands } : Machine α)) (modify_set hself _ _ _)
  have hother : (E.apply m).strands[self]? = m.strands[self]? := List.getElem?_set_ne hself.symm
  unfold Machine.step at h ⊢
  rw [hother]
  cases hs : m.strands[self]? with
  | none => rw [hs] at h; cases h
  | some s =>
    rw [hs] at h
    dsimp only at h ⊢
    split_ifs at h ⊢
    cases hcode : s.code with
    | nil =>
      rw [hcode] at h
      obtain ⟨⟨m₂, code, exited⟩, hidle, rfl⟩ := Option.map_eq_some_iff.mp h
      dsimp only
      rw [idleStep_follows hidle, Option.map_some]
      exact congrArg some (hput m₂ _)
    | cons i rest =>
      rw [hcode] at h
      obtain ⟨⟨m₂, code⟩, hexec, rfl⟩ := Option.map_eq_some_iff.mp h
      have hnext : m.next? self = some i := by
        unfold Machine.next?
        rw [Machine.getElem?_codes hs, hcode]
        rfl
      dsimp only
      rw [exec_follows heedStop hself i hE (hspares i hnext) m₂ code hexec, Option.map_some]
      exact congrArg some (hput m₂ _)

theorem call_apply (hlt : E.strand < m.strands.length) (code : List (Instr α)) :
    ((E.apply m).call code).2 = E.apply (m.call code).2 :=
  congrArg (fun strands => ({ E.apply m with strands } : Machine α))
    (List.set_append_left _ _ hlt).symm

theorem startLoop_apply (hlt : E.strand < m.strands.length) :
    (E.apply m).startLoop = E.apply m.startLoop := by
  have hphase : (E.apply m).loop.phase = m.loop.phase := rfl
  unfold Machine.startLoop
  rw [hphase]
  split_ifs
  · exact congrArg (fun strands => ({ E.apply m with
      loop := { E.loop m.loop with phase := .running, startedAt := m.clock }
      strands } : Machine α))
      (List.set_append_left _ _ hlt).symm
  · rfl

theorem startScheduler_apply (hlt : E.strand < m.strands.length) :
    (E.apply m).startScheduler = E.apply m.startScheduler := by
  have hphase : (E.apply m).scheduler.phase = m.scheduler.phase := rfl
  have hgrown : E.strand < m.startLoop.strands.length := by
    obtain ⟨new, hnew, -⟩ := (Machine.around_startLoop m).strands
    rw [hnew, List.length_append]
    exact Nat.lt_of_lt_of_le hlt (Nat.le_add_right _ _)
  unfold Machine.startScheduler
  rw [hphase, startLoop_apply hlt]
  split_ifs
  · exact congrArg (fun strands => ({ E.apply m.startLoop with
      scheduler := { m.startLoop.scheduler with phase := .running }, strands } : Machine α))
      (List.set_append_left _ _ hgrown).symm
  · rfl

theorem create_apply (h : E.task < m.tasks.length) (body : Body α) (name : Option String) :
    (E.apply m).create body name = ((m.create body name).1, E.apply (m.create body name).2) := by
  simp only [Machine.create, newTask_apply h]
  rfl

theorem continueWith_apply (hE : E.Suits m) (parent : TaskId) (body : Body α) :
    (E.apply m).continueWith parent body =
      ((m.continueWith parent body).1, E.apply (m.continueWith parent body).2) := by
  simp only [Machine.continueWith, create_apply hE.task]
  rw [call_apply (m := (m.create body).2) hE.lt]

theorem addTimer_apply (hE : E.Suits m) (delay : Nat) (repeating : Bool) (body : Body α) :
    (E.apply m).addTimer delay repeating body =
      ((m.addTimer delay repeating body).1, E.apply (m.addTimer delay repeating body).2) := by
  have hphase : ∀ m : Machine α, (E.apply m).loop.phase = m.loop.phase := fun _ => rfl
  simp only [Machine.addTimer, newTask_apply hE.task, hphase]
  by_cases hstopped : (m.newTask body).2.loop.phase = .stopped
  · simp only [if_pos hstopped]
    refine Prod.ext rfl ?_
    exact call_apply (m := { (m.newTask body).2 with timers := (m.newTask body).2.timers ++ [_] })
      hE.lt _
  · simp only [if_neg hstopped]
    rfl

/-- **What happens beside the strands is the same** when the call has not been made. -/
theorem move_follows (hE : E.Suits m) (h : m.Move m₁) : (E.apply m).Move (E.apply m₁) := by
  have hlength : (E.apply m).tasks.length = m.tasks.length := List.length_mapIdx
  cases h with
  | newTask body name hbody =>
    have hmove := Machine.Move.newTask (m := E.apply m) body name hbody
    rwa [newTask_apply hE.task] at hmove
  | continueWith parent body hparent hbody =>
    have hmove := Machine.Move.continueWith (m := E.apply m) parent body (hlength ▸ hparent) hbody
    rwa [continueWith_apply hE] at hmove
  | call code hcode =>
    have hmove := Machine.Move.call (m := E.apply m) code (hlength ▸ hcode)
    rwa [call_apply hE.lt] at hmove
  | addTimer delay repeating body hbody =>
    have hmove := Machine.Move.addTimer (m := E.apply m) delay repeating body hbody
    rwa [addTimer_apply hE] at hmove
  | startLoop =>
    have hmove := Machine.Move.startLoop (m := E.apply m)
    rwa [startLoop_apply hE.lt] at hmove
  | startScheduler =>
    have hmove := Machine.Move.startScheduler (m := E.apply m)
    rwa [startScheduler_apply hE.lt] at hmove
  | schedule t priority deadline h =>
    refine .schedule t priority deadline ?_
    unfold Machine.schedule at h ⊢
    have hscheduler : (E.apply m).scheduler = m.scheduler := rfl
    rw [hscheduler]
    cases hsubmit : m.scheduler.submit t priority deadline with
    | error e =>
      rw [hsubmit] at h
      cases h
    | ok scheduler =>
      rw [hsubmit] at h
      obtain rfl := Except.ok.inj h
      rfl
  | resolve t result h =>
    refine .resolve t result ?_
    unfold Machine.resolve? at h ⊢
    have hpromises : (E.apply m).promises = m.promises := rfl
    rw [hpromises]
    split at h
    · cases h
    · obtain rfl := Option.some.inj h
      cases result <;> rfl
  | release =>
    have hmove := Machine.Move.release (m := E.apply m)
    have hgate : (E.apply m).gate = m.gate := rfl
    unfold Machine.release at hmove ⊢
    rw [hgate] at hmove
    cases hheld : m.gate with
    | nil => rwa [hheld] at hmove
    | cons t rest => rwa [hheld] at hmove
  | handles handles => exact .handles handles
  | elapse micros => exact .elapse micros

end Eraser
end ManagedHost
