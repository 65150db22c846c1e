import ManagedHost.Proofs.Task.Invariants
import Mathlib.Data.List.Perm.Subperm

/-!
# How a task settles

A task may be run, cancelled, made to fail and continued by any number of strands at once.  `Watch`
is the machine together with what has been seen of one task, and `Watch.Reaches` is any order of
steps, with calls that begin and time that passes in between (`Machine.Beside`).

One step keeps the invariants (`Watch.turn_effect`), hence they hold at any time.  The main result
is `Watch.Reaches.task_settles_once`.
-/

namespace ManagedHost

variable {α : Type}

/-! ### Executions -/

/-- The machine and what has been seen of a task. -/
structure Watch (α : Type) where
  machine : Machine α
  log : TaskLog α := {}

namespace Machine

/-- What can happen beside the steps of the strands: tasks are created, strands are started that
make calls, and all else may change, such as the time. -/
structure Beside (m m' : Machine α) : Prop where
  tasks : ∃ new, m'.tasks = m.tasks ++ new
  strands : ∃ new, m'.strands = m.strands ++ new ∧ ∀ s ∈ new, ∀ i ∈ s.code, i.IsCall

/-- Whether all calls on the task have returned. -/
def Returned (m : Machine α) (t : TaskId) : Prop :=
  ∀ s ∈ m.strands, ∀ i ∈ s.code, i.task? ≠ some t

/-- Whether the task is new, so that nobody has made a call on it. -/
structure Fresh (m : Machine α) (t : TaskId) : Prop where
  cell : ∃ body name, m.tasks[t]? = some { TaskCell.ofBody body with name }
  unused : m.Returned t

end Machine

namespace Watch

/-- Let a strand take a step, if it need not wait. -/
def turn (t : TaskId) (heedStop : Bool) (self : Nat) (w : Watch α) : Watch α :=
  match w.machine.step heedStop self with
  | none => w
  | some m =>
    match w.machine.next? self with
    | none => { w with machine := m }
    | some i =>
      let code := ((w.machine.exec heedStop self i).map Prod.snd).getD []
      { machine := m, log := w.log.observe t w.machine self i code }

/-- What can be reached, by any order of steps. -/
inductive Reaches (t : TaskId) (w : Watch α) : Watch α → Prop where
  | refl : Reaches t w w
  | turn {v : Watch α} (h : Reaches t w v) (heedStop : Bool) (self : Nat) :
      Reaches t w (v.turn t heedStop self)
  | beside {v : Watch α} (h : Reaches t w v) {m : Machine α} (hbeside : v.machine.Beside m) :
      Reaches t w { v with machine := m }

end Watch

/-- Whether the instruction is part of a call that would settle the task: a cancellation, a failure,
or the attempt itself. -/
def Instr.IsAttempt (t : TaskId) : Instr α → Prop
  | cancel k | fail k _ | settle k _ _ _ => k = t
  | _ => False

/-! ### Work on the task -/

namespace Machine

variable {m m' : Machine α} {t : TaskId} {c : TaskCell α}

theorem mem_workFrom {codes : List (List (Instr α))} {self : Nat} {code : List (Instr α)}
    {i : Instr α} (h : codes[self]? = some code) (hi : i ∈ code) (n : Nat) :
    (n + self, i) ∈ workFrom n codes := by
  induction codes generalizing n self with
  | nil => cases h
  | cons first rest ih =>
    cases self with
    | zero =>
      obtain rfl := Option.some.inj h
      exact List.mem_append_left _ (List.mem_map.mpr ⟨i, hi, rfl⟩)
    | succ self =>
      have hmem := ih h (n + 1)
      rw [Nat.add_right_comm] at hmem
      exact List.mem_append_right _ hmem

/-- What can be seen of a task is what its cell says. -/
theorem cell_eq (hc : m.tasks[t]? = some c) :
    m.state t = c.state ∧ m.outcome t = c.outcome ∧ m.token t = c.token := by
  unfold state outcome token
  rw [hc]
  exact ⟨rfl, rfl, rfl⟩

/-- Work that is not on the task. -/
theorem Returned.task?_ne (h : m.Returned t) {w : Nat × Instr α} (hw : w ∈ m.work) :
    w.2.task? ≠ some t := by
  obtain ⟨code, hcode, hi⟩ := mem_of_mem_workFrom hw
  obtain ⟨s, hs, rfl⟩ := List.mem_map.mp hcode
  exact h s hs w.2 hi

theorem Beside.work_eq (h : m.Beside m') :
    ∃ added, m'.work = m.work ++ added ∧ ∀ w ∈ added, w.2.IsPlain t := by
  obtain ⟨new, hstrands, hcalls⟩ := h.strands
  refine ⟨workFrom m.codes.length (new.map (·.code)), ?_, fun w hw => ?_⟩
  · unfold work codes
    rw [hstrands, List.map_append, workFrom_append, Nat.zero_add]
  · obtain ⟨code, hcode, hi⟩ := mem_of_mem_workFrom hw
    obtain ⟨s, hs, rfl⟩ := List.mem_map.mp hcode
    exact (hcalls s hs w.2 hi).isPlain t

theorem Beside.getElem?_tasks (h : m.Beside m') (hc : m.tasks[t]? = some c) :
    m'.tasks[t]? = some c := by
  obtain ⟨new, htasks⟩ := h.tasks
  rw [htasks, List.getElem?_append_left (List.getElem?_eq_some_iff.mp hc).1]
  exact hc

theorem beside_call (m : Machine α) {code : List (Instr α)} (h : ∀ i ∈ code, i.IsCall) :
    m.Beside (m.call code).2 where
  tasks := ⟨[], (List.append_nil _).symm⟩
  strands := ⟨_, rfl, List.forall_mem_singleton.mpr h⟩

/-- A continuation is created, and a call begins that registers it. -/
theorem beside_continueWith (m : Machine α) (parent : TaskId) (body : Body α) :
    m.Beside (m.continueWith parent body).2 where
  tasks := ⟨_, rfl⟩
  strands := ⟨_, rfl, List.forall_mem_singleton.mpr (List.forall_mem_singleton.mpr trivial)⟩

/-- Whoever comes too late to settle the task changes nothing at all. -/
theorem exec_attempt {heedStop : Bool} {self : Nat} {i : Instr α}
    {settlements : List (TaskResult α)} (hc : m.tasks[t]? = some c)
    (s : TaskCell.Settling t c m.work settlements) (hterminal : c.state.isTerminal = true)
    (hnext : m.next? self = some i) (hi : i.IsAttempt t) :
    ∃ code, m.exec heedStop self i = some (m, code) ∧ ∀ j ∈ code, j.IsAttempt t := by
  cases i with
  | cancel k =>
    obtain rfl : k = t := hi
    refine ⟨[], Rule.exec_eq (.cancelLate ?_), fun _ hj => absurd hj List.not_mem_nil⟩
    simp only [state, hc, Option.map_some, Option.getD_some, hterminal]
  | fail k e => exact ⟨_, rfl, List.forall_mem_singleton.mpr hi⟩
  | settle k old result mode =>
    obtain rfl : k = t := hi
    obtain ⟨code, hcode, hhead⟩ := Option.bind_eq_some_iff.mp hnext
    have hmem := mem_workFrom hcode (List.mem_of_head? hhead) 0
    -- the attempt was made by somebody who saw the task unsettled, so it fails now
    have hold : old.isTerminal = false := s.attempts _ hmem rfl
    have hstate : c.state ≠ old := by
      rintro rfl
      cases hold.symm.trans hterminal
    refine ⟨_, Rule.exec_eq (.settleLate fun d hd => ?_), ?_⟩
    · obtain rfl := Option.some.inj (hc.symm.trans hd)
      exact hstate
    · split_ifs
      · exact List.forall_mem_singleton.mpr rfl
      · exact fun _ hj => absurd hj List.not_mem_nil
  | _ => exact hi.elim

end Machine

namespace Watch

variable {t : TaskId} {w v : Watch α} {c : TaskCell α}

/-- The invariants of the task that is watched. -/
def IsSound (t : TaskId) (w : Watch α) : Prop :=
  ∃ c, w.machine.tasks[t]? = some c ∧ TaskCell.Sound t c w.machine.work w.log

/-- A new task on which there is no work beyond calls. -/
theorem sound_of_isPlain {m : Machine α} (body : Body α) (name : Option String)
    (hplain : ∀ w ∈ m.work, w.2.IsPlain t) :
    TaskCell.Sound t { TaskCell.ofBody body with name } m.work {} := by
  have hempty : TaskCell.Sound t { TaskCell.ofBody body with name } [] {} := by
    refine ⟨⟨.unsettled rfl rfl, ?_, nofun⟩, ⟨fun _ => rfl, Nat.zero_le _, fun _ => Nat.le_refl 0⟩,
      ⟨nofun, ?_, nofun, ?_, fun _ => rfl⟩⟩
    · exact fun _ hw => absurd hw List.not_mem_nil
    · exact fun _ hw => absurd hw List.not_mem_nil
    · exact fun _ hd => absurd hd List.not_mem_nil
  exact (hempty.extend hplain).perm (List.append_nil _ ▸ .refl _)

theorem isSound_of_fresh {m : Machine α} (h : m.Fresh t) : IsSound t ⟨m, {}⟩ := by
  obtain ⟨body, name, hc⟩ := h.cell
  have hplain : ∀ w ∈ m.work, w.2.IsPlain t :=
    fun w hw => Instr.isPlain_of_task?_ne (h.unused.task?_ne hw)
  exact ⟨_, hc, sound_of_isPlain body name hplain⟩

/-- What one step of a strand keeps: the invariants, and what a settled task is. -/
theorem turn_effect (heedStop : Bool) (self : Nat) (hc : w.machine.tasks[t]? = some c)
    (s : TaskCell.Sound t c w.machine.work w.log) :
    ∃ c', (w.turn t heedStop self).machine.tasks[t]? = some c' ∧
      TaskCell.Sound t c' (w.turn t heedStop self).machine.work (w.turn t heedStop self).log ∧
      (c.state.isTerminal = true → c'.state = c.state ∧ c'.outcome = c.outcome) := by
  unfold turn
  cases hstep : w.machine.step heedStop self with
  | none => exact ⟨c, hc, s, fun _ => ⟨rfl, rfl⟩⟩
  | some m =>
    rcases Machine.step_work hstep hc with
      ⟨i, m₁, code, c', rest, added, hnext, hexec, hc', eff, hbefore, hafter, hplain⟩ |
      ⟨hnext, hc', added, hafter, hplain⟩
    · have hs := s.perm hbefore
      rw [hnext]
      dsimp only
      rw [hexec]
      have hs' := ((hs.effect hc eff).extend hplain).perm List.perm_append_comm
      exact ⟨c', hc', hs'.perm hafter.symm, eff.final hs.settling⟩
    · rw [hnext]
      have hs' := (s.extend hplain).perm List.perm_append_comm
      exact ⟨c, hc', hs'.perm hafter.symm, fun _ => ⟨rfl, rfl⟩⟩

theorem Reaches.isSound (h : Reaches t w v) (s : w.IsSound t) : v.IsSound t := by
  induction h with
  | refl => exact s
  | turn _ heedStop self ih =>
    obtain ⟨c, hc, hs⟩ := ih
    obtain ⟨c', hc', hs', -⟩ := turn_effect heedStop self hc hs
    exact ⟨c', hc', hs'⟩
  | beside _ hbeside ih =>
    obtain ⟨c, hc, hs⟩ := ih
    obtain ⟨added, hwork, hplain⟩ := hbeside.work_eq (t := t)
    refine ⟨c, hbeside.getElem?_tasks hc, ?_⟩
    show TaskCell.Sound t c (Machine.work _) _
    rw [hwork]
    exact (hs.extend hplain).perm List.perm_append_comm

/-- **What has settled stays settled.** -/
theorem Reaches.final (h : Reaches t w v) (hc : w.machine.tasks[t]? = some c)
    (s : TaskCell.Sound t c w.machine.work w.log) (hterminal : c.state.isTerminal = true) :
    ∃ c', v.machine.tasks[t]? = some c' ∧ c'.state = c.state ∧ c'.outcome = c.outcome := by
  induction h with
  | refl => exact ⟨c, hc, rfl, rfl⟩
  | turn hreach heedStop self ih =>
    obtain ⟨d, hd, hstate, houtcome⟩ := ih
    obtain ⟨d', hd', hs⟩ := hreach.isSound ⟨c, hc, s⟩
    obtain rfl := Option.some.inj (hd'.symm.trans hd)
    obtain ⟨c', hc', -, hfinal⟩ := turn_effect heedStop self hd hs
    obtain ⟨hstate', houtcome'⟩ := hfinal (hstate ▸ hterminal)
    exact ⟨c', hc', hstate'.trans hstate, houtcome'.trans houtcome⟩
  | beside _ hbeside ih =>
    obtain ⟨d, hd, hsame⟩ := ih
    exact ⟨d, hbeside.getElem?_tasks hd, hsame⟩

/-- When all calls have returned there is nothing left to do for the task. -/
theorem returned_effect (hreturned : w.machine.Returned t)
    (s : TaskCell.Sound t c w.machine.work w.log) :
    (c.state = .cancelled → c.token = true) ∧
      (c.state.isTerminal = true → (w.log.dispatched.map Prod.fst).Perm w.log.registered) := by
  -- nobody is about to give the signal, to seal the list or to dispatch from it
  refine ⟨fun hcancelled => ?_, fun hterminal => List.perm_iff_count.mpr fun child => ?_⟩
  · refine (s.settling.signal hcancelled).resolve_right ?_
    rintro ⟨n, hn⟩
    exact hreturned.task?_ne hn rfl
  · have hsealed : c.sealed = true := by
      refine (s.continuing.sealing hterminal).resolve_right ?_
      rintro ⟨n, hn⟩
      exact hreturned.task?_ne hn rfl
    have hwork : owed t w.machine.work = [] := by
      refine List.flatMap_eq_nil_iff.mpr fun x hx => Instr.children_of_releases ?_
      exact (Instr.isPlain_of_task?_ne (hreturned.task?_ne hx)).releases_eq_false
    rw [s.continuing.conserved child, hwork, (s.continuing.sealed hsealed).2]
    rfl

/-- **A task settles once.**  Let a task be new, and let any number of strands run it, cancel it,
make it fail and register continuations of it, each step of theirs at any time:

* it is settled at most once, and the outcome is what it was settled with; once the state is final,
  neither it nor the outcome changes any more;
* the outcome is there exactly when the state is final, and agrees with it;
* the body is called at most once, by the strand that moved the task from pending to running;
* an attempt to settle the task, be it a cancellation or a failure, that finds it settled changes
  nothing;
* when all calls have returned, the signal of a cancelled task has been given, and every
  continuation of a settled task has been dispatched as often as it was registered;
* no continuation is dispatched before the outcome is there. -/
theorem Reaches.task_settles_once {m : Machine α} (hfresh : m.Fresh t) (h : Reaches t ⟨m, {}⟩ w) :
    w.log.settlements.length ≤ 1 ∧
      w.machine.outcome t = w.log.settlements.head? ∧
      ((w.machine.state t).isTerminal = true → ∀ v, Reaches t w v →
        v.machine.state t = w.machine.state t ∧ v.machine.outcome t = w.machine.outcome t) ∧
      (w.machine.outcome t).isSome = (w.machine.state t).isTerminal ∧
      (w.machine.state t = .completed ↔ ∃ value, w.machine.outcome t = some (.ok value)) ∧
      (w.machine.state t = .cancelled ↔ w.machine.outcome t = some (.error .cancelled)) ∧
      (w.machine.state t = .failed ↔
        ∃ e, e ≠ .cancelled ∧ w.machine.outcome t = some (.error e)) ∧
      w.log.starters.length ≤ 1 ∧
      w.log.callers.Subperm w.log.starters ∧
      ((w.machine.state t).isTerminal = true → ∀ heedStop self i,
        w.machine.next? self = some i → i.IsAttempt t →
          ∃ code, w.machine.exec heedStop self i = some (w.machine, code) ∧
            ∀ j ∈ code, j.IsAttempt t) ∧
      (w.machine.Returned t →
        (w.machine.state t = .cancelled → w.machine.token t = true) ∧
        ((w.machine.state t).isTerminal = true →
          (w.log.dispatched.map Prod.fst).Perm w.log.registered)) ∧
      ∀ d ∈ w.log.dispatched, d.2.isSome = true ∧ d.2 = w.machine.outcome t := by
  -- all of it is read off the invariants at the end of the run
  obtain ⟨c, hc, s⟩ := h.isSound (isSound_of_fresh hfresh)
  have f := s.settling.fate
  obtain ⟨hstate, houtcome, htoken⟩ := Machine.cell_eq hc
  rw [hstate, houtcome, htoken]
  refine ⟨f.length_le, f.outcome_eq, ?_, f.isSome_eq, ?_, ?_, ?_, s.running.once, ?_, ?_, ?_, ?_⟩
  · intro hterminal v hv
    obtain ⟨d, hd, hsame⟩ := hv.final hc s hterminal
    obtain ⟨hstate', houtcome', -⟩ := Machine.cell_eq hd
    rw [hstate', houtcome']
    exact hsame
  · simp only [f.state_eq_iff .completed rfl, TaskResult.state_eq_completed]
    constructor
    · rintro ⟨r, hr, value, rfl⟩
      exact ⟨value, hr⟩
    · rintro ⟨value, hvalue⟩
      exact ⟨_, hvalue, value, rfl⟩
  · simp only [f.state_eq_iff .cancelled rfl, TaskResult.state_eq_cancelled]
    constructor
    · rintro ⟨r, hr, rfl⟩
      exact hr
    · exact fun hcancelled => ⟨_, hcancelled, rfl⟩
  · simp only [f.state_eq_iff .failed rfl, TaskResult.state_eq_failed]
    constructor
    · rintro ⟨r, hr, e, he, rfl⟩
      exact ⟨e, he, hr⟩
    · rintro ⟨e, he, herror⟩
      exact ⟨_, herror, e, he, rfl⟩
  · refine List.subperm_iff_count.mpr fun n => ?_
    exact Nat.le_trans (Nat.le_add_right _ _) (s.running.entering n)
  · intro hterminal heedStop self i hnext hi
    exact Machine.exec_attempt hc s.settling hterminal hnext hi
  · exact fun hreturned => returned_effect hreturned s
  · intro d hd
    exact (s.continuing.published d hd).symm

/-- Let strands take steps, in the order of the list. -/
def turns (t : TaskId) (w : Watch α) (selves : List Nat) : Watch α :=
  selves.foldl (fun w self => w.turn t false self) w

theorem Reaches.turns (h : Reaches t w v) (selves : List Nat) : Reaches t w (v.turns t selves) := by
  induction selves generalizing v with
  | nil => exact h
  | cons self rest ih => exact ih (h.turn false self)

/-- A machine with one new task, whose body returns seven. -/
def oneTask : Machine Nat where
  tasks := [TaskCell.ofBody (.script [] (.done (.returns (.ok 7))))]
  loop := { config := { workers := 1 } }

/-- The task is continued, run and cancelled at once, by the strands 0, 1 and 2. -/
def contested : Machine Nat :=
  let m := (oneTask.continueWith 0 (.andThen 0 none fun v => .returns (.ok (v + 1)))).2
  ((m.call [.start 0]).2.call [.cancel 0]).2

/-- The task is cancelled after it was started and before its body is taken, and the continuation
is registered before the list is sealed. -/
def raced : Watch Nat :=
  turns 0 { machine := contested } [1, 2, 2, 1, 0, 1, 1, 2, 2, 2, 2, 2, 2, 2, 2, 2, 2, 2]

theorem raced_settles_once :
    raced.machine.state 0 = .cancelled ∧ raced.machine.token 0 = true ∧
      raced.log.registered = [1] ∧ (raced.log.dispatched.map Prod.fst).Perm [1] := by
  have hfresh : oneTask.Fresh 0 :=
    ⟨⟨_, none, rfl⟩, fun _ hs => absurd hs List.not_mem_nil⟩
  have hcall : ∀ i : Instr Nat, i.IsCall → ∀ j ∈ [i], j.IsCall :=
    fun _ => List.forall_mem_singleton.mpr
  have hcontested : Reaches 0 { machine := oneTask } { machine := contested } :=
    ((Reaches.refl.beside (oneTask.beside_continueWith 0 _)).beside
      (Machine.beside_call _ (hcall (.start 0) trivial))).beside
      (Machine.beside_call _ (hcall (.cancel 0) trivial))
  obtain ⟨-, -, -, -, -, -, -, -, -, -, hreturned, -⟩ :=
    (hcontested.turns _ : Reaches 0 _ raced).task_settles_once hfresh
  have hcancelled : raced.machine.state 0 = .cancelled := rfl
  have hall : raced.machine.Returned 0 := by
    have hcodes : raced.machine.codes = [[], [], []] := rfl
    intro s hs i hi
    have hmem : s.code ∈ raced.machine.codes := List.mem_map.mpr ⟨s, hs, rfl⟩
    rw [hcodes] at hmem
    have hnil : s.code = [] := by simpa using hmem
    rw [hnil] at hi
    cases hi
  obtain ⟨htoken, hdispatched⟩ := hreturned hall
  exact ⟨hcancelled, htoken hcancelled, rfl, hdispatched (hcancelled ▸ rfl)⟩

end Watch

end ManagedHost
