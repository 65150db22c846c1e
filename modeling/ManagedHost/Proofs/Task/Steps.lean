import ManagedHost.Proofs.Task.Rules
import Mathlib.Data.List.Basic
import Mathlib.Data.List.Perm.Basic

/-!
# What a step does to a task

The strands of the machine carry out their instructions in any order.  A task is concerned by few of
them, and each of these changes its cell in one way: that is `TaskEffect`, and `exec_affects` says
that an instruction has no other effect on the task.

The work that the strands have before them is a list of instructions, each with the number of its
strand (`Machine.work`).  A step replaces one entry by those that follow from it (`step_work`).
-/

namespace ManagedHost

variable {α : Type}

/-! ### Instructions -/

namespace Instr

/-- The task on which the instruction is part of a call, if it is: of a run, including the body, a
cancellation, a failure, a registration or the settlement that one of them brought about. -/
def task? : Instr α → Option TaskId
  | start t | enter t | hold t | perform t _ _ | andThen t _ _ _ | orElse t _ _ _
  | awaitPromise t _ | awaitAll t _ _ _ | awaitAny t _ | settle t _ _ _ | signal t | release t
  | dispatch t _ | register t _ | dropBody t | cancel t | fail t _ => some t
  | _ => none

/-- Whether a caller can begin with the instruction.  A task's signal can be given by anybody who
has it. -/
def IsCall : Instr α → Prop
  | start _ | cancel _ | fail _ _ | register _ _ | signal _ | submit _ _ | microtask _ _
  | cancelTimer _ | stopLoop | stopScheduler => True
  | _ => False

/-- Whether the instruction may come up at any time, whatever the state of the task is.  Others are
left behind by a step on the task only. -/
def IsPlain (t : TaskId) : Instr α → Prop
  | enter k | release k | dispatch k _ => k ≠ t
  | settle k old _ _ => k = t → old.isTerminal = false
  | _ => True

/-- Whether the instruction is plain for every task. -/
def isAlwaysPlain : Instr α → Bool
  | enter _ | release _ | dispatch _ _ => false
  | settle _ old _ _ => !old.isTerminal
  | _ => true

/-- Whether the instruction does nothing that the callers of the task rely on, when its cell is
`c`. -/
def IsIdle (t : TaskId) (c : TaskCell α) : Instr α → Prop
  | start k => k = t → c.state ≠ .pending
  | settle k old _ _ => k = t → c.state ≠ old
  | enter k | signal k | release k | dispatch k _ | register k _ => k ≠ t
  | _ => True

/-- The task that the instruction runs or hands to the loop as a continuation, if it does. -/
def handed? : Instr α → Option TaskId
  | start k => some k
  | microtask k false => some k
  | _ => none

theorem isPlain_of_task?_ne {t : TaskId} {i : Instr α} (h : i.task? ≠ some t) : i.IsPlain t := by
  cases i with
  | enter k => exact fun hk => h (congrArg some hk)
  | release k => exact fun hk => h (congrArg some hk)
  | dispatch k children => exact fun hk => h (congrArg some hk)
  | settle k old result mode => exact fun hk => absurd (congrArg some hk) h
  | _ => trivial

theorem isPlain_of_isAlwaysPlain {i : Instr α} (h : i.isAlwaysPlain = true) (t : TaskId) :
    i.IsPlain t := by
  cases i with
  | settle k old result mode => exact fun _ => by simpa [isAlwaysPlain] using h
  | enter => cases h
  | release => cases h
  | dispatch => cases h
  | _ => trivial

theorem IsCall.isPlain {i : Instr α} (h : i.IsCall) (t : TaskId) : i.IsPlain t := by
  cases i with
  | enter => exact h.elim
  | release => exact h.elim
  | dispatch => exact h.elim
  | settle => exact h.elim
  | _ => trivial

end Instr

/-! ### The effect on one task -/

/-- Two cells of a task between which nothing has happened that its callers rely on. -/
structure TaskCell.Same (c c' : TaskCell α) : Prop where
  state : c'.state = c.state
  outcome : c'.outcome = c.outcome
  token : c.token = true → c'.token = true
  sealed : c'.sealed = c.sealed
  continuations : c'.continuations = c.continuations

theorem TaskCell.Same.refl (c : TaskCell α) : c.Same c := ⟨rfl, rfl, id, rfl, rfl⟩

theorem TaskCell.same_signal (c : TaskCell α) : c.Same c.signal :=
  ⟨rfl, rfl, fun _ => rfl, rfl, rfl⟩

theorem TaskCell.same_bound (c : TaskCell α) : c.Same { c with bound := true } :=
  ⟨rfl, rfl, id, rfl, rfl⟩

theorem TaskCell.same_dropBody (c : TaskCell α) : c.Same { c with body := none } :=
  ⟨rfl, rfl, id, rfl, rfl⟩

/-- **The effect of an instruction on the task `t`**, whose cell is `c`: the cell afterwards, and
the instructions that follow. -/
inductive TaskEffect (t : TaskId) (c : TaskCell α) :
    Instr α → TaskCell α → List (Instr α) → Prop where
  | started (hstate : c.state = .pending) :
      TaskEffect t c (.start t) { c with state := .running } [.enter t]
  | entered {code : List (Instr α)} (hplain : ∀ j ∈ code, j.IsPlain t) :
      TaskEffect t c (.enter t) { c with body := none } code
  | settled {old : TaskState} {result : TaskResult α} {mode : SettleMode} {code : List (Instr α)}
      (hstate : c.state = old) (hplain : ∀ j ∈ code, j.IsPlain t) :
      TaskEffect t c (.settle t old result mode)
        { c with state := result.state, outcome := some result }
        ((if result.state = .cancelled then [.signal t] else []) ++ .release t :: code)
  | signalled : TaskEffect t c (.signal t) c.signal []
  | released :
      TaskEffect t c (.release t) { c with sealed := true, continuations := [] }
        [.dispatch t c.continuations]
  | dispatched {children : List TaskId} {code : List (Instr α)}
      (hplain : ∀ j ∈ code, j.IsPlain t) (hhanded : code.filterMap Instr.handed? = children) :
      TaskEffect t c (.dispatch t children) c code
  | registered {child : TaskId} (hopen : c.sealed = false) :
      TaskEffect t c (.register t child) { c with continuations := c.continuations ++ [child] } []
  | late {child : TaskId} (hsealed : c.sealed = true) :
      TaskEffect t c (.register t child) c [.dispatch t [child]]
  | idle {i : Instr α} {c' : TaskCell α} {code : List (Instr α)} (hidle : i.IsIdle t c)
      (hsame : c.Same c') (hplain : ∀ j ∈ code, j.IsPlain t) : TaskEffect t c i c' code

namespace Machine

variable {m m' : Machine α} {t k : TaskId} {c : TaskCell α}

theorem getElem?_modify_self (hc : m.tasks[t]? = some c) (f : TaskCell α → TaskCell α) :
    (m.modify t f).tasks[t]? = some (f c) := by
  unfold modify
  dsimp only
  rw [List.getElem?_modify_eq, hc]
  rfl

theorem getElem?_modify_ne (hk : k ≠ t) (f : TaskCell α → TaskCell α) :
    (m.modify k f).tasks[t]? = m.tasks[t]? :=
  List.getElem?_modify_ne f m.tasks hk

/-- The code of the strands. -/
def codes (m : Machine α) : List (List (Instr α)) := m.strands.map (·.code)

/-- The instruction that the strand carries out next. -/
def next? (m : Machine α) (self : Nat) : Option (Instr α) := m.codes[self]?.bind List.head?

/-- The code of the strands when one of them has changed. -/
theorem codes_modify (m : Machine α) (self : Nat) (f : Strand α → Strand α) :
    codes { m with strands := m.strands.modify self f } =
      ((m.strands[self]?.map fun s => m.codes.set self (f s).code).getD m.codes) := by
  unfold codes
  dsimp only
  rw [List.modify_eq_set_getElem?]
  cases m.strands[self]? with
  | none => rfl
  | some s => exact List.map_set

theorem codes_put (m : Machine α) (self : Nat) {f : Strand α → Strand α} {new : List (Instr α)}
    (hf : ∀ s, (f s).code = new) :
    codes { m with strands := m.strands.modify self f } = m.codes.set self new := by
  rw [codes_modify]
  cases hs : m.strands[self]? with
  | some s => exact congrArg _ (hf s)
  | none =>
    have hlength : m.codes.length ≤ self := by
      unfold codes
      rw [List.length_map]
      exact List.getElem?_eq_none_iff.mp hs
    exact (List.set_eq_of_length_le hlength).symm

theorem codes_set_self {self : Nat} {s : Strand α} (hs : m.strands[self]? = some s) :
    m.codes.set self s.code = m.codes := by
  unfold codes
  obtain ⟨hlt, rfl⟩ := List.getElem?_eq_some_iff.mp hs
  rw [← List.map_set, List.set_getElem_self]

theorem getElem?_codes {self : Nat} {s : Strand α} (hs : m.strands[self]? = some s) :
    m.codes[self]? = some s.code := by
  unfold codes
  rw [List.getElem?_map, hs]
  rfl

/-! ### Carrying out an instruction -/

/-- What carrying out the instruction does to the task `t`, whose cell is `c`, if it need not wait.
New strands have no part in it. -/
def Affects (m : Machine α) (t : TaskId) (c : TaskCell α) (i : Instr α)
    (result : Option (Machine α × List (Instr α))) : Prop :=
  ∀ m' code, result = some (m', code) →
    (∃ c', m'.tasks[t]? = some c' ∧ TaskEffect t c i c' code) ∧
      ∃ added, m'.codes = m.codes ++ added ∧ ∀ code ∈ added, ∀ j ∈ code, j.IsPlain t

section Affects

variable {i : Instr α} {code : List (Instr α)}

theorem affects_of_effect {c' : TaskCell α} (hc' : m'.tasks[t]? = some c')
    (hcodes : m'.codes = m.codes) (h : TaskEffect t c i c' code) :
    m.Affects t c i (some (m', code)) := by
  intro m'' code' heq
  obtain ⟨rfl, rfl⟩ := Prod.mk.inj (Option.some.inj heq)
  exact ⟨⟨c', hc', h⟩, [], hcodes.trans (List.append_nil _).symm,
    fun _ h => absurd h List.not_mem_nil⟩

/-- The instruction changes no task. -/
theorem affects_idle (hc : m.tasks[t]? = some c) (htasks : m'.tasks = m.tasks)
    (hcodes : m'.codes = m.codes) (hidle : i.IsIdle t c) (hplain : ∀ j ∈ code, j.IsPlain t) :
    m.Affects t c i (some (m', code)) := by
  refine affects_of_effect ?_ hcodes (.idle hidle (.refl c) hplain)
  rw [htasks]
  exact hc

/-- The instruction replaces the cell of a task, perhaps of another one. -/
theorem affects_replace {d d' : TaskCell α} (hc : m.tasks[t]? = some c)
    (hd : m.tasks[k]? = some d) (heffect : TaskEffect k d i d' code)
    (hidle : k ≠ t → i.IsIdle t c) (hplain : k ≠ t → ∀ j ∈ code, j.IsPlain t) :
    m.Affects t c i (some (m.modify k fun _ => d', code)) := by
  by_cases hk : k = t
  · subst hk
    obtain rfl := Option.some.inj (hd.symm.trans hc)
    exact affects_of_effect (getElem?_modify_self hc _) rfl heffect
  · exact affects_of_effect ((getElem?_modify_ne hk _).trans hc) rfl
      (.idle (hidle hk) (.refl c) (hplain hk))

/-- The instruction changes any task, but nothing that its callers rely on. -/
theorem affects_same (hc : m.tasks[t]? = some c) (f : TaskCell α → TaskCell α)
    (hf : ∀ c : TaskCell α, c.Same (f c)) (htasks : m'.tasks = (m.modify k f).tasks)
    (hcodes : m'.codes = m.codes) (hidle : i.IsIdle t c) (hplain : ∀ j ∈ code, j.IsPlain t) :
    m.Affects t c i (some (m', code)) := by
  by_cases hk : k = t
  · subst hk
    refine affects_of_effect ?_ hcodes (.idle hidle (hf c) hplain)
    rw [htasks]
    exact getElem?_modify_self hc f
  · refine affects_of_effect ?_ hcodes (.idle hidle (.refl c) hplain)
    rw [htasks, getElem?_modify_ne hk]
    exact hc

theorem isPlain_of_all (h : code.all Instr.isAlwaysPlain = true) : ∀ j ∈ code, j.IsPlain t :=
  fun j hj => Instr.isPlain_of_isAlwaysPlain (List.all_eq_true.mp h j hj) t

/-- The instruction changes no task, and what follows may come up at any time. -/
theorem affects_aside (hc : m.tasks[t]? = some c) (htasks : m'.tasks = m.tasks)
    (hcodes : m'.codes = m.codes) (hidle : i.IsIdle t c)
    (hcode : code.all Instr.isAlwaysPlain = true) : m.Affects t c i (some (m', code)) :=
  affects_idle hc htasks hcodes hidle (isPlain_of_all hcode)

theorem isPlain_nil : ∀ j ∈ ([] : List (Instr α)), j.IsPlain t :=
  fun _ hj => absurd hj List.not_mem_nil

/-- A task that is not there cannot be entered, released and so on. -/
theorem ne_of_getElem?_none (hc : m.tasks[t]? = some c) (hnone : m.tasks[k]? = none) : k ≠ t := by
  rintro rfl
  cases hc.symm.trans hnone

/-- The continuations that are run or handed to the loop, in their order. -/
theorem filterMap_handed (bound : Bool) (children : List TaskId) :
    (children.map fun k => if bound then Instr.microtask (α := α) k false else .start k).filterMap
      Instr.handed? = children := by
  rw [List.filterMap_map]
  refine (List.filterMap_congr fun child _ => ?_).trans List.filterMap_some
  rw [Function.comp_apply]
  split_ifs <;> rfl

theorem codes_answer (m : Machine α) (self : Nat) (result : Option (TaskResult Unit)) :
    codes { m with strands := m.strands.modify self fun s => { s with answer := result } } =
      m.codes := by
  rw [codes_modify]
  cases hs : m.strands[self]? with
  | none => rfl
  | some s => exact codes_set_self (s := s) hs

theorem Rule.affects {heedStop : Bool} {self : Nat} (h : m.Rule heedStop self i m' code)
    (hc : m.tasks[t]? = some c) : m.Affects t c i (some (m', code)) := by
  -- whatever the body is, it is taken, and the instruction that follows is plain
  have htaken : ∀ {k d j}, m.tasks[k]? = some d → Instr.isAlwaysPlain j = true →
      m.Affects t c (.enter k) (some (m.modify k fun _ => { d with body := none }, [j])) := by
    intro k d j hd hj
    have hplain : ∀ t, ∀ j' ∈ [j], Instr.IsPlain t j' :=
      fun t => List.forall_mem_singleton.mpr (Instr.isPlain_of_isAlwaysPlain hj t)
    exact affects_replace hc hd (.entered (hplain k)) id fun _ => hplain t
  cases h with
  | start hd hpending =>
    exact affects_replace hc hd (.started hpending) (fun hk h => absurd h hk)
      fun hk => List.forall_mem_singleton.mpr hk
  | startLate hlate => exact affects_idle hc rfl rfl (fun hk => hlate c (hk ▸ hc)) isPlain_nil
  | enterNone hnone | releaseNone hnone | dispatchNone hnone | registerNone hnone =>
    exact affects_idle hc rfl rfl (ne_of_getElem?_none hc hnone) isPlain_nil
  | enterMissing hd | enterScript hd | enterAndThen hd | enterOrElse hd | enterAll hd
  | enterRace hd => exact htaken hd rfl
  | enterPromise hd =>
    -- its setup gets a strand of its own
    intro m' code heq
    obtain ⟨rfl, rfl⟩ := Prod.mk.inj (Option.some.inj heq)
    obtain ⟨heffect, -⟩ := htaken (j := .awaitPromise _ _) hd rfl _ _ rfl
    refine ⟨heffect, [[.setup _ _]], List.map_append, ?_⟩
    exact List.forall_mem_singleton.mpr (List.forall_mem_singleton.mpr trivial)
  | signalSelf =>
    exact affects_same hc TaskCell.signal TaskCell.same_signal rfl rfl trivial (isPlain_of_all rfl)
  | @settle k old result mode d hd hold =>
    have hdrop : ∀ t, ∀ j ∈ (if mode = .run then [] else [Instr.dropBody k] : List (Instr α)),
        j.IsPlain t := fun t => isPlain_of_all (by cases mode <;> rfl)
    rw [List.append_assoc]
    refine affects_replace hc hd (.settled hold (hdrop k)) (fun hk h => absurd h hk)
      fun hk => List.forall_mem_append.mpr
        ⟨isPlain_of_all ?_, List.forall_mem_cons.mpr ⟨hk, hdrop t⟩⟩
    split_ifs <;> rfl
  | settleLate hlate =>
    exact affects_idle hc rfl rfl (fun hk => hlate c (hk ▸ hc)) (forall_retried trivial _)
  | @signal k =>
    by_cases hk : k = t
    · subst hk
      exact affects_of_effect (getElem?_modify_self hc _) rfl .signalled
    · exact affects_of_effect ((getElem?_modify_ne hk _).trans hc) rfl
        (.idle hk (.refl c) isPlain_nil)
  | release hd =>
    exact affects_replace hc hd .released id fun hk => List.forall_mem_singleton.mpr hk
  | @dispatch k children d hd =>
    have hplain : ∀ j ∈ (children.map fun k =>
        if d.bound then .microtask k false else .start k : List (Instr α)), j.IsPlain t :=
      forall_dispatched (fun _ _ => trivial) (fun _ _ => trivial) d.bound
    by_cases hk : k = t
    · subst hk
      exact affects_of_effect hc rfl (.dispatched hplain (filterMap_handed _ _))
    · exact affects_idle hc rfl rfl hk hplain
  | register hd hopen => exact affects_replace hc hd (.registered hopen) id fun _ => isPlain_nil
  | @registerLate k child d hd hsealed =>
    by_cases hk : k = t
    · subst hk
      obtain rfl := Option.some.inj (hd.symm.trans hc)
      exact affects_of_effect hc rfl (.late hsealed)
    · exact affects_idle hc rfl rfl hk (List.forall_mem_singleton.mpr hk)
  | dropBody => exact affects_same hc _ TaskCell.same_dropBody rfl rfl trivial isPlain_nil
  | cancel hopen =>
    exact affects_idle hc rfl rfl trivial (List.forall_mem_singleton.mpr fun _ => hopen)
  -- a task that is handed to the loop is bound to it
  | submit => exact affects_same hc _ TaskCell.same_bound rfl rfl trivial (isPlain_of_all rfl)
  | @microtask k caller =>
    exact affects_same hc _ TaskCell.same_bound rfl rfl trivial
      (isPlain_of_all (by cases caller <;> rfl))
  | @microtaskRefused k caller =>
    exact affects_aside hc rfl rfl trivial (by cases caller <;> rfl)
  | @submitRefused k who | @enqueueRefused k who | @enqueue k who =>
    cases who <;> exact affects_aside hc rfl rfl trivial rfl
  | answer => exact affects_idle hc rfl (codes_answer m self _) trivial isPlain_nil
  | scanDone =>
    exact affects_idle hc rfl rfl trivial (List.forall_mem_map.mpr fun _ _ => trivial)
  | fireAgain =>
    -- the new task comes behind those that are there
    refine affects_of_effect ?_ rfl (.idle trivial (.refl c) (isPlain_of_all rfl))
    exact (List.getElem?_append_left (List.getElem?_eq_some_iff.mp hc).1).trans hc
  | sweepLoop =>
    exact affects_idle hc rfl rfl trivial (forall_swept (fun _ _ => trivial) fun _ _ => trivial)
  | stopScheduler =>
    exact affects_idle hc rfl rfl trivial (forall_drained trivial (fun _ _ => trivial) trivial)
  -- the others are about the loop, its timers and promises, and the scheduler
  | _ => exact affects_aside hc rfl rfl trivial rfl

end Affects

/-- **What an instruction does to a task.** -/
theorem exec_affects (heedStop : Bool) (self : Nat) (hc : m.tasks[t]? = some c) (i : Instr α) :
    m.Affects t c i (m.exec heedStop self i) :=
  fun m' code h => (exec_ruled h).affects hc m' code rfl

/-! ### Strands without code -/

theorem isPlain_runTask (k : TaskId) : ∀ j ∈ runTask (α := α) k, j.IsPlain t := by
  unfold runTask
  simp only [List.forall_mem_cons]
  exact ⟨trivial, trivial, trivial, isPlain_nil⟩

/-- A strand that has worked off its code may find more to do, but does nothing to a task. -/
theorem idleStep_effect {heedStop : Bool} {role : Role} {code : List (Instr α)} {exited : Bool}
    (h : m.idleStep heedStop role = some (m', code, exited)) (hc : m.tasks[t]? = some c) :
    m'.tasks[t]? = some c ∧ m'.codes = m.codes ∧ ∀ j ∈ code, j.IsPlain t := by
  cases role with
  | caller => cases h
  | worker =>
    simp only [idleStep] at h
    split_ifs at h
    · obtain ⟨rfl, rfl, -⟩ := h
      exact ⟨hc, rfl, isPlain_nil⟩
    · split at h
      · obtain ⟨rfl, rfl, -⟩ := h
        exact ⟨hc, rfl, isPlain_runTask _⟩
      · cases h
  | microtasks =>
    simp only [idleStep] at h
    split_ifs at h
    · obtain ⟨rfl, rfl, -⟩ := h
      exact ⟨hc, rfl, isPlain_nil⟩
    · obtain ⟨rfl, rfl, -⟩ := h
      refine ⟨hc, rfl, fun j hj => ?_⟩
      obtain ⟨k, -, hk⟩ := List.mem_flatMap.mp hj
      exact isPlain_runTask k j hk
  | timers =>
    simp only [idleStep] at h
    split_ifs at h
    · obtain ⟨rfl, rfl, -⟩ := h
      exact ⟨hc, rfl, isPlain_nil⟩
    · obtain ⟨rfl, rfl, -⟩ := h
      exact ⟨hc, rfl, List.forall_mem_singleton.mpr trivial⟩
  | dispatcher =>
    simp only [idleStep] at h
    split_ifs at h
    · obtain ⟨rfl, rfl, -⟩ := h
      exact ⟨hc, rfl, isPlain_nil⟩
    · split at h
      · obtain ⟨rfl, rfl, -⟩ := h
        exact ⟨hc, rfl, List.forall_mem_singleton.mpr trivial⟩
      · cases h

/-! ### Work -/

/-- The instructions of the strands from number `n` on, each with the number of its strand. -/
def workFrom : Nat → List (List (Instr α)) → List (Nat × Instr α)
  | _, [] => []
  | n, code :: rest => code.map (n, ·) ++ workFrom (n + 1) rest

/-- The work that the strands have before them. -/
def work (m : Machine α) : List (Nat × Instr α) := workFrom 0 m.codes

theorem workFrom_append (n : Nat) (codes more : List (List (Instr α))) :
    workFrom n (codes ++ more) = workFrom n codes ++ workFrom (n + codes.length) more := by
  induction codes generalizing n with
  | nil => rfl
  | cons code rest ih =>
    rw [List.cons_append, workFrom, workFrom, ih, List.append_assoc, List.length_cons,
      Nat.add_right_comm, Nat.add_assoc]

theorem mem_of_mem_workFrom {n : Nat} {codes : List (List (Instr α))} {w : Nat × Instr α}
    (h : w ∈ workFrom n codes) : ∃ code ∈ codes, w.2 ∈ code := by
  induction codes generalizing n with
  | nil => exact absurd h List.not_mem_nil
  | cons code rest ih =>
    rcases List.mem_append.mp h with h | h
    · obtain ⟨i, hi, rfl⟩ := List.mem_map.mp h
      exact ⟨code, List.mem_cons_self, hi⟩
    · obtain ⟨code', hcode', hw⟩ := ih h
      exact ⟨code', List.mem_cons_of_mem _ hcode', hw⟩

/-- The work of one strand can be replaced. -/
theorem perm_workFrom_set {codes : List (List (Instr α))} {self : Nat} {code : List (Instr α)}
    (h : codes[self]? = some code) (n : Nat) :
    ∃ others, ∀ new, (workFrom n (codes.set self new)).Perm (new.map (n + self, ·) ++ others) := by
  induction codes generalizing n self with
  | nil => cases h
  | cons first rest ih =>
    cases self with
    | zero => exact ⟨workFrom (n + 1) rest, fun new => .refl _⟩
    | succ self =>
      obtain ⟨others, hothers⟩ := ih h (n + 1)
      refine ⟨first.map (n, ·) ++ others, fun new => ?_⟩
      have hnew := hothers new
      rw [Nat.add_right_comm] at hnew
      exact (hnew.append_left (first.map (n, ·))).trans (List.perm_append_comm_assoc _ _ _)

/-- The work of one strand is replaced, and there may be new strands. -/
theorem exists_perm_work {self : Nat} {s : Strand α} (hs : m.strands[self]? = some s) :
    ∃ others, m.work.Perm (s.code.map (self, ·) ++ others) ∧
      ∀ (m' : Machine α) new more, m'.codes = m.codes.set self new ++ more →
        m'.work.Perm (new.map (self, ·) ++ others ++ workFrom m.codes.length more) := by
  obtain ⟨others, hothers⟩ := perm_workFrom_set (getElem?_codes hs) 0
  rw [Nat.zero_add] at hothers
  refine ⟨others, ?_, ?_⟩
  · have hsame := hothers s.code
    rwa [codes_set_self hs] at hsame
  · intro m' new more hcodes
    unfold work
    rw [hcodes, workFrom_append, Nat.zero_add, List.length_set]
    exact (hothers new).append_right _

/-- **What a step does**: it carries out the first instruction of a strand, or gives a strand that
has none something to do. -/
theorem step_work {heedStop : Bool} {self : Nat} (h : m.step heedStop self = some m')
    (hc : m.tasks[t]? = some c) :
    (∃ i m₁ code c' rest added, m.next? self = some i ∧ m.exec heedStop self i = some (m₁, code) ∧
      m'.tasks[t]? = some c' ∧ TaskEffect t c i c' code ∧ m.work.Perm ((self, i) :: rest) ∧
      m'.work.Perm (code.map (self, ·) ++ rest ++ added) ∧ ∀ w ∈ added, w.2.IsPlain t) ∨
    (m.next? self = none ∧ m'.tasks[t]? = some c ∧
      ∃ added, m'.work.Perm (m.work ++ added) ∧ ∀ w ∈ added, w.2.IsPlain t) := by
  unfold step at h
  split at h
  · cases h
  · next s hs =>
    obtain ⟨others, hwork, hreplace⟩ := exists_perm_work hs
    have hnext : m.next? self = s.code.head? := by
      unfold next?
      rw [getElem?_codes hs]
      rfl
    split_ifs at h
    split at h
    -- the strand carries out `i`; the strands that this may start come last
    · next i rest hcode =>
      obtain ⟨⟨m₁, code⟩, hexec, rfl⟩ := Option.map_eq_some_iff.mp h
      obtain ⟨⟨c', hc', heffect⟩, more, hcodes, hplain⟩ :=
        exec_affects heedStop self hc i m₁ code hexec
      rw [hcode] at hwork hnext
      have hlt := (List.getElem?_eq_some_iff.mp (getElem?_codes hs)).1
      have hput := codes_put m₁ self (f := fun s => { s with code := code ++ rest }) fun _ => rfl
      rw [hcodes, List.set_append_left _ _ hlt] at hput
      have hafter := hreplace _ (code ++ rest) more hput
      rw [List.map_append, List.append_assoc (code.map _)] at hafter
      refine Or.inl ⟨i, m₁, code, c', rest.map (self, ·) ++ others, workFrom m.codes.length more,
        hnext, hexec, hc', heffect, hwork, hafter, ?_⟩
      intro w hw
      obtain ⟨code', hcode', hj⟩ := mem_of_mem_workFrom hw
      exact hplain code' hcode' w.2 hj
    -- its code is worked off, so whatever it finds to do is new
    · next hcode =>
      obtain ⟨⟨m₁, code, exited⟩, hidle, rfl⟩ := Option.map_eq_some_iff.mp h
      obtain ⟨htask, hcodes, hplain⟩ := idleStep_effect hidle hc
      rw [hcode] at hwork hnext
      have hput := codes_put m₁ self (f := fun s => { s with code, exited }) fun _ => rfl
      rw [hcodes, ← List.append_nil (m.codes.set self code)] at hput
      have hafter := hreplace _ code [] hput
      refine Or.inr ⟨hnext, htask, code.map (self, ·), ?_, ?_⟩
      · rw [show workFrom m.codes.length [] = ([] : List (Nat × Instr α)) from rfl,
          List.append_nil] at hafter
        exact hafter.trans (List.perm_append_comm.trans (hwork.symm.append_right _))
      · intro w hw
        obtain ⟨j, hj, rfl⟩ := List.mem_map.mp hw
        exact hplain j hj

end Machine

end ManagedHost
