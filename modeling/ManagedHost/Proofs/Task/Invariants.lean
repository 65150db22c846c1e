import ManagedHost.Proofs.Task.Steps

/-!
# The invariants of a task

Three invariants say what is true of a task while any number of strands work on it.  Each is about
the cell, the work that the strands have before them, and what has been seen of the task so far:

* `TaskCell.Settling`: the outcome is there exactly when the state is final, and is the first
  settlement.
* `TaskCell.Running`: who calls the body has moved the task from pending to running.
* `TaskCell.Continuing`: a continuation that was registered is on the list, about to be
  dispatched, or dispatched, and it is one of them only once.

`TaskCell.Sound.effect` is the step: every instruction keeps all three.
-/

namespace ManagedHost

variable {α : Type}

/-! ### What is seen of a task -/

/-- What has been seen of a task. -/
structure TaskLog (α : Type) where
  /-- The strands that moved the task from pending to running. -/
  starters : List Nat := []
  /-- The strands that called the body. -/
  callers : List Nat := []
  /-- The results that the task was settled with. -/
  settlements : List (TaskResult α) := []
  /-- The continuations that were registered. -/
  registered : List TaskId := []
  /-- The continuations that were dispatched, each with the task's outcome at that moment. -/
  dispatched : List (TaskId × Option (TaskResult α)) := []

/-- What is seen of the task `t` when the strand `self` carries out an instruction in the machine
`m`, and `code` follows. -/
def TaskLog.observe (log : TaskLog α) (t : TaskId) (m : Machine α) (self : Nat) (i : Instr α)
    (code : List (Instr α)) : TaskLog α :=
  match i with
  | .start k =>
    if k = t ∧ (m.tasks[t]?.bind TaskCell.start?).isSome then
      { log with starters := log.starters ++ [self] }
    else log
  | .enter k =>
    if k = t ∧ (m.tasks[t]?.bind TaskCell.body).isSome then
      { log with callers := log.callers ++ [self] }
    else log
  | .settle k old result _ =>
    if k = t ∧ (m.tasks[t]?.bind (·.settle? old result)).isSome then
      { log with settlements := log.settlements ++ [result] }
    else log
  | .register k child =>
    if k = t then { log with registered := log.registered ++ [child] } else log
  | .dispatch k _ =>
    if k = t then
      { log with
        dispatched := log.dispatched ++ (code.filterMap Instr.handed?).map (·, m.outcome t) }
    else log
  | _ => log

section Observe

variable {t : TaskId} {c : TaskCell α} {self : Nat} {i : Instr α} {code : List (Instr α)}
  {m : Machine α} {log : TaskLog α}

theorem observe_of_isIdle (hc : m.tasks[t]? = some c) (h : i.IsIdle t c) :
    log.observe t m self i code = log := by
  cases i with
  | start k =>
    refine if_neg fun hstart => ?_
    have hstate := h hstart.1
    simp [hc, TaskCell.start?, hstate] at hstart
  | settle k old result mode =>
    refine if_neg fun hsettle => ?_
    have hstate := h hsettle.1
    simp [hc, TaskCell.settle?, hstate] at hsettle
  | enter k => exact if_neg fun hk => h hk.1
  | register k child => exact if_neg h
  | dispatch k children => exact if_neg h
  | _ => rfl

theorem observe_started (hc : m.tasks[t]? = some c) (hstate : c.state = .pending) :
    log.observe t m self (.start t) code = { log with starters := log.starters ++ [self] } := by
  simp [TaskLog.observe, hc, TaskCell.start?, hstate]

theorem observe_settled (hc : m.tasks[t]? = some c) {old : TaskState} (hstate : c.state = old)
    (result : TaskResult α) (mode : SettleMode) :
    log.observe t m self (.settle t old result mode) code =
      { log with settlements := log.settlements ++ [result] } := by
  simp [TaskLog.observe, hc, TaskCell.settle?, hstate]

theorem observe_entered :
    log.observe t m self (.enter t) code =
      { log with
        callers := log.callers ++
          if (m.tasks[t]?.bind TaskCell.body).isSome then [self] else [] } := by
  show (if t = t ∧ _ then _ else _) = _
  by_cases hbody : (m.tasks[t]?.bind TaskCell.body).isSome
  · rw [if_pos ⟨rfl, hbody⟩, if_pos hbody]
  · rw [if_neg fun h => hbody h.2, if_neg hbody, List.append_nil]

theorem observe_registered (child : TaskId) :
    log.observe t m self (.register t child) code =
      { log with registered := log.registered ++ [child] } :=
  if_pos rfl

theorem observe_dispatched {children : List TaskId} (h : code.filterMap Instr.handed? = children) :
    log.observe t m self (.dispatch t children) code =
      { log with dispatched := log.dispatched ++ children.map (·, m.outcome t) } := by
  rw [← h]
  exact if_pos rfl

end Observe

/-! ### What an instruction is about to do -/

namespace Instr

/-- An attempt to settle the task expects it to be unsettled. -/
def ExpectsOpen (t : TaskId) : Instr α → Prop
  | settle k old _ _ => k = t → old.isTerminal = false
  | _ => True

/-- Whether the strand `n` is about to call the body of the task. -/
def enters (t : TaskId) (n : Nat) : Nat × Instr α → Bool
  | (self, enter k) => self == n && k == t
  | _ => false

/-- Whether the instruction is left behind by a settlement of the task or by a registration that
came after one. -/
def releases (t : TaskId) : Instr α → Bool
  | release k | dispatch k _ => k = t
  | _ => false

/-- The continuations of the task that the instruction is about to dispatch. -/
def children (t : TaskId) : Instr α → List TaskId
  | dispatch k children => if k = t then children else []
  | _ => []

variable {t : TaskId} {i : Instr α}

theorem enters_enter (t : TaskId) (n self : Nat) :
    enters t n (self, (enter t : Instr α)) = (self == n) := by
  show (self == n && t == t) = (self == n)
  rw [beq_self_eq_true, Bool.and_true]

theorem children_dispatch (t : TaskId) (l : List TaskId) :
    (dispatch t l : Instr α).children t = l :=
  if_pos rfl

theorem children_of_releases (h : i.releases t = false) : i.children t = [] := by
  cases i with
  | dispatch k children => exact if_neg (of_decide_eq_false h)
  | _ => rfl

theorem ne_release_of_releases (h : i.releases t = false) : release t ≠ i := by
  rintro rfl
  exact of_decide_eq_false h rfl

theorem IsPlain.expectsOpen (h : i.IsPlain t) : i.ExpectsOpen t := by
  cases i with
  | settle => exact h
  | _ => trivial

theorem IsPlain.enters_eq_false (h : i.IsPlain t) (n self : Nat) :
    enters t n (self, i) = false := by
  cases i with
  | enter k =>
    have hk : k ≠ t := h
    simp [enters, hk]
  | _ => rfl

theorem IsPlain.releases_eq_false (h : i.IsPlain t) : i.releases t = false := by
  cases i with
  | release k => exact decide_eq_false h
  | dispatch k children => exact decide_eq_false h
  | _ => rfl

theorem IsIdle.releases_eq_false {c : TaskCell α} (h : i.IsIdle t c) : i.releases t = false := by
  cases i with
  | release k => exact decide_eq_false h
  | dispatch k children => exact decide_eq_false h
  | _ => rfl

theorem IsIdle.ne_signal {c : TaskCell α} (h : i.IsIdle t c) : signal t ≠ i := by
  rintro rfl
  exact h rfl

end Instr

section Work

variable {t : TaskId} {self : Nat} {i : Instr α} {work rest added : List (Nat × Instr α)}

/-- What is not carried out is still to be done. -/
theorem mem_rest {n : Nat} {j : Instr α} (h : (n, j) ∈ (self, i) :: rest) (hne : j ≠ i) :
    (n, j) ∈ rest := by
  rcases List.mem_cons.mp h with heq | h
  · exact absurd (Prod.mk.inj heq).2 hne
  · exact h

theorem forall_mem_map_pair {p : Instr α → Prop} {code : List (Instr α)} (h : ∀ j ∈ code, p j) :
    ∀ w ∈ code.map (self, ·), p w.2 := by
  intro w hw
  obtain ⟨j, hj, rfl⟩ := List.mem_map.mp hw
  exact h j hj

/-- The continuations of the task that are about to be dispatched. -/
def owed (t : TaskId) (work : List (Nat × Instr α)) : List TaskId :=
  work.flatMap fun w => w.2.children t

theorem owed_cons : owed t ((self, i) :: rest) = i.children t ++ owed t rest := List.flatMap_cons

theorem owed_append_of_nil (h : ∀ w ∈ added, w.2.children t = []) :
    owed t (added ++ work) = owed t work := by
  unfold owed
  rw [List.flatMap_append, List.flatMap_eq_nil_iff.mpr h, List.nil_append]

/-- What follows a settlement: perhaps the signal, the release, and something else. -/
theorem forall_mem_settled (p : Instr α → Prop) {cancelled : Prop} [Decidable cancelled]
    {code : List (Instr α)} (hsignal : p (.signal t)) (hrelease : p (.release t))
    (hcode : ∀ j ∈ code, p j) :
    ∀ j ∈ (if cancelled then [Instr.signal t] else []) ++ Instr.release t :: code, p j := by
  refine List.forall_mem_append.mpr ⟨?_, List.forall_mem_cons.mpr ⟨hrelease, hcode⟩⟩
  split_ifs
  · exact List.forall_mem_singleton.mpr hsignal
  · exact fun _ hj => absurd hj List.not_mem_nil

end Work

/-! ### Settling -/

theorem TaskResult.isTerminal_state (r : TaskResult α) : r.state.isTerminal = true := by
  rcases r with e | v
  · cases e <;> rfl
  · rfl

theorem TaskResult.state_eq_completed {r : TaskResult α} :
    r.state = .completed ↔ ∃ value, r = .ok value := by
  rcases r with e | v
  · cases e <;> simp [TaskResult.state]
  · simp [TaskResult.state]

theorem TaskResult.state_eq_cancelled {r : TaskResult α} :
    r.state = .cancelled ↔ r = .error .cancelled := by
  rcases r with e | v
  · cases e <;> simp [TaskResult.state]
  · simp [TaskResult.state]

theorem TaskResult.state_eq_failed {r : TaskResult α} :
    r.state = .failed ↔ ∃ e, e ≠ .cancelled ∧ r = .error e := by
  rcases r with e | v
  · cases e <;> simp [TaskResult.state]
  · simp [TaskResult.state]

namespace TaskCell

/-- The task has been settled with the results of the list: with none, or with one. -/
inductive Fate (c : TaskCell α) : List (TaskResult α) → Prop where
  | unsettled (hstate : c.state.isTerminal = false) (houtcome : c.outcome = none) : Fate c []
  | settled {r : TaskResult α} (hstate : c.state = r.state) (houtcome : c.outcome = some r) :
      Fate c [r]

namespace Fate

variable {c c' : TaskCell α} {settlements : List (TaskResult α)}

theorem same (f : c.Fate settlements) (hstate : c'.state = c.state)
    (houtcome : c'.outcome = c.outcome) : c'.Fate settlements := by
  cases f with
  | unsettled h h' => exact .unsettled (hstate ▸ h) (houtcome.trans h')
  | settled h h' => exact .settled (hstate.trans h) (houtcome.trans h')

theorem length_le (f : c.Fate settlements) : settlements.length ≤ 1 := by
  cases f with
  | unsettled => exact Nat.zero_le 1
  | settled => exact Nat.le_refl 1

theorem outcome_eq (f : c.Fate settlements) : c.outcome = settlements.head? := by
  cases f with
  | unsettled _ h => exact h
  | settled _ h => exact h

theorem eq_nil (f : c.Fate settlements) (hopen : c.state.isTerminal = false) :
    settlements = [] := by
  cases f with
  | unsettled => rfl
  | settled h =>
    rw [h, TaskResult.isTerminal_state] at hopen
    cases hopen

theorem isSome_eq (f : c.Fate settlements) : c.outcome.isSome = c.state.isTerminal := by
  cases f with
  | unsettled h h' =>
    rw [h, h']
    rfl
  | settled h h' =>
    rw [h, h', TaskResult.isTerminal_state]
    rfl

/-- A final state is that of the outcome. -/
theorem state_eq_iff (f : c.Fate settlements) (final : TaskState)
    (hfinal : final.isTerminal = true) :
    c.state = final ↔ ∃ r, c.outcome = some r ∧ r.state = final := by
  cases f with
  | unsettled h h' =>
    constructor
    · rintro rfl
      cases h.symm.trans hfinal
    · rintro ⟨r, hr, -⟩
      cases h'.symm.trans hr
  | settled h h' =>
    rw [h, h']
    constructor
    · exact fun hstate => ⟨_, rfl, hstate⟩
    · rintro ⟨r, hr, hstate⟩
      obtain rfl := Option.some.inj hr
      exact hstate

end Fate

/-- **Who settles the task finds it unsettled**, and who cancels it gives its signal. -/
structure Settling (t : TaskId) (c : TaskCell α) (work : List (Nat × Instr α))
    (settlements : List (TaskResult α)) : Prop where
  fate : c.Fate settlements
  attempts : ∀ w ∈ work, w.2.ExpectsOpen t
  signal : c.state = .cancelled → c.token = true ∨ ∃ n, (n, .signal t) ∈ work

namespace Settling

variable {t : TaskId} {c c' : TaskCell α} {self : Nat} {i : Instr α}
  {work rest added : List (Nat × Instr α)} {settlements : List (TaskResult α)}

theorem perm (s : Settling t c work settlements) (h : work.Perm rest) :
    Settling t c rest settlements := by
  refine ⟨s.fate, fun w hw => s.attempts w (h.mem_iff.mpr hw), fun hcancelled => ?_⟩
  exact (s.signal hcancelled).imp_right fun ⟨n, hn⟩ => ⟨n, h.mem_iff.mp hn⟩

/-- More is to be done. -/
theorem extend (s : Settling t c work settlements) (hadded : ∀ w ∈ added, w.2.ExpectsOpen t) :
    Settling t c (added ++ work) settlements := by
  refine ⟨s.fate, List.forall_mem_append.mpr ⟨hadded, s.attempts⟩, fun hcancelled => ?_⟩
  exact (s.signal hcancelled).imp_right fun ⟨n, hn⟩ => ⟨n, List.mem_append_right _ hn⟩

/-- An instruction other than the signal is done. -/
theorem drop (s : Settling t c ((self, i) :: rest) settlements) (hne : .signal t ≠ i) :
    Settling t c rest settlements := by
  refine ⟨s.fate, fun w hw => s.attempts w (List.mem_cons_of_mem _ hw), fun hcancelled => ?_⟩
  exact (s.signal hcancelled).imp_right fun ⟨n, hn⟩ => ⟨n, mem_rest hn hne⟩

/-- Something else has changed in the cell. -/
theorem cell (s : Settling t c work settlements) (hstate : c'.state = c.state)
    (houtcome : c'.outcome = c.outcome) (htoken : c.token = true → c'.token = true) :
    Settling t c' work settlements := by
  refine ⟨s.fate.same hstate houtcome, s.attempts, fun hcancelled => ?_⟩
  exact (s.signal (hstate ▸ hcancelled)).imp_left htoken

/-- Who settles the task finds it unsettled. -/
theorem isTerminal_eq_false {old : TaskState} {result : TaskResult α} {mode : SettleMode}
    (s : Settling t c ((self, .settle t old result mode) :: rest) settlements)
    (hstate : c.state = old) : c.state.isTerminal = false := by
  rw [hstate]
  exact s.attempts (self, .settle t old result mode) List.mem_cons_self rfl

theorem start (s : Settling t c ((self, .start t) :: rest) settlements)
    (hstate : c.state = .pending) :
    Settling t { c with state := .running } rest settlements := by
  have hopen : c.state.isTerminal = false := by
    rw [hstate]
    rfl
  have houtcome := s.fate.outcome_eq
  rw [s.fate.eq_nil hopen] at houtcome ⊢
  exact ⟨.unsettled rfl houtcome, fun w hw => s.attempts w (List.mem_cons_of_mem _ hw), nofun⟩

/-- The task is settled.  If that cancels it, the signal is still to be given. -/
theorem settle {old : TaskState} {result : TaskResult α} {mode : SettleMode}
    (s : Settling t c ((self, .settle t old result mode) :: rest) settlements)
    (hstate : c.state = old) (hadded : ∀ w ∈ added, w.2.ExpectsOpen t)
    (hsignal : result.state = .cancelled → (self, .signal t) ∈ added) :
    Settling t { c with state := result.state, outcome := some result } (added ++ rest)
      (settlements ++ [result]) := by
  rw [s.fate.eq_nil (s.isTerminal_eq_false hstate)]
  refine ⟨.settled rfl rfl, List.forall_mem_append.mpr ⟨hadded, fun w hw => ?_⟩, fun h => ?_⟩
  · exact s.attempts w (List.mem_cons_of_mem _ hw)
  · exact Or.inr ⟨self, List.mem_append_left _ (hsignal h)⟩

theorem give (s : Settling t c ((self, .signal t) :: rest) settlements) :
    Settling t c.signal rest settlements :=
  ⟨s.fate.same rfl rfl, fun w hw => s.attempts w (List.mem_cons_of_mem _ hw), fun _ => Or.inl rfl⟩

end Settling

/-! ### Running -/

/-- **Who calls the body has started the task.** -/
structure Running (t : TaskId) (c : TaskCell α) (work : List (Nat × Instr α))
    (starters callers : List Nat) : Prop where
  pending : c.state = .pending → starters = []
  once : starters.length ≤ 1
  entering : ∀ n, callers.count n + work.countP (Instr.enters t n) ≤ starters.count n

namespace Running

variable {t : TaskId} {c c' : TaskCell α} {self : Nat} {i : Instr α}
  {work rest added : List (Nat × Instr α)} {starters callers : List Nat}

theorem perm (s : Running t c work starters callers) (h : work.Perm rest) :
    Running t c rest starters callers := by
  refine ⟨s.pending, s.once, fun n => ?_⟩
  rw [← h.countP_eq]
  exact s.entering n

/-- More is to be done. -/
theorem extend (s : Running t c work starters callers)
    (hadded : ∀ n, ∀ w ∈ added, Instr.enters t n w = false) :
    Running t c (added ++ work) starters callers := by
  refine ⟨s.pending, s.once, fun n => ?_⟩
  have hnone : added.countP (Instr.enters t n) = 0 := by
    rw [List.countP_eq_zero]
    intro w hw
    rw [hadded n w hw]
    exact Bool.false_ne_true
  rw [List.countP_append, hnone, Nat.zero_add]
  exact s.entering n

/-- An instruction is done. -/
theorem drop (s : Running t c ((self, i) :: rest) starters callers) :
    Running t c rest starters callers := by
  refine ⟨s.pending, s.once, fun n => ?_⟩
  have hentering := s.entering n
  rw [List.countP_cons] at hentering
  omega

/-- Something else has changed in the cell. -/
theorem cell (s : Running t c work starters callers)
    (hstate : c'.state = .pending → c.state = .pending) : Running t c' work starters callers :=
  ⟨fun hpending => s.pending (hstate hpending), s.once, s.entering⟩

theorem start (s : Running t c ((self, .start t) :: rest) starters callers)
    (hstate : c.state = .pending) :
    Running t { c with state := .running } ((self, .enter t) :: rest) (starters ++ [self])
      callers := by
  refine ⟨nofun, ?_, fun n => ?_⟩
  · rw [s.pending hstate]
    exact Nat.le_refl 1
  · have hentering := s.entering n
    rw [List.countP_cons] at hentering
    rw [List.countP_cons, Instr.enters_enter, List.count_append, List.count_singleton]
    omega

/-- The body is called, or was not there any more. -/
theorem enter (s : Running t c ((self, .enter t) :: rest) starters callers) (found : Bool) :
    Running t { c with body := none } rest starters
      (callers ++ if found then [self] else []) := by
  refine ⟨s.pending, s.once, fun n => ?_⟩
  have hentering := s.entering n
  rw [List.countP_cons, Instr.enters_enter] at hentering
  rw [List.count_append]
  split_ifs
  · rw [List.count_singleton]
    omega
  · rw [List.count_nil]
    omega

end Running

/-! ### Continuing -/

/-- **Every continuation is dispatched once.** -/
structure Continuing (t : TaskId) (c : TaskCell α) (work : List (Nat × Instr α))
    (registered : List TaskId) (dispatched : List (TaskId × Option (TaskResult α))) : Prop where
  sealing : c.state.isTerminal = true → c.sealed = true ∨ ∃ n, (n, .release t) ∈ work
  releasing : ∀ w ∈ work, w.2.releases t = true → c.state.isTerminal = true
  sealed : c.sealed = true → c.state.isTerminal = true ∧ c.continuations = []
  published : ∀ d ∈ dispatched, d.2 = c.outcome ∧ d.2.isSome = true
  conserved : ∀ child, registered.count child =
    (dispatched.map Prod.fst).count child + c.continuations.count child + (owed t work).count child

namespace Continuing

variable {t : TaskId} {c c' : TaskCell α} {self : Nat} {i : Instr α}
  {work rest added : List (Nat × Instr α)} {registered : List TaskId}
  {dispatched : List (TaskId × Option (TaskResult α))}

theorem perm (s : Continuing t c work registered dispatched) (h : work.Perm rest) :
    Continuing t c rest registered dispatched := by
  refine ⟨fun hterminal => ?_, fun w hw => s.releasing w (h.mem_iff.mpr hw), s.sealed, s.published,
    fun child => ?_⟩
  · exact (s.sealing hterminal).imp_right fun ⟨n, hn⟩ => ⟨n, h.mem_iff.mp hn⟩
  · have howed : (owed t work).Perm (owed t rest) := h.flatMap_right _
    rw [← howed.count_eq]
    exact s.conserved child

/-- More is to be done. -/
theorem extend (s : Continuing t c work registered dispatched)
    (hadded : ∀ w ∈ added, w.2.releases t = false) :
    Continuing t c (added ++ work) registered dispatched := by
  refine
    { sealing := fun hterminal => ?sealing, releasing := fun w hw hreleases => ?releasing,
      sealed := s.sealed, published := s.published, conserved := fun child => ?conserved }
  case sealing =>
    exact (s.sealing hterminal).imp_right fun ⟨n, hn⟩ => ⟨n, List.mem_append_right _ hn⟩
  case releasing =>
    rcases List.mem_append.mp hw with hw | hw
    · cases (hadded w hw).symm.trans hreleases
    · exact s.releasing w hw hreleases
  case conserved =>
    rw [owed_append_of_nil fun w hw => Instr.children_of_releases (hadded w hw)]
    exact s.conserved child

/-- An instruction is done that has nothing to do with continuations. -/
theorem drop (s : Continuing t c ((self, i) :: rest) registered dispatched)
    (hi : i.releases t = false) : Continuing t c rest registered dispatched := by
  refine ⟨fun hterminal => ?_, fun w hw => s.releasing w (List.mem_cons_of_mem _ hw), s.sealed,
    s.published, fun child => ?_⟩
  · exact (s.sealing hterminal).imp_right fun ⟨n, hn⟩ =>
      ⟨n, mem_rest hn (Instr.ne_release_of_releases hi)⟩
  · rw [s.conserved child, owed_cons, Instr.children_of_releases hi, List.nil_append]

/-- Something else has changed in the cell. -/
theorem cell (s : Continuing t c work registered dispatched)
    (hstate : c'.state.isTerminal = c.state.isTerminal) (houtcome : c'.outcome = c.outcome)
    (hsealed : c'.sealed = c.sealed) (hcontinuations : c'.continuations = c.continuations) :
    Continuing t c' work registered dispatched := by
  refine
    { sealing := ?sealing, releasing := ?releasing, sealed := ?sealed, published := ?published,
      conserved := ?conserved }
  case sealing =>
    rw [hstate, hsealed]
    exact s.sealing
  case releasing =>
    rw [hstate]
    exact s.releasing
  case sealed =>
    rw [hstate, hsealed, hcontinuations]
    exact s.sealed
  case published =>
    rw [houtcome]
    exact s.published
  case conserved =>
    rw [hcontinuations]
    exact s.conserved

/-- The task is settled: the release of its continuations is still to be done. -/
theorem settle (s : Continuing t c ((self, i) :: rest) registered dispatched)
    (hi : i.releases t = false) (hopen : c.state.isTerminal = false) (houtcome : c.outcome = none)
    (result : TaskResult α) (hadded : ∀ w ∈ added, w.2.children t = [])
    (hrelease : (self, .release t) ∈ added) :
    Continuing t { c with state := result.state, outcome := some result } (added ++ rest) registered
      dispatched := by
  have hterminal := TaskResult.isTerminal_state result
  refine
    { sealing := fun _ => Or.inr ⟨self, List.mem_append_left _ hrelease⟩,
      releasing := fun _ _ _ => hterminal, sealed := ?sealed, published := ?published,
      conserved := ?conserved }
  case sealed =>
    intro hsealed
    cases hopen.symm.trans (s.sealed hsealed).1
  case published =>
    -- nothing has been dispatched yet
    intro d hd
    obtain ⟨hd, hsome⟩ := s.published d hd
    rw [hd, houtcome] at hsome
    cases hsome
  case conserved =>
    rw [owed_append_of_nil hadded]
    exact (s.drop hi).conserved

/-- The list is sealed, and moves on to the strand. -/
theorem release (s : Continuing t c ((self, .release t) :: rest) registered dispatched) :
    Continuing t { c with sealed := true, continuations := [] }
      ((self, .dispatch t c.continuations) :: rest) registered dispatched := by
  have hterminal : c.state.isTerminal = true :=
    s.releasing (self, .release t) List.mem_cons_self (decide_eq_true rfl)
  refine ⟨fun _ => Or.inl rfl, fun _ _ _ => hterminal, fun _ => ⟨hterminal, rfl⟩, s.published, ?_⟩
  intro child
  have hbefore := s.conserved child
  have hnone : (Instr.release t : Instr α).children t = [] := rfl
  rw [owed_cons, hnone, List.nil_append] at hbefore
  rw [owed_cons, Instr.children_dispatch, List.count_append, List.count_nil]
  omega

/-- Continuations are dispatched; the outcome is there. -/
theorem dispatch {children : List TaskId}
    (s : Continuing t c ((self, .dispatch t children) :: rest) registered dispatched)
    (houtcome : c.outcome.isSome = c.state.isTerminal) :
    Continuing t c rest registered (dispatched ++ children.map (·, c.outcome)) := by
  have hterminal : c.state.isTerminal = true :=
    s.releasing (self, .dispatch t children) List.mem_cons_self (decide_eq_true rfl)
  refine
    { sealing := fun _ => ?sealing, releasing := fun _ _ _ => hterminal, sealed := s.sealed,
      published := fun d hd => ?published, conserved := fun child => ?conserved }
  case sealing => exact (s.sealing hterminal).imp_right fun ⟨n, hn⟩ => ⟨n, mem_rest hn nofun⟩
  case published =>
    rcases List.mem_append.mp hd with hd | hd
    · exact s.published d hd
    · obtain ⟨child, -, rfl⟩ := List.mem_map.mp hd
      exact ⟨rfl, houtcome.trans hterminal⟩
  case conserved =>
    have hbefore := s.conserved child
    have hfst : (children.map (·, c.outcome)).map Prod.fst = children := by
      rw [List.map_map]
      exact List.map_id' children
    rw [owed_cons, Instr.children_dispatch, List.count_append] at hbefore
    rw [List.map_append, hfst, List.count_append]
    omega

/-- A continuation is put on the list. -/
theorem register {child : TaskId}
    (s : Continuing t c ((self, .register t child) :: rest) registered dispatched)
    (hopen : c.sealed = false) :
    Continuing t { c with continuations := c.continuations ++ [child] } rest
      (registered ++ [child]) dispatched := by
  have k := s.drop rfl
  refine ⟨k.sealing, k.releasing, ?_, k.published, fun other => ?_⟩
  · intro hsealed
    cases hopen.symm.trans hsealed
  · rw [List.count_append, List.count_append, k.conserved]
    omega

/-- A continuation comes too late for the list, and is dispatched by the strand itself. -/
theorem late {child : TaskId}
    (s : Continuing t c ((self, .register t child) :: rest) registered dispatched)
    (hsealed : c.sealed = true) :
    Continuing t c ((self, .dispatch t [child]) :: rest) (registered ++ [child]) dispatched := by
  have hterminal := (s.sealed hsealed).1
  refine ⟨fun _ => Or.inl hsealed, fun _ _ _ => hterminal, s.sealed, s.published, fun other => ?_⟩
  rw [List.count_append, (s.drop rfl).conserved, owed_cons, Instr.children_dispatch,
    List.count_append]
  omega

end Continuing

/-! ### All together -/

/-- What is true of a task at any time. -/
structure Sound (t : TaskId) (c : TaskCell α) (work : List (Nat × Instr α)) (log : TaskLog α) :
    Prop where
  settling : Settling t c work log.settlements
  running : Running t c work log.starters log.callers
  continuing : Continuing t c work log.registered log.dispatched

section Sound

variable {t : TaskId} {c c' : TaskCell α} {self : Nat} {i : Instr α} {code : List (Instr α)}
  {work rest added : List (Nat × Instr α)} {m : Machine α} {log : TaskLog α}

/-- The order of the work does not matter. -/
theorem Sound.perm (s : Sound t c work log) (h : work.Perm rest) : Sound t c rest log :=
  ⟨s.settling.perm h, s.running.perm h, s.continuing.perm h⟩

/-- Calls may begin at any time. -/
theorem Sound.extend (s : Sound t c work log) (hadded : ∀ w ∈ added, w.2.IsPlain t) :
    Sound t c (added ++ work) log where
  settling := s.settling.extend fun w hw => (hadded w hw).expectsOpen
  running := s.running.extend fun n w hw => (hadded w hw).enters_eq_false n w.1
  continuing := s.continuing.extend fun w hw => (hadded w hw).releases_eq_false

/-- An instruction that does nothing to the task is done. -/
theorem Sound.idle (s : Sound t c ((self, i) :: rest) log) (hsignal : .signal t ≠ i)
    (hreleases : i.releases t = false) (hsame : c.Same c') : Sound t c' rest log where
  settling := (s.settling.drop hsignal).cell hsame.state hsame.outcome hsame.token
  running := s.running.drop.cell fun hpending => hsame.state ▸ hpending
  continuing :=
    (s.continuing.drop hreleases).cell (congrArg _ hsame.state) hsame.outcome hsame.sealed
      hsame.continuations

/-- **Every instruction keeps the invariants.** -/
theorem Sound.effect (s : Sound t c ((self, i) :: rest) log) (hc : m.tasks[t]? = some c)
    (eff : TaskEffect t c i c' code) :
    Sound t c' (code.map (self, ·) ++ rest) (log.observe t m self i code) := by
  have hadd : ∀ {c' : TaskCell α} {log' : TaskLog α}, Sound t c' rest log' →
      (∀ j ∈ code, j.IsPlain t) → Sound t c' (code.map (self, ·) ++ rest) log' :=
    fun s hplain => s.extend (forall_mem_map_pair hplain)
  cases eff with
  | started hstate =>
    rw [observe_started hc hstate]
    refine ⟨?_, s.running.start hstate, ?_⟩
    · refine (s.settling.start hstate).extend ?_
      exact List.forall_mem_singleton.mpr trivial
    · refine ((s.continuing.drop rfl).extend ?_).cell ?_ rfl rfl rfl
      · exact List.forall_mem_singleton.mpr rfl
      · rw [hstate]
        rfl
  | entered hplain =>
    rw [observe_entered]
    have hidle := s.idle nofun rfl c.same_dropBody
    exact hadd ⟨hidle.settling, s.running.enter _, hidle.continuing⟩ hplain
  | @settled old result mode code hstate hplain =>
    rw [observe_settled hc hstate]
    have hopen := s.settling.isTerminal_eq_false hstate
    have houtcome : c.outcome = none := by
      rw [s.settling.fate.outcome_eq, s.settling.fate.eq_nil hopen]
      rfl
    refine ⟨s.settling.settle hstate ?_ ?_, (s.running.drop.extend ?_).cell ?_,
      s.continuing.settle rfl hopen houtcome result ?_ ?_⟩
    · refine forall_mem_map_pair (forall_mem_settled (·.ExpectsOpen t) trivial trivial ?_)
      exact fun j hj => (hplain j hj).expectsOpen
    · intro hcancelled
      refine List.mem_map.mpr ⟨.signal t, List.mem_append_left _ ?_, rfl⟩
      rw [if_pos hcancelled]
      exact List.mem_singleton_self _
    · intro n w hw
      obtain ⟨j, hj, rfl⟩ := List.mem_map.mp hw
      refine forall_mem_settled (fun j => Instr.enters t n (self, j) = false) rfl rfl ?_ j hj
      exact fun j hj => (hplain j hj).enters_eq_false n self
    · intro hpending
      have hterminal := TaskResult.isTerminal_state result
      rw [show result.state = .pending from hpending] at hterminal
      cases hterminal
    · refine forall_mem_map_pair (forall_mem_settled (·.children t = []) rfl rfl ?_)
      exact fun j hj => Instr.children_of_releases (hplain j hj).releases_eq_false
    · exact List.mem_map.mpr ⟨.release t, List.mem_append_right _ List.mem_cons_self, rfl⟩
  | signalled =>
    exact ⟨s.settling.give, s.running.drop.cell id, (s.continuing.drop rfl).cell rfl rfl rfl rfl⟩
  | released =>
    refine ⟨?_, ?_, s.continuing.release⟩
    · refine ((s.settling.drop nofun).extend ?_).cell rfl rfl id
      exact List.forall_mem_singleton.mpr trivial
    · refine (s.running.drop.extend fun _ => ?_).cell id
      exact List.forall_mem_singleton.mpr rfl
  | dispatched hplain hhanded =>
    have houtcome : m.outcome t = c.outcome := by
      unfold Machine.outcome
      rw [hc]
      rfl
    rw [observe_dispatched hhanded, houtcome]
    exact hadd ⟨s.settling.drop nofun, s.running.drop,
      s.continuing.dispatch s.settling.fate.isSome_eq⟩ hplain
  | registered hopen =>
    rw [observe_registered]
    exact ⟨(s.settling.drop nofun).cell rfl rfl id, s.running.drop.cell id,
      s.continuing.register hopen⟩
  | late hsealed =>
    rw [observe_registered]
    refine ⟨?_, ?_, s.continuing.late hsealed⟩
    · refine (s.settling.drop nofun).extend ?_
      exact List.forall_mem_singleton.mpr trivial
    · refine s.running.drop.extend fun _ => ?_
      exact List.forall_mem_singleton.mpr rfl
  | idle hidle hsame hplain =>
    rw [observe_of_isIdle hc hidle]
    exact hadd (s.idle hidle.ne_signal hidle.releases_eq_false hsame) hplain

end Sound

end TaskCell

/-- A task that has settled stays as it is. -/
theorem TaskEffect.final {t : TaskId} {c c' : TaskCell α} {self : Nat} {i : Instr α}
    {code : List (Instr α)} {rest : List (Nat × Instr α)} {settlements : List (TaskResult α)}
    (eff : TaskEffect t c i c' code) (s : TaskCell.Settling t c ((self, i) :: rest) settlements)
    (hterminal : c.state.isTerminal = true) :
    c'.state = c.state ∧ c'.outcome = c.outcome := by
  cases eff with
  | started hstate =>
    rw [hstate] at hterminal
    cases hterminal
  | settled hstate => cases (s.isTerminal_eq_false hstate).symm.trans hterminal
  | idle _ hsame => exact ⟨hsame.state, hsame.outcome⟩
  | entered => exact ⟨rfl, rfl⟩
  | signalled => exact ⟨rfl, rfl⟩
  | released => exact ⟨rfl, rfl⟩
  | dispatched => exact ⟨rfl, rfl⟩
  | registered => exact ⟨rfl, rfl⟩
  | late => exact ⟨rfl, rfl⟩

end ManagedHost
