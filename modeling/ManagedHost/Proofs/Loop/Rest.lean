import ManagedHost.Proofs.Loop.Tending
import Mathlib.Algebra.Group.Action.Defs
import Mathlib.Algebra.Order.BigOperators.Group.List
import Mathlib.Algebra.Order.Ring.Nat

/-!
# How a family comes to rest

Each step in a run of a family takes something from a sum over what is left to be done
(`Machine.weight`), and so every run comes to rest when nobody calls any more
(`Unfolds.comes_to_rest`).  Once it has, all code is worked off, the loop holds nothing, and every
task has settled (`isTerminal_of_atRest`).
-/

namespace ManagedHost

variable {α : Type}

/-! ### Machines at rest -/

namespace Machine

variable {m : Machine α} {self : Nat} {s : Strand α}

/-- Whether nothing will happen any more, however long one waits. -/
def AtRest (m : Machine α) : Prop :=
  ∀ micros heedStop self, (m.elapse micros).step heedStop self = none

theorem AtRest.exec_eq_none {i : Instr α} {rest : List (Instr α)} (h : m.AtRest)
    (hs : m.strands[self]? = some s) (hexited : s.exited = false) (hcode : s.code = i :: rest)
    (heedStop : Bool) : m.exec heedStop self i = none := by
  have hstep : m.step heedStop self = none := h 0 heedStop self
  simpa [step, hs, hexited, hcode] using hstep

theorem AtRest.idleStep_eq_none (h : m.AtRest) (hs : m.strands[self]? = some s)
    (hexited : s.exited = false) (hcode : s.code = []) (micros : Nat) (heedStop : Bool) :
    (m.elapse micros).idleStep heedStop s.role = none := by
  have hs' : (m.elapse micros).strands[self]? = some s := hs
  have hstep := h micros heedStop self
  simpa [step, hs', hexited, hcode] using hstep

/-- A strand looks in vain for work while the loop holds nothing and goes on. -/
theorem idleStep_elapse_eq_none (hsignal : m.loop.stopSignal = false) (hqueue : m.loop.queue = [])
    (hmicrotasks : m.loop.microtasks = []) (htimers : m.loop.timers = []) {role : Role}
    (hrole : role ≠ .dispatcher) (micros : Nat) (heedStop : Bool) :
    (m.elapse micros).idleStep heedStop role = none := by
  cases role with
  | caller => rfl
  | worker => simp [idleStep, elapse, hsignal, hqueue]
  | microtasks => simp [idleStep, elapse, hsignal, hmicrotasks]
  | timers => simp [idleStep, elapse, hsignal, htimers]
  | dispatcher => exact absurd rfl hrole

/-- When all code is worked off and the loop holds nothing, nothing happens. -/
theorem atRest_of_idle (hsignal : m.loop.stopSignal = false) (hqueue : m.loop.queue = [])
    (hmicrotasks : m.loop.microtasks = []) (htimers : m.loop.timers = [])
    (hstrands : ∀ s ∈ m.strands, s.code = [] ∧ s.role ≠ .dispatcher) : m.AtRest := by
  intro micros heedStop self
  unfold step
  split
  · rfl
  · next s hs =>
    obtain ⟨hcode, hrole⟩ := hstrands s (List.mem_of_getElem? hs)
    rw [hcode]
    split_ifs
    · rfl
    · exact Option.map_eq_none_iff.mpr
        (idleStep_elapse_eq_none hsignal hqueue hmicrotasks htimers hrole micros heedStop)

end Machine

/-! ### What is left to be done -/

namespace Instr

/-- How many steps the instruction may lead to, at most.  A cancellation is tried again if the task
has changed its state meanwhile, but by then the task is nearer to being settled. -/
def weight (m : Machine α) : Instr α → Nat
  | settle _ old _ _ => 2 * old.rank
  | cancel t => 1 + 2 * (m.state t).rank
  | start _ | signal _ | dropBody _ | answer _ | leave _ | record _ => 1
  | release _ => 2
  | enter _ => 4
  | fail _ _ => 5
  | dispatch _ children => 1 + 6 * children.length
  | enqueue _ _ | microtask _ _ => 6
  | submit _ _ => 7
  | register _ _ => 8
  | _ => 3

theorem weight_le {m m' : Machine α} (h : ∀ t, (m'.state t).rank ≤ (m.state t).rank)
    (i : Instr α) : i.weight m' ≤ i.weight m := by
  cases i with
  | cancel t => exact Nat.add_le_add_left (Nat.mul_le_mul_left 2 (h t)) 1
  | _ => exact Nat.le_refl _

end Instr

/-- How many steps the task itself may lead to: it is run and settled, and then its continuations
are dispatched. -/
def TaskCell.weight (x : TaskCell α) : Nat := 4 * x.state.rank + 6 * x.continuations.length

namespace Machine

variable {m m' : Machine α} {self : Nat} {t : TaskId} {x : TaskCell α} {s : Strand α}

/-- How many steps the instructions may lead to. -/
def codeWeight (m : Machine α) (code : List (Instr α)) : Nat := (code.map (Instr.weight m)).sum

/-- How many steps the tasks may lead to and what the loop holds. -/
def store (m : Machine α) : Nat :=
  (m.tasks.map TaskCell.weight).sum + 4 * (m.loop.queue.length + m.loop.microtasks.length)

/-- **How many steps may follow** in a run of a family, when nobody calls any more. -/
def weight (m : Machine α) : Nat := m.store + (m.strands.map fun s => m.codeWeight s.code).sum

@[simp]
theorem codeWeight_nil (m : Machine α) : m.codeWeight [] = 0 := rfl

@[simp]
theorem codeWeight_singleton (m : Machine α) (i : Instr α) : m.codeWeight [i] = i.weight m :=
  List.sum_singleton

theorem codeWeight_append (m : Machine α) (code more : List (Instr α)) :
    m.codeWeight (code ++ more) = m.codeWeight code + m.codeWeight more := by
  unfold codeWeight
  rw [List.map_append, List.sum_append]

theorem codeWeight_le (h : ∀ t, (m'.state t).rank ≤ (m.state t).rank) (code : List (Instr α)) :
    m'.codeWeight code ≤ m.codeWeight code :=
  List.sum_le_sum fun i _ => Instr.weight_le h i

/-- If no instruction weighs more than `n`, the code weighs no more than `n` for each. -/
theorem codeWeight_le_length {n : Nat} {code : List (Instr α)} (h : ∀ j ∈ code, j.weight m ≤ n) :
    m.codeWeight code ≤ n * code.length := by
  have hmem : ∀ k ∈ code.map (Instr.weight m), k ≤ n := by
    intro k hk
    obtain ⟨j, hj, rfl⟩ := List.mem_map.mp hk
    exact h j hj
  have hsum := List.sum_le_card_nsmul _ n hmem
  rwa [List.length_map, smul_eq_mul, Nat.mul_comm] at hsum

/-- One entry of a list is replaced, and the others weigh no more than before. -/
theorem sum_set_le {β : Type} {l : List β} {n : Nat} {x : β} (hx : l[n]? = some x) (y : β)
    {w w' : β → Nat} (hle : ∀ z, w' z ≤ w z) :
    ((l.set n y).map w').sum + w x ≤ (l.map w).sum + w' y := by
  induction l generalizing n with
  | nil => cases hx
  | cons z rest ih =>
    cases n with
    | zero =>
      obtain rfl := Option.some.inj hx
      have hrest : (rest.map w').sum ≤ (rest.map w).sum := List.sum_le_sum fun z _ => hle z
      simp only [List.set_cons_zero, List.map_cons, List.sum_cons]
      omega
    | succ n =>
      have hrest := ih hx
      have hz := hle z
      simp only [List.set_cons_succ, List.map_cons, List.sum_cons]
      omega

theorem store_modify (hx : m.tasks[t]? = some x) (f : TaskCell α → TaskCell α) :
    (m.modify t f).store + x.weight ≤ m.store + (f x).weight := by
  have hsum := sum_set_le hx (f x) fun z : TaskCell α => Nat.le_refl z.weight
  rw [← modify_eq_set hx] at hsum
  simp only [store, modify]
  omega

/-- The tasks lead to no more steps than before. -/
theorem store_modify_le {f : TaskCell α → TaskCell α} (hf : ∀ x, (f x).weight ≤ x.weight) :
    (m.modify t f).store ≤ m.store := by
  cases hx : m.tasks[t]? with
  | none =>
    refine Nat.le_of_eq ?_
    simp only [store, modify]
    rw [List.modify_eq_set_getElem?, hx]
    rfl
  | some x =>
    have hstore := store_modify hx f
    have hweight := hf x
    omega

/-- One strand has got other code. -/
theorem weight_set {r : Strand α} (hs : m.strands[self]? = some s)
    (hm' : m'.strands = m.strands.set self r)
    (hrank : ∀ t, (m'.state t).rank ≤ (m.state t).rank)
    (hless : m'.store + m'.codeWeight r.code < m.store + m.codeWeight s.code) :
    m'.weight < m.weight := by
  have hsum := sum_set_le hs r (w := fun s => m.codeWeight s.code) fun s =>
    codeWeight_le hrank s.code
  unfold weight
  rw [hm']
  omega

/-! ### Single instructions -/

section Instructions

variable {heedStop : Bool} {i : Instr α} {code : List (Instr α)}
  {m₁ : Machine α}

/-- What the instruction leads to is less than it was said to lead to. -/
def Lightens (m : Machine α) (i : Instr α) (result : Option (Machine α × List (Instr α))) : Prop :=
  ∀ m₁ code, result = some (m₁, code) → m₁.store + m₁.codeWeight code < m.store + i.weight m

theorem lightens_some (h : m₁.store + m₁.codeWeight code < m.store + i.weight m) :
    Lightens m i (some (m₁, code)) := by
  intro m₂ code' heq
  obtain ⟨rfl, rfl⟩ := Prod.mk.inj (Option.some.inj heq)
  exact h

/-- The tasks and the loop lead to no more than before, and the code that follows to less. -/
theorem lightens_of_le (hstore : m₁.store ≤ m.store) (hcode : m₁.codeWeight code < i.weight m) :
    Lightens m i (some (m₁, code)) :=
  lightens_some (Nat.add_lt_add_of_le_of_lt hstore hcode)

/-- Nothing is left to do. -/
theorem lightens_done (hstore : m₁.store ≤ m.store) (hi : 0 < i.weight m) :
    Lightens m i (some (m₁, [])) :=
  lightens_of_le hstore hi

/-- The instruction is followed by one that leads to less. -/
theorem lightens_then {j : Instr α} (hstore : m₁.store ≤ m.store) (hj : j.weight m₁ < i.weight m) :
    Lightens m i (some (m₁, [j])) :=
  lightens_of_le hstore (by rwa [codeWeight_singleton])

/-- The cell of a task is replaced. -/
theorem lightens_replace {x y : TaskCell α} (hx : m.tasks[t]? = some x)
    (hless : y.weight + codeWeight (m.modify t fun _ => y) code < x.weight + i.weight m) :
    Lightens m i (some (m.modify t fun _ => y, code)) := by
  have hstore := store_modify hx fun _ => y
  exact lightens_some (by omega)

theorem start_lightens (h : m.Rule heedStop self (.start t) m₁ code) :
    Lightens m (.start t) (some (m₁, code)) := by
  cases h with
  | start hx hpending =>
    refine lightens_replace hx ?_
    simp only [TaskCell.weight, hpending, TaskState.rank, codeWeight_singleton, Instr.weight]
    omega
  | startLate => exact lightens_done (Nat.le_refl _) Nat.one_pos

theorem enter_lightens (h : m.Rule heedStop self (.enter t) m₁ code) :
    Lightens m (.enter t) (some (m₁, code)) := by
  have hstore : ∀ {x : TaskCell α}, m.tasks[t]? = some x →
      (m.modify t fun _ => { x with body := none }).store ≤ m.store := by
    intro x hx
    have hmodify := store_modify hx fun _ => { x with body := none }
    simp only [TaskCell.weight] at hmodify
    omega
  cases h with
  | enterNone => exact lightens_done (Nat.le_refl _) (Nat.succ_pos 3)
  | enterMissing hx => exact lightens_then (hstore hx) (show 2 < 4 by decide)
  -- whatever the body is, it comes up as one instruction
  | enterScript hx => exact lightens_then (hstore hx) (Nat.lt_succ_self 3)
  | enterAndThen hx => exact lightens_then (hstore hx) (Nat.lt_succ_self 3)
  | enterOrElse hx => exact lightens_then (hstore hx) (Nat.lt_succ_self 3)
  | enterPromise hx => exact lightens_then (hstore hx) (Nat.lt_succ_self 3)
  | enterAll hx => exact lightens_then (hstore hx) (Nat.lt_succ_self 3)
  | enterRace hx => exact lightens_then (hstore hx) (Nat.lt_succ_self 3)

/-- A cancellation that comes too late for the state that it had looked at is tried again, but by
then the task is nearer to being settled. -/
theorem settle_lightens {old : TaskState} {r : TaskResult α} {mode : SettleMode}
    (h : m.Rule heedStop self (.settle t old r mode) m₁ code) (hold : old.isTerminal = false)
    (hcancel : mode = .cancel → t < m.tasks.length ∧ (m.state t).rank ≤ old.rank) :
    Lightens m (.settle t old r mode) (some (m₁, code)) := by
  have hpos : 0 < old.rank := by
    cases old with
    | pending => decide
    | running => decide
    | _ => cases hold
  cases h with
  | @settle _ _ _ _ x hx hstate =>
    refine lightens_replace hx ?_
    have hcode : codeWeight (m.modify t fun _ => { x with state := r.state, outcome := some r })
        ((if r.state = .cancelled then [Instr.signal t] else []) ++ [Instr.release t] ++
          if mode = .run then [] else [Instr.dropBody t]) ≤ 4 := by
      rw [codeWeight_append, codeWeight_append]
      split_ifs <;> simp [Instr.weight]
    have hzero := TaskState.rank_of_isTerminal (TaskResult.isTerminal_state r)
    simp only [TaskCell.weight, hzero, hstate, Instr.weight]
    omega
  | settleLate hlate =>
    refine lightens_of_le (Nat.le_refl _) ?_
    split_ifs with hmode
    · -- the state has changed since it was looked at
      obtain ⟨ht, hle⟩ := hcancel hmode
      have hx := List.getElem?_eq_getElem ht
      have hne : m.state t ≠ old := fun heq => hlate _ hx ((cell_eq hx).1.symm.trans heq)
      have hlt : (m.state t).rank < old.rank := TaskState.rank_lt hold hle hne
      simp only [codeWeight_singleton, Instr.weight]
      omega
    · simp only [codeWeight_nil, Instr.weight]
      omega

theorem release_lightens (h : m.Rule heedStop self (.release t) m₁ code) :
    Lightens m (.release t) (some (m₁, code)) := by
  cases h with
  | releaseNone => exact lightens_done (Nat.le_refl _) Nat.two_pos
  | release hx =>
    refine lightens_replace hx ?_
    simp only [TaskCell.weight, List.length_nil, codeWeight_singleton, Instr.weight]
    omega

theorem dispatch_lightens {children : List TaskId}
    (h : m.Rule heedStop self (.dispatch t children) m₁ code) :
    Lightens m (.dispatch t children) (some (m₁, code)) := by
  cases h with
  | dispatchNone =>
    refine lightens_done (Nat.le_refl _) ?_
    simp only [Instr.weight]
    omega
  | @dispatch _ _ x =>
    have hchild : ∀ j ∈ children.map fun k =>
        if x.bound then Instr.microtask k false else Instr.start k, j.weight m ≤ 6 :=
      forall_dispatched (fun _ _ => Nat.le_refl 6) (fun _ _ => Nat.succ_pos 5) x.bound
    have hcode := codeWeight_le_length hchild
    rw [List.length_map] at hcode
    refine lightens_of_le (Nat.le_refl _) ?_
    simp only [Instr.weight]
    omega

theorem register_lightens {k : TaskId} (h : m.Rule heedStop self (.register t k) m₁ code) :
    Lightens m (.register t k) (some (m₁, code)) := by
  cases h with
  | registerNone => exact lightens_done (Nat.le_refl _) (Nat.succ_pos 7)
  | register hx =>
    refine lightens_replace hx ?_
    simp only [TaskCell.weight, List.length_append, List.length_singleton, codeWeight_nil,
      Instr.weight]
    omega
  | registerLate => exact lightens_then (Nat.le_refl _) (Nat.lt_succ_self 7)

theorem microtask_lightens {caller : Bool}
    (h : m.Rule heedStop self (.microtask t caller) m₁ code) (hopen : m.loop.phase ≠ .stopped) :
    Lightens m (.microtask t caller) (some (m₁, code)) := by
  have hbound : (m.modify t fun x => { x with bound := true }).store ≤ m.store :=
    store_modify_le fun _ => Nat.le_refl _
  cases h with
  | microtask =>
    refine lightens_some ?_
    simp only [store, Machine.modify, EventLoop.adopt, List.length_append,
      List.length_singleton] at hbound ⊢
    split_ifs
    · simp only [codeWeight_singleton, Instr.weight]
      omega
    · simp only [codeWeight_nil, Instr.weight]
      omega
  | microtaskRefused hstopped => exact absurd hstopped hopen

theorem enqueue_lightens (h : m.Rule heedStop self (.enqueue t .caller) m₁ code)
    (hsignal : m.loop.stopSignal = false) : Lightens m (.enqueue t .caller) (some (m₁, code)) := by
  cases h with
  | enqueue =>
    refine lightens_some ?_
    simp only [store, accepted, List.length_append, List.length_singleton,
      codeWeight_singleton, Instr.weight]
    omega
  | enqueueRefused hstop => cases hsignal.symm.trans hstop

end Instructions

end Machine

namespace Family

open Machine

variable {F : Family α} {c : Chronicle α} {config : LoopConfig} {workers : Nat}

/-- An instruction that comes up in a run of the family need not wait, unless it is for room in the
queue. -/
theorem exec_ne_none {heedStop : Bool} {self : Nat} {i : Instr α} (hi : F.Admits c i)
    (hne : i ≠ .enqueue 0 .caller) : c.machine.exec heedStop self i ≠ none := by
  intro hnone
  have hwaits := exec_waits hnone
  cases hi with
  | enqueue => exact hne rfl
  | andThen _ hready =>
    cases hwaits with
    | andThen hparent => cases hparent ▸ hready
  | orElse _ hready =>
    cases hwaits with
    | orElse hparent => cases hparent ▸ hready
  -- the others never wait
  | _ => cases hwaits

section Rest

variable (T : F.Tended c) (hrest : c.machine.AtRest)
include T hrest

/-- Whoever still has something to do waits for room in the queue. -/
theorem waits_of_atRest {s : Strand α} (hs : s ∈ c.machine.strands) :
    s.code = [] ∨ ∃ rest, s.code = .enqueue 0 .caller :: rest := by
  obtain ⟨self, hself⟩ := List.mem_iff_getElem?.mp hs
  cases hcode : s.code with
  | nil => exact Or.inl rfl
  | cons i rest =>
    have hnone := hrest.exec_eq_none hself (T.duty.strands s hs).1 hcode true
    have hi := T.holds i ⟨s, hs, hcode ▸ List.mem_cons_self⟩
    by_contra hwait
    refine exec_ne_none hi (fun heq => hwait (Or.inr ⟨rest, ?_⟩)) hnone
    rw [heq]

/-- The threads of the loop have nothing to do. -/
theorem code_eq_nil_of_thread {s : Strand α} (hs : s ∈ c.machine.strands)
    (hrole : s.role ≠ .caller) : s.code = [] := by
  rcases waits_of_atRest T hrest hs with hnil | ⟨rest, hcode⟩
  · exact hnil
  · have hsubmits := (T.duty.strands s hs).2.2 hrole (.enqueue 0 .caller)
      (hcode ▸ List.mem_cons_self)
    exact absurd trivial hsubmits

/-- A worker that waits would take a task from the queue. -/
theorem queue_eq_nil : c.machine.loop.queue = [] := by
  cases hqueue : c.machine.loop.queue with
  | nil => rfl
  | cons t rest =>
    obtain ⟨-, hphase⟩ := T.duty.queue t (hqueue ▸ List.mem_cons_self)
    obtain ⟨⟨w, hw, hworker⟩, -⟩ := T.duty.threads hphase
    obtain ⟨self, hself⟩ := List.mem_iff_getElem?.mp hw
    have hnil := code_eq_nil_of_thread T hrest hw (by rw [hworker]; nofun)
    have hnone := hrest.idleStep_eq_none hself (T.duty.strands w hw).1 hnil 0 true
    simp [hworker, idleStep, elapse, T.duty.signal, hqueue] at hnone

/-- The thread for the microtasks would take them after some time. -/
theorem microtasks_eq_nil : c.machine.loop.microtasks = [] := by
  cases hmicrotasks : c.machine.loop.microtasks with
  | nil => rfl
  | cons t rest =>
    obtain ⟨-, hphase⟩ := T.duty.microtasks t (hmicrotasks ▸ List.mem_cons_self)
    obtain ⟨-, ⟨w, hw, hticker⟩⟩ := T.duty.threads hphase
    obtain ⟨self, hself⟩ := List.mem_iff_getElem?.mp hw
    have hnil := code_eq_nil_of_thread T hrest hw (by rw [hticker]; nofun)
    have hnone := hrest.idleStep_eq_none hself (T.duty.strands w hw).1 hnil
      (c.machine.loop.startedAt + c.machine.loop.config.microtaskInterval * 1000) true
    simp [hticker, idleStep, elapse, T.duty.signal, hmicrotasks, EventLoop.hasTicked] at hnone

/-- There is room in a queue from which nobody takes, as there are workers that wait. -/
theorem hasRoom_of_atRest (hphase : c.machine.loop.phase = .running) :
    c.machine.hasRoom = true := by
  obtain ⟨⟨w, hw, hworker⟩, -⟩ := T.duty.threads hphase
  have hidle : 0 < c.machine.idleWorkers := by
    refine List.countP_pos_iff.mpr ⟨w, hw, ?_⟩
    have hnil := code_eq_nil_of_thread T hrest hw (by rw [hworker]; nofun)
    simp [hworker, hnil, (T.duty.strands w hw).1]
  have hqueue := queue_eq_nil T hrest
  simp only [hasRoom, hqueue, List.length_nil, decide_eq_true_eq]
  split_ifs with hcapacity
  · exact hidle
  · omega

/-- **At rest nothing is left to be done.** -/
theorem not_holds_of_atRest (j : Instr α) : ¬ c.machine.Holds j := by
  rintro ⟨s, hs, hj⟩
  rcases waits_of_atRest T hrest hs with hnil | ⟨rest, hcode⟩
  · rw [hnil] at hj
    exact absurd hj List.not_mem_nil
  · obtain ⟨self, hself⟩ := List.mem_iff_getElem?.mp hs
    have hnone := hrest.exec_eq_none hself (T.duty.strands s hs).1 hcode true
    have hphase : c.machine.loop.phase = .running := by
      cases T.holds _ ⟨s, hs, hcode ▸ List.mem_cons_self⟩ with
      | enqueue hphase => exact hphase
    cases exec_waits hnone with
    | enqueue hroom => cases hroom.symm.trans (hasRoom_of_atRest T hrest hphase)

theorem not_attends_of_atRest (t : TaskId) : ¬ c.machine.Attends t := by
  rintro (ht | ht | ⟨j, hj, -⟩)
  · rw [queue_eq_nil T hrest] at ht
    exact absurd ht List.not_mem_nil
  · rw [microtasks_eq_nil T hrest] at ht
    exact absurd ht List.not_mem_nil
  · exact not_holds_of_atRest T hrest j hj

end Rest

/-- **At rest every task has settled**: by induction over the tree, a task that is pending would be
on the list of a parent that has settled, and such a list is empty. -/
theorem isTerminal_of_atRest (T : F.Tended c) (g : c.machine.Governed) (a : c.machine.Attended)
    (hurged : ∃ v ∈ c.events, v.instr.Urges 0) (hrest : c.machine.AtRest) (t : TaskId)
    (x : TaskCell α) (hx : c.machine.tasks[t]? = some x) : x.state.isTerminal = true := by
  induction t using Nat.strongRecOn generalizing x with
  | _ t ih =>
    cases hstate : x.state with
    | running =>
      obtain ⟨j, hj, -⟩ := a.bodies t x hx hstate
      exact absurd hj (not_holds_of_atRest T hrest j)
    | pending =>
      cases hparent : F.parent? t with
      | none =>
        -- only the root continues no task
        have ht : t = 0 := by
          cases t with
          | zero => rfl
          | succ k =>
            have hk := Nat.lt_of_lt_of_le (lt_length hx) T.length.2
            have hn := List.getElem?_eq_none_iff.mp (Option.map_eq_none_iff.mp hparent)
            omega
        subst ht
        rcases T.urged hurged ((cell_eq hx).1.trans hstate) with hattends | hholds
        · exact absurd hattends (not_attends_of_atRest T hrest 0)
        · exact absurd hholds (not_holds_of_atRest T hrest _)
      | some p =>
        have hp := (T.cell t x hx).parent.trans hparent
        obtain ⟨hlt, hwaits⟩ := a.children t x p hx hp
        rcases hwaits hstate with hattends | ⟨y, hy, hmem⟩ | hregister
        · exact absurd hattends (not_attends_of_atRest T hrest t)
        · obtain ⟨log, hsound⟩ := g.sound p y hy
          have hsealed : y.sealed = true := by
            refine (hsound.continuing.sealing (ih p hlt y hy)).resolve_right ?_
            rintro ⟨n, hn⟩
            exact not_holds_of_atRest T hrest _ (holds_of_mem_work hn)
          rw [(hsound.continuing.sealed hsealed).2] at hmem
          exact absurd hmem List.not_mem_nil
        · exact absurd hregister (not_holds_of_atRest T hrest _)
    | completed => rfl
    | failed => rfl
    | cancelled => rfl

/-- **An instruction that comes up in a run of the family leads to fewer steps afterwards.** -/
theorem rule_lightens {heedStop : Bool} {self : Nat} {i : Instr α} {m₁ : Machine α}
    {code : List (Instr α)} (T : F.Tended c) (g : c.machine.Governed) (hi : F.Admits c i)
    (hheld : c.machine.Holds i)
    (h : c.machine.Rule heedStop self i m₁ code) : Lightens c.machine i (some (m₁, code)) := by
  cases hi with
  | start => exact start_lightens h
  | enter => exact enter_lightens h
  | perform =>
    cases h
    exact lightens_then (Nat.le_refl _) (Nat.lt_succ_self 2)
  -- the body of a continuation is carried out: what follows is an attempt to settle the task
  | andThen => cases h <;> exact lightens_then (Nat.le_refl _) (Nat.lt_succ_self 2)
  | orElse => cases h <;> exact lightens_then (Nat.le_refl _) (Nat.lt_succ_self 2)
  | ending => exact settle_lightens h rfl (by simp)
  | late => exact settle_lightens h rfl (by simp)
  | cancelling _ ht hrank => exact settle_lightens h (g.grounded _ hheld) fun _ => ⟨ht, hrank⟩
  | failing => exact settle_lightens h (g.grounded _ hheld) (by simp)
  | signal | dropBody =>
    cases h
    exact lightens_done (store_modify_le fun _ => Nat.le_refl _) Nat.one_pos
  | release => exact release_lightens h
  | dispatch => exact dispatch_lightens h
  | register => exact register_lightens h
  | @cancel t =>
    cases h with
    | cancel =>
      refine lightens_then (Nat.le_refl _) ?_
      simp only [Instr.weight]
      omega
    | cancelLate => exact lightens_done (Nat.le_refl _) (Nat.add_pos_left Nat.one_pos _)
  | fail =>
    cases h
    exact lightens_then (Nat.le_refl _) (Nat.lt_succ_self 4)
  | submit hphase =>
    cases h with
    | submit =>
      have hbound : (c.machine.modify 0 fun x => { x with bound := true }).store ≤
          c.machine.store := store_modify_le fun _ => Nat.le_refl _
      exact lightens_then hbound (Nat.lt_succ_self 6)
    | submitRefused hrefused => exact absurd hphase hrefused
  | enqueue => exact enqueue_lightens h T.duty.signal
  | microtask _ hphase => exact microtask_lightens h (by simp [hphase])
  | answer | leave | record =>
    cases h
    exact lightens_done (Nat.le_refl _) Nat.one_pos

/-- **A turn in a run of the family leaves fewer steps to be taken.** -/
theorem Tended.weight_turn {heedStop : Bool} {self : Nat} {d : Chronicle α} (T : F.Tended c)
    (g : c.machine.Governed) (hturn : c.turn heedStop self = some d) :
    d.machine.weight < c.machine.weight := by
  have hrank := rank_step (Chronicle.turn_step hturn)
  cases T.turns g hturn with
  | @carried s i rest code m₁ answer hs hcode hi hexec hsequel hd hevents =>
    have hheld : c.machine.Holds i := ⟨s, List.mem_of_getElem? hs, hcode ▸ List.mem_cons_self⟩
    refine weight_set hs (congrArg strands hd) hrank ?_
    have hless := rule_lightens T g hi hheld (exec_ruled hexec) m₁ code rfl
    have hrest := codeWeight_le hrank rest
    have hstore : d.machine.store = m₁.store := by rw [hd]; rfl
    have hnew : d.machine.codeWeight code = m₁.codeWeight code := by rw [hd]; rfl
    have hhead : c.machine.codeWeight s.code = i.weight c.machine + c.machine.codeWeight rest := by
      rw [hcode, ← List.singleton_append, codeWeight_append, codeWeight_singleton]
    rw [codeWeight_append, hstore, hnew, hhead]
    omega
  | @taken s code l hs hcode hd hevents hphase hsignal htimers hqueue hmicrotasks hnew hcount =>
    refine weight_set hs (congrArg strands hd) hrank ?_
    obtain ⟨n, hn, hlength, hfewer⟩ := hcount
    have hcode' : d.machine.codeWeight code ≤ 1 * code.length :=
      codeWeight_le_length fun j hj => by
        rcases hnew j hj with ⟨t, rfl, -⟩ | ⟨t, rfl | rfl⟩ <;> exact Nat.le_refl 1
    have hstore : d.machine.store = (c.machine.tasks.map TaskCell.weight).sum +
        4 * (l.queue.length + l.microtasks.length) := by rw [hd]; rfl
    show d.machine.store + d.machine.codeWeight code < _
    rw [hcode, codeWeight_nil, hstore]
    unfold store
    omega

end Family

/-! ### Coming to rest -/

namespace Chronicle

/-- What may come of a run when nobody calls any more: so many turns, and time that passes. -/
inductive Continues (c : Chronicle α) : Nat → Chronicle α → Prop where
  | refl : Continues c 0 c
  | turn {n : Nat} {d e : Chronicle α} (h : Continues c n d) (heedStop : Bool) (self : Nat)
      (hturn : d.turn heedStop self = some e) : Continues c (n + 1) e
  | elapse {n : Nat} {d : Chronicle α} (h : Continues c n d) (micros : Nat) :
      Continues c n (d.act (·.elapse micros))

theorem Continues.trans {c d e : Chronicle α} {n k : Nat} (h : c.Continues n d)
    (h' : d.Continues k e) : c.Continues (n + k) e := by
  induction h' with
  | refl => exact h
  | turn _ heedStop self hturn ih => exact ih.turn heedStop self hturn
  | elapse _ micros ih => exact ih.elapse micros

end Chronicle

namespace Family

variable {F : Family α} {c d : Chronicle α} {config : LoopConfig} {workers n : Nat}

/-- The turns that follow are bounded by what is left to be done. -/
theorem Unfolds.continues (h : F.Unfolds config workers c) (hcontinues : c.Continues n d) :
    F.Unfolds config workers d ∧ n + d.machine.weight ≤ c.machine.weight := by
  induction hcontinues with
  | refl => exact ⟨h, Nat.le_of_eq (Nat.zero_add _)⟩
  | turn _ heedStop self hturn ih =>
    obtain ⟨hd, hle⟩ := ih
    have hless := hd.tended.weight_turn hd.reaches.governed hturn
    exact ⟨hd.turn heedStop self hturn, by omega⟩
  | elapse _ micros ih => exact ih.imp_left (·.elapsed micros)

/-- **Every run comes to rest**, whatever the order of the turns, when nobody calls any more. -/
theorem Unfolds.comes_to_rest (h : F.Unfolds config workers c) :
    (∀ n d, c.Continues n d → n ≤ c.machine.weight) ∧
      ∃ n d, c.Continues n d ∧ F.Unfolds config workers d ∧ d.machine.AtRest := by
  refine ⟨fun n d hcontinues => Nat.le_of_add_right_le (h.continues hcontinues).2, ?_⟩
  induction hweight : c.machine.weight using Nat.strongRecOn generalizing c with
  | _ weight ih =>
    subst hweight
    by_cases hrest : c.machine.AtRest
    · exact ⟨0, c, .refl, h, hrest⟩
    · -- somebody can take a turn, perhaps after some time
      simp only [Machine.AtRest, not_forall] at hrest
      obtain ⟨micros, heedStop, self, hstep⟩ := hrest
      obtain ⟨m, hm⟩ := Option.ne_none_iff_exists'.mp hstep
      have hlater := h.elapsed micros
      have hturn : (c.act (·.elapse micros)).turn heedStop self = some _ :=
        congrArg (Option.map _) hm
      have hless := hlater.tended.weight_turn hlater.reaches.governed hturn
      obtain ⟨n, d, hcontinues, hend⟩ := ih _ hless (hlater.turn heedStop self hturn) rfl
      have hfirst := (Chronicle.Continues.refl (c := c)).elapse micros |>.turn heedStop self hturn
      exact ⟨_, d, hfirst.trans hcontinues, hend⟩

end Family

end ManagedHost
