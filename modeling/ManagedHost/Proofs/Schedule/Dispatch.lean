import ManagedHost.Proofs.Loop.Stopped
import ManagedHost.Proofs.Schedule.Agenda

/-!
# What a step does to the scheduler

`Machine.exec_schedules` says once, for all instructions, what carrying one out does to the
scheduler (`SchedulerEffect`), and `Chronicle.turn_shift` says it for a step of a strand
(`Chronicle.Shift`): it carries out an instruction, finds work that is none of the scheduler's
business, or is the dispatcher and takes the entry that is due first.
-/

namespace ManagedHost

variable {α : Type}

namespace Instr

/-- Whether the instruction offers a task of the scheduler to the loop. -/
def isOffer : Instr α → Bool
  | submit _ who => who == .dispatcher
  | _ => false

/-- Whether the instruction waits until the loop has room for a task of the scheduler. -/
def isParked : Instr α → Bool
  | enqueue _ who => who == .dispatcher
  | _ => false

/-- Whether the instruction is part of a call that stops the scheduler. -/
def isClosing : Instr α → Bool
  | stopScheduler | joinDispatcher => true
  | _ => false

/-- Whether the instruction concerns the scheduler. -/
def isScheduling (j : Instr α) : Bool := j.isOffer || j.isParked || j.isClosing

theorem isOffer_iff {j : Instr α} : j.isOffer = true ↔ ∃ t, j = .submit t .dispatcher := by
  cases j with
  | submit t who => cases who <;> simp [isOffer]
  | _ => simp [isOffer]

theorem isParked_iff {j : Instr α} : j.isParked = true ↔ ∃ t, j = .enqueue t .dispatcher := by
  cases j with
  | enqueue t who => cases who <;> simp [isParked]
  | _ => simp [isParked]

theorem isScheduling_eq_false {j : Instr α} :
    j.isScheduling = false ↔ j.isOffer = false ∧ j.isParked = false ∧ j.isClosing = false := by
  simp only [isScheduling, Bool.or_eq_false_iff, and_assoc]

end Instr

/-- **The effect of an instruction of the strand `self` on the scheduler**: the instructions that
follow, and the scheduler afterwards. -/
inductive SchedulerEffect (m : Machine α) (self : Nat) :
    Instr α → List (Instr α) → Scheduler → Prop where
  | same {i : Instr α} {code : List (Instr α)} (hi : i.isScheduling = false)
      (hcode : code.all (!·.isScheduling) = true) : SchedulerEffect m self i code m.scheduler
  | offered {t : TaskId} :
      SchedulerEffect m self (.submit t .dispatcher) [.enqueue t .dispatcher] m.scheduler
  | failed {t : TaskId} {e : TaskError} {i : Instr α}
      (hi : i = .submit t .dispatcher ∨ i = .enqueue t .dispatcher) :
      SchedulerEffect m self i [.fail t e]
        { m.scheduler with failures := m.scheduler.failures + 1 }
  | dispatched {t : TaskId} :
      SchedulerEffect m self (.enqueue t .dispatcher) []
        { m.scheduler with dispatched := m.scheduler.dispatched + 1 }
  | closed (hphase : m.scheduler.phase ≠ .stopped) :
      SchedulerEffect m self .stopScheduler
        ([Instr.joinDispatcher] ++ m.scheduler.queue.entries.map (Instr.cancel ·.task) ++
          [Instr.stopLoop])
        { m.scheduler with phase := .stopped, queue := m.scheduler.queue.drain.2 }
  | late (hphase : m.scheduler.phase = .stopped) :
      SchedulerEffect m self .stopScheduler [] m.scheduler
  | joined (hothers : m.othersAny self (fun s => s.role == .dispatcher && !s.exited) = false) :
      SchedulerEffect m self .joinDispatcher [] m.scheduler

namespace SchedulerEffect

variable {m : Machine α} {self : Nat} {i j : Instr α} {code : List (Instr α)} {s : Scheduler}

theorem phase_eq (h : SchedulerEffect m self i code s) :
    s.phase = m.scheduler.phase ∨ s.phase = .stopped := by
  cases h with
  | closed => exact Or.inr rfl
  | _ => exact Or.inl rfl

/-- Only an offer leaves something that waits for room, and only a call of stop goes on as one. -/
theorem leaves (h : SchedulerEffect m self i code s) (hj : j ∈ code) : j.isOffer = false ∧
    (j.isParked = true → i.isOffer = true ∧ code = [j]) ∧
    (j.isClosing = true → i = .stopScheduler) := by
  have hnone : j.isScheduling = false → j.isOffer = false ∧
      (j.isParked = true → i.isOffer = true ∧ code = [j]) ∧
      (j.isClosing = true → i = .stopScheduler) := by
    intro hj
    obtain ⟨hoffer, hparked, hclosing⟩ := Instr.isScheduling_eq_false.mp hj
    exact ⟨hoffer, fun h => absurd h (Bool.eq_false_iff.mp hparked),
      fun h => absurd h (Bool.eq_false_iff.mp hclosing)⟩
  cases h with
  | same _ hcode => exact hnone (by simpa using List.all_eq_true.mp hcode j hj)
  | offered =>
    obtain rfl := List.mem_singleton.mp hj
    exact ⟨rfl, fun _ => ⟨rfl, rfl⟩, fun h => absurd h Bool.false_ne_true⟩
  | failed =>
    obtain rfl := List.mem_singleton.mp hj
    exact hnone rfl
  | closed =>
    refine ⟨?_, fun hparked => ?_, fun _ => rfl⟩
    · simp only [List.mem_append, List.mem_singleton, List.mem_map] at hj
      rcases hj with (rfl | ⟨e, -, rfl⟩) | rfl <;> rfl
    · simp only [List.mem_append, List.mem_singleton, List.mem_map] at hj
      rcases hj with (rfl | ⟨e, -, rfl⟩) | rfl <;> cases hparked
  | _ => exact absurd hj List.not_mem_nil

/-- A hand-over that is offered may wait for room after that; nothing else is offered. -/
theorem countP_le (h : SchedulerEffect m self i code s) :
    code.countP Instr.isOffer = 0 ∧
      code.countP Instr.isParked ≤ if i.isOffer then 1 else 0 := by
  refine ⟨List.countP_eq_zero.mpr fun j hj => Bool.eq_false_iff.mp (h.leaves hj).1, ?_⟩
  by_cases hparked : ∃ j ∈ code, j.isParked = true
  · obtain ⟨j, hj, hparked⟩ := hparked
    obtain ⟨hoffer, rfl⟩ := (h.leaves hj).2.1 hparked
    rw [if_pos hoffer, List.countP_singleton, if_pos hparked]
  · have hnone : code.countP Instr.isParked = 0 :=
      List.countP_eq_zero.mpr fun j hj hj' => hparked ⟨j, hj, hj'⟩
    rw [hnone]
    exact Nat.zero_le _

end SchedulerEffect

/-- Code that is none of the scheduler's business hands nothing over. -/
theorem countP_of_all {code : List (Instr α)} (h : code.all (!·.isScheduling) = true) :
    code.countP Instr.isOffer = 0 ∧ code.countP Instr.isParked = 0 := by
  have hnone : ∀ j ∈ code, j.isScheduling = false := by simpa using h
  constructor
  · refine List.countP_eq_zero.mpr fun j hj => Bool.eq_false_iff.mp ?_
    exact (Instr.isScheduling_eq_false.mp (hnone j hj)).1
  · refine List.countP_eq_zero.mpr fun j hj => Bool.eq_false_iff.mp ?_
    exact (Instr.isScheduling_eq_false.mp (hnone j hj)).2.1

namespace Machine

variable {m m' : Machine α} {t : TaskId} {self : Nat} {heedStop : Bool} {i : Instr α}
  {code : List (Instr α)}

/-! ### Carrying out an instruction -/

/-- What the instruction does to the scheduler and the clock if it need not wait. -/
def Schedules (m : Machine α) (self : Nat) (i : Instr α)
    (result : Option (Machine α × List (Instr α))) : Prop :=
  ∀ m' code, result = some (m', code) →
    SchedulerEffect m self i code m'.scheduler ∧ m'.clock = m.clock

theorem Rule.schedules (h : m.Rule heedStop self i m' code) :
    SchedulerEffect m self i code m'.scheduler := by
  cases h with
  -- submissions are the scheduler's business when they come from its dispatcher
  | @submit t who =>
    cases who with
    | dispatcher => exact .offered
    | _ => exact .same rfl rfl
  | @submitRefused t who =>
    cases who with
    | dispatcher => exact .failed (Or.inl rfl)
    | _ => exact .same rfl rfl
  | @enqueue t who =>
    cases who with
    | dispatcher => exact .dispatched
    | _ => exact .same rfl rfl
  | @enqueueRefused t who =>
    cases who with
    | dispatcher => exact .failed (Or.inr rfl)
    | _ => exact .same rfl rfl
  | stopScheduler hphase => exact .closed hphase
  | stopSchedulerLate hphase => exact .late hphase
  | joinDispatcher hothers => exact .joined hothers
  -- the others are not
  | settle => exact .same rfl (all_settled rfl rfl rfl _ _)
  | settleLate => exact .same rfl (all_retried rfl _)
  | dispatch => exact .same rfl (all_dispatched (fun _ => rfl) (fun _ => rfl) _ _)
  | @microtask t caller | @microtaskRefused t caller => exact .same rfl (by cases caller <;> rfl)
  | scanDone => exact .same rfl (all_due (fun _ => rfl) _)
  | sweepLoop => exact .same rfl (all_swept (fun _ => rfl) (fun _ => rfl) _ _)
  | _ => exact .same rfl rfl

theorem Rule.clock (h : m.Rule heedStop self i m' code) : m'.clock = m.clock := by
  cases h with
  | @submitRefused t who | @enqueueRefused t who | @enqueue t who => cases who <;> rfl
  | _ => rfl

/-- **What an instruction does to the scheduler.** -/
theorem exec_schedules (heedStop : Bool) (i : Instr α) :
    m.Schedules self i (m.exec heedStop self i) := by
  intro m' code h
  have hrule := exec_ruled h
  exact ⟨hrule.schedules, hrule.clock⟩

/-! ### Looking for work -/

/-- What the threads of the loop find to do is none of the scheduler's business. -/
theorem Finds.schedules_same {role : Role} {exited : Bool} (h : m.Finds role m' code exited)
    (hrole : role ≠ .dispatcher) : code.all (!·.isScheduling) = true ∧
      m'.scheduler = m.scheduler ∧ m'.clock = m.clock := by
  cases h with
  | leaves => exact ⟨rfl, rfl, rfl⟩
  | task => exact ⟨rfl, rfl, rfl⟩
  | microtasks =>
    refine ⟨List.all_eq_true.mpr fun j hj => ?_, rfl, rfl⟩
    obtain ⟨t, -, hj⟩ := List.mem_flatMap.mp hj
    simp only [runTask, List.mem_cons, List.not_mem_nil, or_false] at hj
    rcases hj with rfl | rfl | rfl <;> rfl
  | timers => exact ⟨rfl, rfl, rfl⟩
  | due => exact absurd rfl hrole

/-- The dispatcher leaves once the scheduler does not run, and otherwise takes what is due. -/
theorem idleStep_dispatcher {exited : Bool}
    (h : m.idleStep heedStop .dispatcher = some (m', code, exited)) :
    m.scheduler.phase ≠ .running ∧ m' = m ∧ code = [] ∨
      m.scheduler.phase = .running ∧ ∃ e queue, m.scheduler.queue.popDue m.clock = some (e, queue) ∧
        m' = { m with scheduler := { m.scheduler with queue } } ∧
        code = [.submit e.task .dispatcher] ∧ exited = false := by
  simp only [idleStep] at h
  split_ifs at h with hphase
  · obtain ⟨rfl, rfl, -⟩ := h
    exact Or.inl ⟨hphase, rfl, rfl⟩
  · split at h
    · next e queue hpop =>
      obtain ⟨rfl, rfl, rfl⟩ := h
      exact Or.inr ⟨not_not.mp hphase, e, queue, hpop, rfl, rfl, rfl⟩
    · cases h

end Machine

namespace Chronicle

open Machine

variable {c d : Chronicle α} {heedStop : Bool} {self : Nat}

/-- **A step of the strand `self`, as the scheduler sees it.** -/
inductive Shift (c : Chronicle α) (self : Nat) (d : Chronicle α) : Prop where
  /-- It carries out an instruction. -/
  | carried {s : Strand α} {i : Instr α} {rest code : List (Instr α)}
      {answer : Option (TaskResult Unit)} {added : List (Strand α)}
      (hs : c.machine.strands[self]? = some s) (hexited : s.exited = false)
      (hcode : s.code = i :: rest)
      (heffect : SchedulerEffect c.machine self i code d.machine.scheduler)
      (hadded : ∀ a ∈ added, a.IsSetup)
      (hstrands : d.machine.strands =
        c.machine.strands.set self { s with code := code ++ rest, answer } ++ added)
      (hevents : d.events = c.events ++ [⟨c.machine, d.machine, self, i⟩])
  /-- It finds something to do in the loop, or leaves. -/
  | found {s : Strand α} {code : List (Instr α)} {exited : Bool}
      (hs : c.machine.strands[self]? = some s) (hexited : s.exited = false) (hcode : s.code = [])
      (hnew : code.all (!·.isScheduling) = true)
      (hstrands : d.machine.strands = c.machine.strands.set self { s with code, exited })
      (hscheduler : d.machine.scheduler = c.machine.scheduler) (hevents : d.events = c.events)
  /-- It is the dispatcher and takes the entry that is due first. -/
  | took {s : Strand α} {e : Scheduled TaskId} {queue : DeadlineQueue TaskId}
      (hs : c.machine.strands[self]? = some s) (hrole : s.role = .dispatcher)
      (hexited : s.exited = false) (hcode : s.code = [])
      (hpop : c.machine.scheduler.queue.popDue c.machine.clock = some (e, queue))
      (hstrands : d.machine.strands = c.machine.strands.set self
        { s with code := [.submit e.task .dispatcher], exited := false })
      (hscheduler : d.machine.scheduler = { c.machine.scheduler with queue })
      (hevents : d.events = c.events)

theorem turn_shift (h : c.turn heedStop self = some d) :
    c.Shift self d ∧ d.machine.clock = c.machine.clock := by
  have hstep := turn_step h
  cases turn_turn h with
  | @carried s i rest code m₁ answer added hs hexited hcode hexec hadded hd hevents =>
    obtain ⟨heffect, hclock⟩ := exec_schedules heedStop i m₁ code hexec
    rw [show m₁.scheduler = d.machine.scheduler by rw [hd]] at heffect
    rw [show m₁.clock = d.machine.clock by rw [hd]] at hclock
    exact ⟨.carried hs hexited hcode heffect hadded (congrArg strands hd) hevents, hclock⟩
  | @found s role code m₁ exited hs hrole hexited hcode hfinds hd hevents =>
    by_cases hdispatcher : role = .dispatcher
    · -- what the dispatcher finds is not recorded, so the step is looked at again
      subst hdispatcher
      simp only [Machine.step, hs, hexited, hcode, hrole, Bool.false_eq_true, if_false,
        Option.map_eq_some_iff] at hstep
      obtain ⟨⟨m₂, code₂, exited₂⟩, hidle, hm₂⟩ := hstep
      rcases idleStep_dispatcher hidle with
        ⟨-, rfl, rfl⟩ | ⟨-, e, queue, hpop, rfl, rfl, rfl⟩
      · have hstrands : d.machine.strands =
            c.machine.strands.set self { s with code := [], exited := exited₂ } := by
          rw [← hm₂]
          exact modify_eq_set hs _
        refine ⟨.found hs hexited hcode List.all_nil hstrands ?_ hevents, ?_⟩
        · rw [← hm₂]
        · rw [← hm₂]
      · refine ⟨.took hs hrole hexited hcode hpop ?_ ?_ hevents, ?_⟩
        · rw [← hm₂]
          exact modify_eq_set hs _
        · rw [← hm₂]
        · rw [← hm₂]
    · obtain ⟨hnew, hscheduler, hclock⟩ := hfinds.schedules_same hdispatcher
      rw [show m₁.scheduler = d.machine.scheduler by rw [hd]] at hscheduler
      rw [show m₁.clock = d.machine.clock by rw [hd]] at hclock
      exact ⟨.found hs hexited hcode hnew (congrArg strands hd) hscheduler hevents, hclock⟩

end Chronicle

end ManagedHost
