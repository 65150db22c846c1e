import ManagedHost.Proofs.Schedule.Dispatch
import Mathlib.Data.List.Forall2

/-!
# Dockets

A docket is the chronicle of a machine together with the entries that its scheduler has accepted.
From the chronicle one reads off which tasks were handed to the loop and when, which entries were
dropped when the scheduler was stopped, and who stopped it.

* `Docket.submit_cases`: a submission is accepted unless the scheduler has stopped.
* `Docket.Reaches.manned`: the scheduler has one dispatcher at most, and nobody else hands tasks
  over in its name.
-/

namespace ManagedHost

variable {α : Type}

namespace Event

/-- The task and the time, if a task of the scheduler is handed to the loop. -/
def handover? (v : Event α) : Option (TaskId × Nat) :=
  match v.instr with
  | .submit t who => if who = .dispatcher then some (t, v.before.clock) else none
  | _ => none

/-- The strand, if it stops the scheduler. -/
def closer? (v : Event α) : Option Nat :=
  match v.instr with
  | .stopScheduler => if v.before.scheduler.phase = .stopped then none else some v.strand
  | _ => none

/-- The entries that are taken off the queue when the scheduler is stopped. -/
def dropped (v : Event α) : List (Scheduled TaskId) :=
  if v.closer?.isSome then v.before.scheduler.queue.entries else []

theorem instr_of_closer? {v : Event α} {n : Nat} (h : v.closer? = some n) :
    v.instr = .stopScheduler := by
  unfold closer? at h
  split at h
  · assumption
  · cases h

/-- What is none of the scheduler's business is not recorded. -/
theorem aside {v : Event α} (h : v.instr.isScheduling = false) :
    v.handover? = none ∧ v.closer? = none := by
  unfold handover? closer?
  cases hinstr : v.instr with
  | submit t who =>
    rw [hinstr] at h
    cases who with
    | dispatcher => cases h
    | _ => exact ⟨rfl, rfl⟩
  | stopScheduler =>
    rw [hinstr] at h
    cases h
  | _ => exact ⟨rfl, rfl⟩

end Event

namespace Machine

/-- How many tasks of the scheduler are about to be offered to the loop. -/
def offered (m : Machine α) : Nat := m.work.countP fun w => w.2.isOffer

/-- How many tasks of the scheduler wait until the loop has room. -/
def parked (m : Machine α) : Nat := m.work.countP fun w => w.2.isParked

/-- **What can happen around a scheduler**: whatever callers may do, except that they leave it alone
and hand over nothing in its dispatcher's name. -/
structure Aside (m m' : Machine α) : Prop where
  move : m.Move m'
  scheduler : m'.scheduler = m.scheduler
  strands : ∀ s ∈ m'.strands.drop m.strands.length,
    s.role ≠ .dispatcher ∧ ∀ j ∈ s.code, j.isOffer = false

theorem aside_newTask (m : Machine α) (body : Body α)
    (hbody : (TaskCell.ofBody body).parent = none) : m.Aside (m.newTask body).2 where
  move := .newTask body none hbody
  scheduler := rfl
  strands := by
    rw [show (m.newTask body).2.strands = m.strands from rfl, List.drop_length]
    exact fun s hs => absurd hs List.not_mem_nil

theorem aside_call (m : Machine α) {i : Instr α} (hcall : i.IsCall) (hgrounded : i.Grounded 0)
    (hoffer : i.isOffer = false) : m.Aside (m.call [i]).2 where
  move := .call [i] (List.forall_mem_singleton.mpr ⟨hcall, hgrounded.mono (Nat.zero_le _)⟩)
  scheduler := rfl
  strands := by
    rw [show (m.call [i]).2.strands = m.strands ++ [{ role := .caller, code := [i] }] from rfl,
      List.drop_left]
    exact List.forall_mem_singleton.mpr ⟨Role.noConfusion, List.forall_mem_singleton.mpr hoffer⟩

end Machine

/-- The chronicle of a machine, and the entries that its scheduler has accepted. -/
structure Docket (α : Type) extends Chronicle α where
  /-- The entries that were accepted, oldest first. -/
  received : List (Scheduled TaskId) := []

namespace Docket

open Machine

/-- Let a strand take a step; `none` while it has to wait. -/
def turn (heedStop : Bool) (self : Nat) (d : Docket α) : Option (Docket α) :=
  (d.toChronicle.turn heedStop self).map fun c => { d with toChronicle := c }

/-- Let strands take steps in the order of the list; those that have to wait take none. -/
def run (selves : List Nat) (d : Docket α) : Docket α :=
  selves.foldl (fun d self => (d.turn true self).getD d) d

/-- Let a caller do something. -/
def act (f : Machine α → Machine α) (d : Docket α) : Docket α :=
  { d with machine := f d.machine }

/-- Let a call begin. -/
def call (i : Instr α) (d : Docket α) : Docket α := d.act fun m => (m.call [i]).2

/-- Submit a task to the scheduler: the answer, and what is recorded. -/
def submit (t : TaskId) (priority : Int) (deadline : Nat) (d : Docket α) :
    Except TaskError Unit × Docket α :=
  match d.machine.schedule t priority deadline with
  | .ok m =>
    (.ok (), { d with
      machine := m
      received := d.received ++ [⟨t, priority, deadline, d.machine.scheduler.queue.pushed⟩] })
  | .error e => (.error e, d)

/-- What can be reached: by steps of the strands, submissions of tasks that are there, the start of
the scheduler, and anything around it. -/
inductive Reaches (d : Docket α) : Docket α → Prop where
  | refl : Reaches d d
  | turn {e f : Docket α} (h : Reaches d e) (heedStop : Bool) (self : Nat)
      (hturn : e.turn heedStop self = some f) : Reaches d f
  | submit {e : Docket α} (h : Reaches d e) (t : TaskId) (priority : Int) (deadline : Nat)
      (ht : t < e.machine.tasks.length) : Reaches d (e.submit t priority deadline).2
  | startScheduler {e : Docket α} (h : Reaches d e) : Reaches d (e.act Machine.startScheduler)
  | aside {e : Docket α} (h : Reaches d e) {m : Machine α} (haside : e.machine.Aside m) :
      Reaches d { e with machine := m }

/-- Nothing has happened yet. -/
def start (config : LoopConfig) (workers : Nat) : Docket α :=
  { toChronicle := Chronicle.start config workers }

/-- The entries that wait for their deadline. -/
def waiting (d : Docket α) : List (Scheduled TaskId) := d.machine.scheduler.queue.entries

/-- The tasks that were handed to the loop, each with the time. -/
def handovers (d : Docket α) : List (TaskId × Nat) := d.events.filterMap Event.handover?

/-- The entries that were taken off the queue when the scheduler was stopped. -/
def dropped (d : Docket α) : List (Scheduled TaskId) := d.events.flatMap Event.dropped

/-- Who stopped the scheduler. -/
def closers (d : Docket α) : List Nat := d.events.filterMap Event.closer?

variable {d e f : Docket α} {heedStop : Bool} {self : Nat} {config : LoopConfig} {workers : Nat}

theorem Reaches.trans (h : d.Reaches e) (h' : e.Reaches f) : d.Reaches f := by
  induction h' with
  | refl => exact h
  | turn _ heedStop self hturn ih => exact ih.turn heedStop self hturn
  | submit _ t priority deadline ht ih => exact ih.submit t priority deadline ht
  | startScheduler _ ih => exact ih.startScheduler
  | aside _ haside ih => exact ih.aside haside

theorem Reaches.run (h : d.Reaches e) (selves : List Nat) : d.Reaches (e.run selves) := by
  induction selves generalizing e with
  | nil => exact h
  | cons self rest ih =>
    refine ih ?_
    show d.Reaches ((e.turn true self).getD e)
    cases hturn : e.turn true self with
    | none => exact h
    | some f => exact h.turn true self hturn

theorem Reaches.newTask (h : d.Reaches e) (body : Body α)
    (hbody : (TaskCell.ofBody body).parent = none) :
    d.Reaches (e.act fun m => (m.newTask body).2) :=
  h.aside (e.machine.aside_newTask body hbody)

theorem Reaches.call (h : d.Reaches e) (i : Instr α) (hcall : i.IsCall) (hgrounded : i.Grounded 0)
    (hoffer : i.isOffer = false) : d.Reaches (e.call i) :=
  h.aside (e.machine.aside_call hcall hgrounded hoffer)

/-- What a turn leaves as it is. -/
theorem turn_eq (h : d.turn heedStop self = some e) :
    d.toChronicle.turn heedStop self = some e.toChronicle ∧ e.received = d.received := by
  obtain ⟨c, hc, rfl⟩ := Option.map_eq_some_iff.mp h
  exact ⟨hc, rfl⟩

/-- **A submission is accepted unless the scheduler has stopped**; then it is refused, and nothing
changes. -/
theorem submit_cases (t : TaskId) (priority : Int) (deadline : Nat) (d : Docket α) :
    d.machine.scheduler.phase ≠ .stopped ∧ d.submit t priority deadline =
        (.ok (), { d with
          machine := { d.machine with scheduler := { d.machine.scheduler with
            queue := d.machine.scheduler.queue.push t priority deadline
            scheduled := d.machine.scheduler.scheduled + 1 } }
          received := d.received ++ [⟨t, priority, deadline, d.machine.scheduler.queue.pushed⟩] }) ∨
      d.machine.scheduler.phase = .stopped ∧
        d.submit t priority deadline = (.error .stopped, d) := by
  unfold submit Machine.schedule Scheduler.submit
  by_cases hphase : d.machine.scheduler.phase = .stopped
  · rw [if_pos hphase]
    exact Or.inr ⟨hphase, rfl⟩
  · rw [if_neg hphase]
    exact Or.inl ⟨hphase, rfl⟩

/-- A run of a docket is one of its chronicle. -/
theorem Reaches.chronicle (h : d.Reaches e) : d.toChronicle.Reaches e.toChronicle := by
  induction h with
  | refl => exact .refl
  | turn _ heedStop self hturn ih => exact ih.turn heedStop self (turn_eq hturn).1
  | @submit e _ t priority deadline ht ih =>
    rcases e.submit_cases t priority deadline with ⟨hphase, hsubmit⟩ | ⟨-, hsubmit⟩
    · rw [hsubmit]
      refine ih.move (.schedule t priority deadline ?_)
      unfold Machine.schedule Scheduler.submit
      rw [if_neg hphase]
      rfl
    · rw [hsubmit]
      exact ih
  | startScheduler _ ih => exact ih.move .startScheduler
  | aside _ haside ih => exact ih.move haside.move

end Docket

/-! ### The dispatcher -/

namespace Machine

/-- Whether the scheduler has no dispatcher. -/
def Unmanned (m : Machine α) : Prop := ∀ s ∈ m.strands, s.role ≠ .dispatcher

/-- **Who speaks for the scheduler.** -/
structure Manned (m : Machine α) : Prop where
  unstarted : m.scheduler.phase = .idle → m.Unmanned
  single : ∀ (n k : Nat) (s r : Strand α), m.strands[n]? = some s → m.strands[k]? = some r →
    s.role = .dispatcher → r.role = .dispatcher → n = k
  /-- Where there is a dispatcher, the loop has been started. -/
  loop : ∀ s ∈ m.strands, s.role = .dispatcher → m.loop.phase ≠ .idle
  /-- Only the dispatcher hands tasks over, and then that is all it has to do. -/
  handing : ∀ s ∈ m.strands, ∀ j ∈ s.code, j.isOffer = true ∨ j.isParked = true →
    s.role = .dispatcher ∧ s.code = [j]
  closing : ∀ s ∈ m.strands, ∀ j ∈ s.code, j.isClosing = true → s.role = .caller
  few : m.offered + m.parked ≤ 1

theorem manned_initial (config : LoopConfig) (workers : Nat) :
    (initial config workers : Machine α).Manned where
  unstarted := fun _ _ hs => absurd hs List.not_mem_nil
  single := fun _ _ _ _ hs => absurd hs (Option.not_mem_none _)
  loop := fun _ hs => absurd hs List.not_mem_nil
  handing := fun _ hs => absurd hs List.not_mem_nil
  closing := fun _ hs => absurd hs List.not_mem_nil
  few := Nat.zero_le 1

variable {m m' : Machine α} {self : Nat} {s r : Strand α}

theorem Manned.strand_eq (h : m.Manned) (hs : m.strands[self]? = some s)
    (hrole : s.role = .dispatcher) (hr : r ∈ m.strands) (hrole' : r.role = .dispatcher) :
    r = s := by
  obtain ⟨k, hk⟩ := List.mem_iff_getElem?.mp hr
  obtain rfl := h.single k self r s hk hs hrole' hrole
  exact Option.some.inj (hk.symm.trans hs)

/-- While the dispatcher has nothing to do, nothing is handed over. -/
theorem Manned.none_handed (h : m.Manned) (hs : m.strands[self]? = some s)
    (hrole : s.role = .dispatcher) (hcode : s.code = []) : m.offered = 0 ∧ m.parked = 0 := by
  have hnone : ∀ w ∈ m.work, ¬ (w.2.isOffer = true ∨ w.2.isParked = true) := by
    intro w hw hhanding
    obtain ⟨r, hr, hj⟩ := holds_of_mem_work hw
    obtain ⟨hrole', hcode'⟩ := h.handing r hr w.2 hj hhanding
    rw [h.strand_eq hs hrole hr hrole', hcode] at hcode'
    cases hcode'
  exact ⟨List.countP_eq_zero.mpr fun w hw hoffer => hnone w hw (Or.inl hoffer),
    List.countP_eq_zero.mpr fun w hw hparked => hnone w hw (Or.inr hparked)⟩

theorem offered_append {new : List (Strand α)} (hstrands : m'.strands = m.strands ++ new)
    (hnew : ∀ s ∈ new, ∀ j ∈ s.code, j.isOffer = false) : m'.offered = m.offered :=
  countP_work_append Instr.isOffer hstrands hnew

theorem parked_append {new : List (Strand α)} (hstrands : m'.strands = m.strands ++ new)
    (hnew : ∀ s ∈ new, ∀ j ∈ s.code, j.isParked = false) : m'.parked = m.parked :=
  countP_work_append Instr.isParked hstrands hnew

/-- Where no dispatcher is added, a dispatcher was there before. -/
theorem dispatcher_append {new : List (Strand α)} (hstrands : m'.strands = m.strands ++ new)
    (hnew : ∀ s ∈ new, s.role ≠ .dispatcher) {k : Nat} (hr : m'.strands[k]? = some r)
    (hrole : r.role = .dispatcher) : m.strands[k]? = some r := by
  rw [hstrands] at hr
  rcases Nat.lt_or_ge k m.strands.length with hlt | hge
  · rwa [List.getElem?_append_left hlt] at hr
  · rw [List.getElem?_append_right hge] at hr
    exact absurd hrole (hnew r (List.mem_of_getElem? hr))

theorem Unmanned.of_append {new : List (Strand α)} (h : m'.Unmanned)
    (hstrands : m'.strands = m.strands ++ new) : m.Unmanned := by
  intro s hs
  refine h s ?_
  rw [hstrands]
  exact List.mem_append_left _ hs

/-- Strands are added that do not speak for the scheduler. -/
theorem Manned.append (h : m.Manned) {new : List (Strand α)}
    (hstrands : m'.strands = m.strands ++ new) (hphase : m'.scheduler.phase = m.scheduler.phase)
    (hloop : m.loop.phase ≠ .idle → m'.loop.phase ≠ .idle)
    (hnew : ∀ s ∈ new, s.role ≠ .dispatcher ∧ ∀ j ∈ s.code,
      j.isOffer = false ∧ j.isParked = false ∧ s.role = .caller) : m'.Manned := by
  have hold : ∀ (k : Nat) (r : Strand α), m'.strands[k]? = some r → r.role = .dispatcher →
      m.strands[k]? = some r := fun k r => dispatcher_append hstrands fun s hs => (hnew s hs).1
  have hmem : ∀ r ∈ m'.strands, r ∈ m.strands ∨ r ∈ new := fun r hr =>
    List.mem_append.mp (hstrands ▸ hr)
  refine
    { unstarted := fun hidle r hr hrole => ?unstarted,
      single := fun n k s r hs hr hs' hr' => ?single, loop := fun r hr hrole => ?loop,
      handing := fun r hr j hj hhanding => ?handing, closing := fun r hr j hj hclosing => ?closing,
      few := ?few }
  case unstarted =>
    exact h.unstarted (hphase ▸ hidle) r ((hmem r hr).resolve_right fun hr => (hnew r hr).1 hrole)
      hrole
  case single => exact h.single n k s r (hold n s hs hs') (hold k r hr hr') hs' hr'
  case loop =>
    exact hloop (h.loop r ((hmem r hr).resolve_right fun hr => (hnew r hr).1 hrole) hrole)
  case handing =>
    rcases hmem r hr with hr | hr
    · exact h.handing r hr j hj hhanding
    · obtain ⟨hoffer, hparked, -⟩ := (hnew r hr).2 j hj
      rcases hhanding with hhanding | hhanding
      · cases hoffer.symm.trans hhanding
      · cases hparked.symm.trans hhanding
  case closing =>
    rcases hmem r hr with hr | hr
    · exact h.closing r hr j hj hclosing
    · exact ((hnew r hr).2 j hj).2.2
  case few =>
    rw [offered_append hstrands fun s hs j hj => ((hnew s hs).2 j hj).1,
      parked_append hstrands fun s hs j hj => ((hnew s hs).2 j hj).2.1]
    exact h.few

theorem Manned.startLoop (h : m.Manned) : m.startLoop.Manned := by
  unfold Machine.startLoop
  split_ifs
  · refine h.append rfl rfl (fun _ => by simp) fun s hs => ?_
    obtain ⟨-, hrole, hcode⟩ := thread_begins hs
    refine ⟨hrole, fun j hj => ?_⟩
    rw [hcode] at hj
    exact absurd hj List.not_mem_nil
  · exact h

/-- The dispatcher is added. -/
theorem Manned.enlist (h : m.Manned) (hnone : m.Unmanned)
    (hstarted : m.loop.phase ≠ .idle) (hloop : m'.loop = m.loop)
    (hphase : m'.scheduler.phase = .running)
    (hstrands : m'.strands = m.strands ++ [{ role := .dispatcher }]) : m'.Manned := by
  have hlast : ∀ (k : Nat) (r : Strand α), m'.strands[k]? = some r → r.role = .dispatcher →
      k = m.strands.length := by
    intro k r hr hrole
    rw [hstrands] at hr
    rcases Nat.lt_or_ge k m.strands.length with hlt | hge
    · rw [List.getElem?_append_left hlt] at hr
      exact absurd hrole (hnone r (List.mem_of_getElem? hr))
    · exact (eq_of_getElem?_append_one hge hr).1
  have hnil : ∀ r ∈ [({ role := .dispatcher } : Strand α)], ∀ j ∈ r.code, False := by
    intro r hr j hj
    rw [List.mem_singleton.mp hr] at hj
    exact absurd hj List.not_mem_nil
  have hold : ∀ r ∈ m'.strands, ∀ j ∈ r.code, r ∈ m.strands := by
    intro r hr j hj
    rw [hstrands] at hr
    exact (List.mem_append.mp hr).resolve_right fun hr => hnil r hr j hj
  refine
    { unstarted := fun hidle => ?unstarted, single := fun n k s r hs hr hs' hr' => ?single,
      loop := fun _ _ _ => hloop ▸ hstarted,
      handing := fun r hr j hj => h.handing r (hold r hr j hj) j hj,
      closing := fun r hr j hj => h.closing r (hold r hr j hj) j hj, few := ?few }
  case unstarted => cases hphase.symm.trans hidle
  case single => exact (hlast n s hs hs').trans (hlast k r hr hr').symm
  case few =>
    rw [offered_append hstrands fun s hs j hj => (hnil s hs j hj).elim,
      parked_append hstrands fun s hs j hj => (hnil s hs j hj).elim]
    exact h.few

theorem startLoop_eq (m : Machine α) :
    m.startLoop.scheduler = m.scheduler ∧ m.startLoop.clock = m.clock ∧
      m.startLoop.loop.phase ≠ .idle := by
  unfold Machine.startLoop
  split_ifs with hphase
  · exact ⟨rfl, rfl, by simp⟩
  · exact ⟨rfl, rfl, hphase⟩

/-- The dispatcher begins when the scheduler is started. -/
theorem Manned.startScheduler (h : m.Manned) : m.startScheduler.Manned := by
  unfold Machine.startScheduler
  split_ifs with hidle
  · obtain ⟨hscheduler, -, hphase⟩ := m.startLoop_eq
    have hnone := h.startLoop.unstarted (hscheduler ▸ hidle)
    exact h.startLoop.enlist hnone hphase rfl rfl rfl
  · exact h

/-- The strands that callers add do not speak for the scheduler. -/
theorem Aside.new_strands (h : m.Aside m') : ∃ new, m'.strands = m.strands ++ new ∧
    ∀ s ∈ new, s.role ≠ .dispatcher ∧ s.exited = false ∧ ∀ j ∈ s.code,
      j.isOffer = false ∧ j.isParked = false ∧ s.role = .caller := by
  obtain ⟨new, hstrands, hnew⟩ := h.move.around.strands
  refine ⟨new, hstrands, fun s hs => ?_⟩
  have hdrop : s ∈ m'.strands.drop m.strands.length := by
    rwa [hstrands, List.drop_left]
  obtain ⟨hrole, hoffer⟩ := h.strands s hdrop
  obtain ⟨hexited, -, hcaller, hcalls⟩ := hnew s hs
  refine ⟨hrole, hexited, fun j hj => ⟨hoffer j hj, ?_, hcaller.resolve_right fun hnil => ?_⟩⟩
  · have hcall := (hcalls j hj).1
    cases j with
    | enqueue => exact hcall.elim
    | _ => rfl
  · rw [hnil] at hj
    exact absurd hj List.not_mem_nil

theorem Around.started (h : m.Around m') (hphase : m.loop.phase ≠ .idle) :
    m'.loop.phase ≠ .idle := by
  rcases h.loop.phase with hsame | ⟨hidle, -⟩
  · exact hsame ▸ hphase
  · exact absurd hidle hphase

theorem Manned.aside (h : m.Manned) (haside : m.Aside m') : m'.Manned := by
  obtain ⟨new, hstrands, hnew⟩ := haside.new_strands
  exact h.append hstrands (congrArg _ haside.scheduler) haside.move.around.started fun s hs =>
    ⟨(hnew s hs).1, (hnew s hs).2.2⟩

end Machine

namespace Chronicle

open Machine

variable {c d : Chronicle α} {heedStop : Bool} {self : Nat}

/-- One strand takes the step, and keeps its role. -/
theorem Shift.strands (h : c.Shift self d) : ∃ s s' added, c.machine.strands[self]? = some s ∧
    s.exited = false ∧ s'.role = s.role ∧ (∀ a ∈ added, a.IsSetup) ∧
    d.machine.strands = c.machine.strands.set self s' ++ added := by
  have hnone : ∀ a ∈ ([] : List (Strand α)), a.IsSetup := fun _ ha => absurd ha List.not_mem_nil
  cases h with
  | carried hs hexited _ _ hadded hstrands =>
    refine ⟨_, _, _, hs, hexited, ?_, hadded, hstrands⟩
    rfl
  | found hs hexited _ _ hstrands =>
    refine ⟨_, _, [], hs, hexited, ?_, hnone, hstrands.trans (List.append_nil _).symm⟩
    rfl
  | took hs _ hexited _ _ hstrands =>
    refine ⟨_, _, [], hs, hexited, ?_, hnone, hstrands.trans (List.append_nil _).symm⟩
    rfl

/-- No dispatcher comes out of a step. -/
theorem Shift.dispatcher (h : c.Shift self d) {k : Nat} {r : Strand α}
    (hr : d.machine.strands[k]? = some r) (hrole : r.role = .dispatcher) :
    ∃ r', c.machine.strands[k]? = some r' ∧ r'.role = .dispatcher := by
  obtain ⟨s, s', added, hs, -, hrole', hadded, hstrands⟩ := h.strands
  rcases strand_cases hstrands hr with ⟨rfl, rfl⟩ | ⟨-, hr⟩ | hr
  · exact ⟨s, hs, hrole'.symm.trans hrole⟩
  · exact ⟨r, hr, hrole⟩
  · cases (hadded r hr).1.symm.trans hrole

theorem unmanned_turn (h : c.turn heedStop self = some d) :
    d.machine.Unmanned ↔ c.machine.Unmanned := by
  refine ⟨fun hnone r hr hrole => ?_, fun hnone r hr hrole => ?_⟩
  · obtain ⟨k, hk⟩ := List.mem_iff_getElem?.mp hr
    obtain ⟨r', hr', hrole', -⟩ := strand_turn h hk
    exact hnone r' (List.mem_of_getElem? hr') (hrole'.trans hrole)
  · obtain ⟨k, hk⟩ := List.mem_iff_getElem?.mp hr
    obtain ⟨r', hr', hrole'⟩ := (turn_shift h).1.dispatcher hk hrole
    exact hnone r' (List.mem_of_getElem? hr') hrole'

theorem Shift.phase_eq (h : c.Shift self d) :
    d.machine.scheduler.phase = c.machine.scheduler.phase ∨
      d.machine.scheduler.phase = .stopped := by
  cases h with
  | carried _ _ _ heffect => exact heffect.phase_eq
  | found _ _ _ _ _ hscheduler => exact Or.inl (congrArg _ hscheduler)
  | took _ _ _ _ _ _ hscheduler =>
    rw [hscheduler]
    exact Or.inl rfl

/-- What a step adds to the tasks that are being handed over. -/
theorem Shift.few (h : c.Shift self d) (manned : c.machine.Manned) :
    d.machine.offered + d.machine.parked ≤ 1 := by
  have hfew := manned.few
  cases h with
  | @carried s i rest code answer added hs _ hcode heffect hadded hstrands =>
    have hoffered : d.machine.offered + _ = c.machine.offered + _ :=
      countP_work_carried Instr.isOffer (fun _ _ => rfl) hs hcode hadded hstrands
    have hparked : d.machine.parked + _ = c.machine.parked + _ :=
      countP_work_carried Instr.isParked (fun _ _ => rfl) hs hcode hadded hstrands
    obtain ⟨hnone, hle⟩ := heffect.countP_le
    omega
  | @found s code exited hs _ hcode hnew hstrands =>
    have hoffered : d.machine.offered = c.machine.offered + _ :=
      countP_work_found Instr.isOffer hs hcode hstrands
    have hparked : d.machine.parked = c.machine.parked + _ :=
      countP_work_found Instr.isParked hs hcode hstrands
    obtain ⟨hnone, hnone'⟩ := countP_of_all hnew
    omega
  | @took s e queue hs hrole _ hcode _ hstrands =>
    have hoffered : d.machine.offered = c.machine.offered + 1 :=
      countP_work_found Instr.isOffer hs hcode hstrands
    have hparked : d.machine.parked = c.machine.parked + 0 :=
      countP_work_found Instr.isParked hs hcode hstrands
    obtain ⟨hnone, hnone'⟩ := manned.none_handed hs hrole hcode
    omega

/-- What comes after a hand-over in the code of a strand is no hand-over. -/
theorem handing_rest {m : Machine α} (manned : m.Manned) {s : Strand α} {i j : Instr α}
    {rest : List (Instr α)} (hs : s ∈ m.strands) (hcode : s.code = i :: rest) (hj : j ∈ rest) :
    ¬ (j.isOffer = true ∨ j.isParked = true) := by
  intro hhanding
  obtain ⟨-, hone⟩ := manned.handing s hs j (hcode ▸ List.mem_cons_of_mem i hj) hhanding
  obtain ⟨-, rfl⟩ := List.cons.inj (hcode.symm.trans hone)
  exact absurd hj List.not_mem_nil

theorem Shift.handing (h : c.Shift self d) (manned : c.machine.Manned) :
    ∀ r ∈ d.machine.strands, ∀ j ∈ r.code, j.isOffer = true ∨ j.isParked = true →
      r.role = .dispatcher ∧ r.code = [j] := by
  intro r hr j hj hhanding
  obtain ⟨k, hk⟩ := List.mem_iff_getElem?.mp hr
  have hold : ∀ r', c.machine.strands[k]? = some r' → j ∈ r'.code →
      r'.role = .dispatcher ∧ r'.code = [j] := fun r' hr' hj' =>
    manned.handing r' (List.mem_of_getElem? hr') j hj' hhanding
  cases h with
  | @carried s i rest code answer added hs _ hcode heffect hadded hstrands =>
    rcases strand_cases hstrands hk with ⟨rfl, rfl⟩ | ⟨-, hk⟩ | hr
    · have hmem := List.mem_of_getElem? hs
      rcases List.mem_append.mp hj with hj | hj
      · -- the instruction was an offer, and all that there was to do
        obtain ⟨hoffer, hparked, -⟩ := heffect.leaves hj
        obtain ⟨hi, rfl⟩ := hparked (hhanding.resolve_left (Bool.eq_false_iff.mp hoffer))
        obtain ⟨hrole, hone⟩ := manned.handing s hmem i (hcode ▸ List.mem_cons_self) (Or.inl hi)
        obtain ⟨-, rfl⟩ := List.cons.inj (hcode.symm.trans hone)
        exact ⟨hrole, rfl⟩
      · exact absurd hhanding (handing_rest manned hmem hcode hj)
    · exact hold r hk hj
    · obtain ⟨-, -, p, setup, hsetup⟩ := hadded r hr
      rw [hsetup, List.mem_singleton] at hj
      subst hj
      rcases hhanding with hhanding | hhanding <;> cases hhanding
  | @found s code exited hs _ hcode hnew hstrands =>
    rcases strand_cases_set hstrands hk with ⟨rfl, rfl⟩ | ⟨-, hk⟩
    · have hnone : j.isScheduling = false := by simpa using List.all_eq_true.mp hnew j hj
      obtain ⟨hoffer, hparked, -⟩ := Instr.isScheduling_eq_false.mp hnone
      rcases hhanding with hhanding | hhanding
      · cases hoffer.symm.trans hhanding
      · cases hparked.symm.trans hhanding
    · exact hold r hk hj
  | took hs hrole _ hcode _ hstrands =>
    rcases strand_cases_set hstrands hk with ⟨rfl, rfl⟩ | ⟨-, hk⟩
    · rw [List.mem_singleton.mp hj]
      exact ⟨hrole, rfl⟩
    · exact hold r hk hj

theorem Shift.closing (h : c.Shift self d) (manned : c.machine.Manned) :
    ∀ r ∈ d.machine.strands, ∀ j ∈ r.code, j.isClosing = true → r.role = .caller := by
  intro r hr j hj hclosing
  obtain ⟨k, hk⟩ := List.mem_iff_getElem?.mp hr
  have hold : ∀ r', c.machine.strands[k]? = some r' → ∀ j ∈ r'.code, j.isClosing = true →
      r'.role = .caller := fun r' hr' => manned.closing r' (List.mem_of_getElem? hr')
  cases h with
  | @carried s i rest code answer added hs _ hcode heffect hadded hstrands =>
    rcases strand_cases hstrands hk with ⟨rfl, rfl⟩ | ⟨-, hk⟩ | hr
    · rcases List.mem_append.mp hj with hj | hj
      · obtain rfl := (heffect.leaves hj).2.2 hclosing
        exact hold s hs .stopScheduler (hcode ▸ List.mem_cons_self) rfl
      · exact hold s hs j (hcode ▸ List.mem_cons_of_mem i hj) hclosing
    · exact hold r hk j hj hclosing
    · exact (hadded r hr).1
  | @found s code exited hs _ hcode hnew hstrands =>
    rcases strand_cases_set hstrands hk with ⟨rfl, rfl⟩ | ⟨-, hk⟩
    · have hnone : j.isScheduling = false := by simpa using List.all_eq_true.mp hnew j hj
      cases (Instr.isScheduling_eq_false.mp hnone).2.2.symm.trans hclosing
    · exact hold r hk j hj hclosing
  | took hs hrole _ hcode _ hstrands =>
    rcases strand_cases_set hstrands hk with ⟨rfl, rfl⟩ | ⟨-, hk⟩
    · rw [List.mem_singleton.mp hj] at hclosing
      cases hclosing
    · exact hold r hk j hj hclosing

/-- **Every step leaves the dispatcher in its place.** -/
theorem manned_turn (manned : c.machine.Manned) (h : c.turn heedStop self = some d) :
    d.machine.Manned := by
  have hshift := (turn_shift h).1
  have hold : ∀ r ∈ d.machine.strands, r.role = .dispatcher →
      ∃ r' ∈ c.machine.strands, r'.role = .dispatcher := by
    intro r hr hrole
    obtain ⟨k, hk⟩ := List.mem_iff_getElem?.mp hr
    obtain ⟨r', hr', hrole'⟩ := hshift.dispatcher hk hrole
    exact ⟨r', List.mem_of_getElem? hr', hrole'⟩
  refine
    { unstarted := fun hidle r hr hrole => ?unstarted,
      single := fun n k s r hs hr hs' hr' => ?single, loop := fun r hr hrole => ?loop,
      handing := hshift.handing manned, closing := hshift.closing manned, few := hshift.few manned }
  case unstarted =>
    obtain ⟨r', hr', hrole'⟩ := hold r hr hrole
    rcases hshift.phase_eq with hphase | hphase
    · exact manned.unstarted (hphase.symm.trans hidle) r' hr' hrole'
    · cases hphase.symm.trans hidle
  case single =>
    obtain ⟨s₁, hs₁, hrole⟩ := hshift.dispatcher hs hs'
    obtain ⟨r₁, hr₁, hrole'⟩ := hshift.dispatcher hr hr'
    exact manned.single n k s₁ r₁ hs₁ hr₁ hrole hrole'
  case loop =>
    obtain ⟨r', hr', hrole'⟩ := hold r hr hrole
    intro hidle
    rcases phase_turn h with hphase | ⟨hphase, -⟩
    · exact manned.loop r' hr' hrole' (hphase.symm.trans hidle)
    · cases hphase.symm.trans hidle

end Chronicle

namespace Docket

open Machine

variable {d e f : Docket α} {heedStop : Bool} {self : Nat} {config : LoopConfig} {workers : Nat}

theorem Reaches.manned (h : (start config workers).Reaches d) : d.machine.Manned := by
  induction h with
  | refl => exact manned_initial config workers
  | turn _ heedStop self hturn ih => exact Chronicle.manned_turn ih (turn_eq hturn).1
  | @submit e _ t priority deadline ht ih =>
    rcases e.submit_cases t priority deadline with ⟨-, hsubmit⟩ | ⟨-, hsubmit⟩
    · rw [hsubmit]
      exact ih.append (List.append_nil _).symm rfl id fun _ hs => absurd hs List.not_mem_nil
    · rw [hsubmit]
      exact ih
  | startScheduler _ ih => exact ih.startScheduler
  | aside _ haside ih => exact ih.aside haside

end Docket

end ManagedHost
