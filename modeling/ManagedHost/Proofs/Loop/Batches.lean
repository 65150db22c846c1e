import ManagedHost.Proofs.Loop.Books
import ManagedHost.Proofs.Loop.Phases
import Mathlib.Data.List.Nodup

/-!
# The batches that the loop's threads work through

A thread of the loop runs the tasks that it has taken one after the other, and lets go of each and
counts it when its run is over.  `Machine.Batch` says how far it can be with that, and that a task
whose run is over has settled.

That is so because nobody else runs the task: a task that a thread is about to start is not running.
`Chronicle.Exclusive` are the runs in which the loop alone runs its tasks, and `Chronicle.Orderly`
says what the strands are at in these; every step keeps it (`Orderly.turn`).
-/

namespace ManagedHost

variable {α : Type}

namespace Machine

variable {m m' m₁ : Machine α} {t : TaskId} {self : Nat} {heedStop : Bool} {i : Instr α}
  {code rest : List (Instr α)}

/-! ### States -/

/-- **No task goes back**: one that has been started stays so, and a final state is final. -/
structure Advances (m m' : Machine α) : Prop where
  begun : ∀ t, m.state t ≠ .pending → m'.state t ≠ .pending
  final : ∀ t, (m.state t).isTerminal = true → m'.state t = m.state t

theorem exists_cell (h : m.state t ≠ .pending) :
    ∃ c, m.tasks[t]? = some c ∧ c.state = m.state t := by
  cases hc : m.tasks[t]? with
  | none => exact absurd (by simp [state, hc]) h
  | some c => exact ⟨c, rfl, (cell_eq hc).1.symm⟩

theorem ne_pending_of_isTerminal {s : TaskState} (h : s.isTerminal = true) : s ≠ .pending := by
  rintro rfl
  cases h

theorem Governed.advances_step (g : m.Governed) (h : m.step heedStop self = some m') :
    m.Advances m' where
  begun t ht hpending := by
    obtain ⟨c, hc, hstate⟩ := exists_cell ht
    obtain ⟨d, c', hd, hc', hback⟩ := step_pending h (lt_length hc)
    obtain rfl := Option.some.inj (hc.symm.trans hd)
    rw [(cell_eq hc').1] at hpending
    exact ht (hstate.symm.trans (hback hpending))
  final t ht := by
    obtain ⟨c, hc, hstate⟩ := exists_cell (ne_pending_of_isTerminal ht)
    obtain ⟨c', hc', -, hfinal⟩ := g.cell_step h hc
    rw [(cell_eq hc').1, (hfinal (hstate.symm ▸ ht)).1, hstate]

theorem Around.state_eq (h : m.Around m') (ht : m.state t ≠ .pending) :
    m'.state t = m.state t := by
  obtain ⟨c, hc, hstate⟩ := exists_cell ht
  rw [(cell_eq (h.beside.getElem?_tasks hc)).1, hstate]

theorem Around.advances (h : m.Around m') : m.Advances m' where
  begun t ht := by rwa [h.state_eq ht]
  final t ht := h.state_eq (ne_pending_of_isTerminal ht)

/-- A task that is started was pending. -/
theorem exec_start (ht : t < m.tasks.length)
    (h : m.exec heedStop self (.start t) = some (m₁, code)) :
    m.state t = .pending ∧ m₁.state t = .running ∧ code = [.enter t] ∨
      m.state t ≠ .pending ∧ code = [] := by
  cases exec_ruled h with
  | start hc hpending =>
    refine Or.inl ⟨(cell_eq hc).1.trans hpending, ?_, rfl⟩
    rw [(cell_eq (getElem?_modify_self hc _)).1]
  | startLate hlate =>
    have hc := List.getElem?_eq_getElem ht
    exact Or.inr ⟨fun hpending => hlate _ hc ((cell_eq hc).1.symm.trans hpending), rfl⟩

/-- At the end of its body a task has settled. -/
theorem exec_settle_running {r : TaskResult α}
    (h : m.exec heedStop self (.settle t .running r .run) = some (m₁, code))
    (hbegun : m.state t ≠ .pending) : (m₁.state t).isTerminal = true := by
  cases exec_ruled h with
  | settle hc =>
    rw [(cell_eq (getElem?_modify_self hc _)).1]
    exact TaskResult.isTerminal_state r
  | settleLate hlate =>
    obtain ⟨c, hc, hstate⟩ := exists_cell hbegun
    have hnot := hlate c hc
    rw [← hstate] at hbegun ⊢
    cases hc : c.state with
    | pending => exact absurd hc hbegun
    | running => exact absurd hc hnot
    | _ => rfl

/-! ### Batches -/

/-- **How far a strand can be with the tasks that it has taken from the loop**: it runs one of
them, or is about to count it, and the others are to come. -/
inductive Batch (m : Machine α) : List (Instr α) → Prop where
  | aside {code : List (Instr α)} (hcode : ∀ j ∈ code, j.isEnding = false) : Batch m code
  | running {work : List (Instr α)} {t : TaskId} {tasks : List TaskId}
      (hwork : ∀ j ∈ work, j.isEnding = false)
      (hstate : work = [.start t] ∨ (m.state t ≠ .pending ∧ ∃ j ∈ work, j.Bears t) ∨
        (m.state t).isTerminal = true) :
      Batch m (work ++ .leave t :: .record t :: tasks.flatMap runTask)
  | leaving {t : TaskId} {tasks : List TaskId} (hstate : (m.state t).isTerminal = true) :
      Batch m (.record t :: tasks.flatMap runTask)

theorem Batch.advance (h : m.Batch code) (hadv : m.Advances m') : m'.Batch code := by
  have hfinal : ∀ t, (m.state t).isTerminal = true → (m'.state t).isTerminal = true := by
    intro t ht
    rwa [hadv.final t ht]
  cases h with
  | aside hcode => exact .aside hcode
  | running hwork hstate =>
    refine .running hwork (hstate.imp_right fun h => ?_)
    exact h.imp (fun h => ⟨hadv.begun _ h.1, h.2⟩) (hfinal _)
  | leaving hstate => exact .leaving (hfinal _ hstate)

/-- The tasks that were taken are run. -/
theorem batch_runTasks (m : Machine α) (tasks : List TaskId) :
    m.Batch (tasks.flatMap runTask) := by
  cases tasks with
  | nil => exact .aside fun _ hj => absurd hj List.not_mem_nil
  | cons t rest =>
    have hfirst : ∀ j ∈ [(.start t : Instr α)], j.isEnding = false :=
      List.forall_mem_singleton.mpr rfl
    exact .running hfirst (Or.inl rfl)

/-- **A strand carries out the first instruction of its batch.** -/
theorem Batch.carried (h : m.Batch (i :: rest))
    (hexec : m.exec heedStop self i = some (m₁, code)) (hadv : m.Advances m₁)
    (hgrounded : i.Grounded m.tasks.length) (hcode : ∀ j ∈ code, j.isEnding = false)
    (hstart : ∀ t more, i = .start t → rest = .leave t :: .record t :: more →
      t < m.tasks.length ∧ m.state t ≠ .running) : m₁.Batch (code ++ rest) := by
  have hfinal : ∀ t, (m.state t).isTerminal = true → (m₁.state t).isTerminal = true := by
    intro t ht
    rwa [hadv.final t ht]
  generalize hall : i :: rest = all at h
  cases h with
  | aside hnone =>
    subst hall
    refine .aside (List.forall_mem_append.mpr ⟨hcode, ?_⟩)
    exact fun j hj => hnone j (List.mem_cons_of_mem _ hj)
  | @leaving t tasks hstate =>
    obtain ⟨rfl, rfl⟩ := List.cons.inj hall
    cases exec_ruled hexec
    exact batch_runTasks _ _
  | @running work t tasks hwork hstate =>
    cases work with
    | nil =>
      obtain ⟨rfl, rfl⟩ := List.cons.inj hall
      cases exec_ruled hexec
      -- the run is over
      refine .leaving ?_
      rcases hstate with hstate | ⟨-, j, hj, -⟩ | hstate
      · cases hstate
      · exact absurd hj List.not_mem_nil
      · exact hfinal t hstate
    | cons first work =>
      rw [List.cons_append] at hall
      obtain ⟨rfl, rfl⟩ := List.cons.inj hall
      obtain ⟨-, hwork⟩ := List.forall_mem_cons.mp hwork
      rw [← List.append_assoc]
      refine .running (List.forall_mem_append.mpr ⟨hcode, hwork⟩) ?_
      rcases hstate with hstate | ⟨hbegun, j, hj, hbears⟩ | hstate
      · -- the run begins, unless the task was settled before
        obtain ⟨rfl, rfl⟩ := List.cons.inj hstate
        obtain ⟨ht, hnot⟩ := hstart t _ rfl rfl
        rcases exec_start ht hexec with ⟨-, hrunning, rfl⟩ | ⟨hbegun, rfl⟩
        · refine Or.inr (Or.inl ⟨?_, .enter t, List.mem_cons_self, rfl⟩)
          rw [hrunning]
          exact nofun
        · refine Or.inr (Or.inr (hfinal t ?_))
          cases hs : m.state t with
          | pending => exact absurd hs hbegun
          | running => exact absurd hs hnot
          | _ => rfl
      · rcases List.mem_cons.mp hj with rfl | hj
        · rcases exec_bears hbears hgrounded hexec with ⟨k, hk, hbears'⟩ | ⟨r, rfl⟩
          · exact Or.inr (Or.inl ⟨hadv.begun t hbegun, k, List.mem_append_left _ hk, hbears'⟩)
          · exact Or.inr (Or.inr (exec_settle_running hexec hbegun))
        · exact Or.inr (Or.inl ⟨hadv.begun t hbegun, j, List.mem_append_right _ hj, hbears⟩)
      · exact Or.inr (Or.inr (hfinal t hstate))

/-- Before a task is counted, it has settled. -/
theorem Batch.settled (h : m.Batch (.record t :: rest)) : (m.state t).isTerminal = true := by
  generalize hall : Instr.record t :: rest = all at h
  cases h with
  | aside hnone =>
    subst hall
    exact Bool.noConfusion (hnone _ List.mem_cons_self)
  | @running work k tasks hwork =>
    cases work with
    | nil => cases hall
    | cons first work =>
      obtain ⟨rfl, -⟩ := List.cons.inj hall
      exact Bool.noConfusion (hwork _ List.mem_cons_self)
  | leaving hstate =>
    obtain ⟨heq, -⟩ := List.cons.inj hall
    obtain rfl := Instr.record.inj heq
    exact hstate

/-- Unless a task is about to be counted, those that a strand will let go of are those that it will
count. -/
theorem Batch.balanced (h : m.Batch code) (hrest : code.head?.bind Instr.record? = none) :
    code.filterMap Instr.leave? = code.filterMap Instr.record? := by
  cases h with
  | aside hcode =>
    obtain ⟨hleave, hrecord⟩ := filterMap_of_isEnding hcode
    rw [hleave, hrecord]
  | @running work t tasks hwork =>
    obtain ⟨hleave, hrecord⟩ := filterMap_of_isEnding hwork
    obtain ⟨-, hleave', hrecord'⟩ := filterMap_runTasks (α := α) tasks
    rw [List.filterMap_append, List.filterMap_append, hleave, hrecord]
    show t :: (tasks.flatMap runTask).filterMap Instr.leave? =
      t :: (tasks.flatMap runTask).filterMap Instr.record?
    rw [hleave', hrecord']
  | leaving => cases hrest

/-- What a thread finds to do is a batch. -/
theorem Finds.batch {role : Role} {exited : Bool} (h : m.Finds role m₁ code exited) :
    m'.Batch code := by
  cases h with
  | leaves => exact .aside fun _ hj => absurd hj List.not_mem_nil
  | @task t =>
    have hone := batch_runTasks m' [t]
    rwa [List.flatMap_singleton] at hone
  | microtasks => exact batch_runTasks m' _
  | timers | due => exact .aside (List.forall_mem_singleton.mpr rfl)

/-- Only the threads of the loop take tasks from it. -/
theorem Finds.isLoop_or {role : Role} {exited : Bool} (h : m.Finds role m₁ code exited) :
    role.IsLoop ∨ ∀ j ∈ code, j.isEnding = false := by
  cases h with
  | leaves => exact Or.inr fun _ hj => absurd hj List.not_mem_nil
  | due => exact Or.inr (List.forall_mem_singleton.mpr rfl)
  | _ => exact Or.inl trivial

/-- Whether the code is that of a run of the task by the loop, up to the settlement at its end. -/
def AtRun (t : TaskId) (code : List (Instr α)) : Prop :=
  ∃ work rest : List (Instr α), code = work ++ Instr.leave t :: Instr.record t :: rest ∧
    (∀ j ∈ work, j.isEnding = false) ∧ ∃ j ∈ work, j.Bears t

theorem AtRun.ne_nil (h : AtRun t code) : code ≠ [] := by
  rintro rfl
  obtain ⟨work, rest, heq, -⟩ := h
  exact List.append_ne_nil_of_right_ne_nil _ (List.cons_ne_nil _ _) heq.symm

theorem AtRun.record_mem (h : AtRun t code) : .record t ∈ code := by
  obtain ⟨work, rest, rfl, -⟩ := h
  exact List.mem_append_right _ (List.mem_cons_of_mem _ List.mem_cons_self)

/-- A strand that is about to start the task is not at a run of it. -/
theorem not_atRun_start {more : List (Instr α)} :
    ¬ AtRun t (.start t :: .leave t :: more) := by
  rintro ⟨work, rest, heq, hwork, j, hj, hbears⟩
  cases work with
  | nil => exact absurd hj List.not_mem_nil
  | cons first work =>
    rw [List.cons_append] at heq
    obtain ⟨rfl, htail⟩ := List.cons.inj heq
    cases work with
    | nil =>
      obtain rfl := List.mem_singleton.mp hj
      exact hbears
    | cons second work =>
      rw [List.cons_append] at htail
      obtain ⟨rfl, -⟩ := List.cons.inj htail
      exact Bool.noConfusion (hwork _ (List.mem_cons_of_mem _ List.mem_cons_self))

/-- **A run goes on** to the settlement at its end. -/
theorem AtRun.carried (h : AtRun t (i :: rest))
    (hexec : m.exec heedStop self i = some (m₁, code)) (hgrounded : i.Grounded m.tasks.length)
    (hcode : ∀ j ∈ code, j.isEnding = false) :
    AtRun t (code ++ rest) ∨ ∃ r, i = .settle t .running r .run := by
  obtain ⟨work, more, heq, hwork, j, hj, hbears⟩ := h
  cases work with
  | nil => exact absurd hj List.not_mem_nil
  | cons first work =>
    rw [List.cons_append] at heq
    obtain ⟨rfl, rfl⟩ := List.cons.inj heq
    obtain ⟨-, hwork⟩ := List.forall_mem_cons.mp hwork
    -- the part of the body that is left
    have hstill : ∀ k ∈ code ++ work, k.Bears t →
        AtRun t (code ++ (work ++ .leave t :: .record t :: more)) := fun k hk hbears =>
      ⟨code ++ work, more, (List.append_assoc ..).symm,
        List.forall_mem_append.mpr ⟨hcode, hwork⟩, k, hk, hbears⟩
    rcases List.mem_cons.mp hj with rfl | hj
    · refine (exec_bears hbears hgrounded hexec).imp_left ?_
      rintro ⟨k, hk, hbears'⟩
      exact hstill k (List.mem_append_left _ hk) hbears'
    · exact Or.inl (hstill j (List.mem_append_right _ hj) hbears)

/-- An instruction that names the task is before two strands only if there are two of it. -/
theorem held_unique {f : Instr α → Option TaskId} {s r : Strand α} {n k : Nat} {j j' : Instr α}
    (hcount : (m.held f).count t ≤ 1) (hs : m.strands[n]? = some s) (hj : j ∈ s.code)
    (hf : f j = some t) (hr : m.strands[k]? = some r) (hj' : j' ∈ r.code) (hf' : f j' = some t) :
    n = k := by
  by_contra hne
  have hset := count_flatMap_set hs { s with code := [] } (fun s => s.code.filterMap f) t
  have hfirst := List.count_pos_iff.mpr (List.mem_filterMap.mpr ⟨j, hj, hf⟩)
  -- the other strand is still there when this one is taken away
  have hother :
      t ∈ (m.strands.set n { s with code := [] }).flatMap fun s => s.code.filterMap f := by
    refine List.mem_flatMap.mpr ⟨r, ?_, List.mem_filterMap.mpr ⟨j', hj', hf'⟩⟩
    exact List.mem_of_getElem? ((List.getElem?_set_ne hne).trans hr)
  have hsecond := List.count_pos_iff.mpr hother
  unfold held at hcount
  simp only [List.filterMap_nil, List.count_nil, Nat.add_zero] at hset
  omega

end Machine

/-! ### The loop alone runs its tasks -/

/-- The task that the strand is about to run for the loop. -/
def Strand.beginning? (s : Strand α) : Option TaskId :=
  match s.code with
  | .start t :: .leave k :: .record l :: _ => if k = t ∧ l = t then some t else none
  | _ => none

theorem Strand.beginning?_eq_some {s : Strand α} {t : TaskId} (h : s.beginning? = some t) :
    ∃ rest, s.code = Machine.runTask t ++ rest := by
  unfold beginning? at h
  split at h
  · next k l t' rest hcode =>
    split_ifs at h with heq
    obtain ⟨rfl, rfl⟩ := heq
    obtain rfl := Option.some.inj h
    exact ⟨rest, hcode⟩
  · cases h

theorem Strand.IsSetup.isEnding_eq_false {s : Strand α} (h : s.IsSetup) :
    ∀ j ∈ s.code, j.isEnding = false := by
  obtain ⟨-, -, p, setup, hcode⟩ := h
  rw [hcode]
  exact List.forall_mem_singleton.mpr rfl

namespace Chronicle

open Machine

variable {c d : Chronicle α} {heedStop : Bool} {self : Nat} {tasks : List TaskId}

/-- **Nobody has told the loop to stop, no task was brought to it twice, and it alone has run
those of `tasks`**, which are all that were brought to it. -/
structure Exclusive (tasks : List TaskId) (c : Chronicle α) : Prop where
  notStopped : c.machine.loop.stopSignal = false
  once : c.entries.Nodup
  listed : ∀ t ∈ c.entries, t ∈ tasks
  /-- The tasks that are brought to the loop are there. -/
  there : ∀ v ∈ c.events, ∀ t ∈ v.entry?, t < v.before.tasks.length
  alone : ∀ v ∈ c.events, ∀ x ∈ v.begun?, x.2 ∈ tasks →
    (v.before.strands[x.1]?.bind Strand.beginning?) = some x.2

theorem Exclusive.of_turn (hx : d.Exclusive tasks) (hturn : c.turn heedStop self = some d) :
    c.Exclusive tasks := by
  have hevents := events_turn hturn
  have hentries : c.entries <+: d.entries := hevents.filterMap _
  exact ⟨stopSignal_turn hturn hx.notStopped, hx.once.sublist hentries.sublist,
    fun t ht => hx.listed t (hentries.subset ht), fun v hv => hx.there v (hevents.subset hv),
    fun v hv => hx.alone v (hevents.subset hv)⟩

theorem Exclusive.of_move {m : Machine α} (hx : Exclusive tasks { c with machine := m })
    (h : c.machine.Move m) : c.Exclusive tasks :=
  ⟨h.around.loop.stopSignal.symm.trans hx.notStopped, hx.once, hx.listed, hx.there, hx.alone⟩

/-- **What the strands are at.** -/
structure Orderly (tasks : List TaskId) (c : Chronicle α) : Prop where
  batches : ∀ s ∈ c.machine.strands, c.machine.Batch s.code
  threads : ∀ s ∈ c.machine.strands, s.role.IsLoop ∨ ∀ j ∈ s.code, j.isEnding = false
  /-- The entries are there. -/
  there : ∀ t ∈ c.entries, t < c.machine.tasks.length
  /-- A task of the loop that is running is run by a thread that will let go of it and count it. -/
  runs : ∀ t ∈ tasks, c.machine.state t = .running →
    ∃ (n : Nat) (s : Strand α), c.machine.strands[n]? = some s ∧ AtRun t s.code

theorem orderly_start (config : LoopConfig) (workers : Nat) :
    Orderly tasks (start config workers : Chronicle α) where
  batches := fun _ hs => absurd hs List.not_mem_nil
  threads := fun _ hs => absurd hs List.not_mem_nil
  there := fun _ ht => absurd ht List.not_mem_nil
  runs := fun _ _ hrunning => nomatch hrunning

/-! ### Steps -/

theorem state_congr {m m' : Machine α} (h : m'.tasks = m.tasks) (t : TaskId) :
    m'.state t = m.state t := by
  unfold state
  rw [h]

/-- A batch is one on any machine with the same tasks. -/
theorem batch_congr {m m' : Machine α} {code : List (Instr α)} (h : m'.tasks = m.tasks)
    (hbatch : m.Batch code) : m'.Batch code :=
  hbatch.advance ⟨fun t => by rw [state_congr h]; exact id, fun t _ => state_congr h t⟩

/-- A task that is running was there. -/
theorem exists_running {m : Machine α} {t : TaskId} (h : m.state t = .running) :
    ∃ b, m.tasks[t]? = some b ∧ b.state = .running := by
  have hbegun : m.state t ≠ .pending := by
    rw [h]
    exact nofun
  obtain ⟨b, hb, hstate⟩ := exists_cell hbegun
  exact ⟨b, hb, hstate.trans h⟩

/-- A task that is to be counted was brought to the loop. -/
theorem Booked.mem_entries (b : c.Booked) {t : TaskId} (h : c.machine.Holds (.record t)) :
    t ∈ c.entries := by
  have hheld := List.count_pos_iff.mpr
    (mem_held.mpr ⟨.record t, h, show Instr.record? _ = some t from rfl⟩)
  have hentries := b.entries t
  exact List.count_pos_iff.mp (by omega)

/-- Instructions leave behind none that belong to the end of a run. -/
theorem Booked.leaves_isEnding (b : c.Booked) {i : Instr α} {code : List (Instr α)} {m₁ : Machine α}
    (hi : c.machine.Holds i) (hexec : c.machine.exec heedStop self i = some (m₁, code))
    (hsignal : m₁.loop.stopSignal = false) : ∀ j ∈ code, j.isEnding = false := fun j hj =>
  ((exec_counts_calm hexec (b.calm i hi) hsignal).leaves j hj).1

section Step

variable (g : c.machine.Governed) (b : c.Booked) (o : c.Orderly tasks)
  (hturn : c.turn heedStop self = some d) (hx : d.Exclusive tasks)
include b o hturn hx

/-- **A task that a thread is about to start is not running**: whoever runs it would have to count
it as well. -/
theorem Orderly.not_running {s : Strand α} {t : TaskId} {more : List (Instr α)}
    (hs : c.machine.strands[self]? = some s)
    (hcode : s.code = .start t :: .leave t :: .record t :: more) :
    c.machine.state t ≠ .running := by
  have hmem : .record t ∈ s.code := by
    rw [hcode]
    exact List.mem_cons_of_mem _ (List.mem_cons_of_mem _ List.mem_cons_self)
  have hc := hx.of_turn hturn
  have hentry := b.mem_entries ⟨s, List.mem_of_getElem? hs, hmem⟩
  have hentries := b.entries t
  have hcount := List.nodup_iff_count_le_one.mp hc.once t
  intro hrunning
  obtain ⟨n, r, hr, hrun⟩ := o.runs t (hc.listed t hentry) hrunning
  obtain rfl := held_unique (f := Instr.record?) (by omega) hs hmem rfl hr hrun.record_mem rfl
  obtain rfl := Option.some.inj (hs.symm.trans hr)
  rw [hcode] at hrun
  exact not_atRun_start hrun

include g

theorem Orderly.batches_turn : ∀ s ∈ d.machine.strands, d.machine.Batch s.code := by
  have hadv := g.advances_step (turn_step hturn)
  intro r hr
  obtain ⟨k, hr⟩ := List.mem_iff_getElem?.mp hr
  cases turn_turn hturn with
  | @carried s i rest code m₁ answer added hs _ hcode hexec hadded hd =>
    have hloop : d.machine.loop = m₁.loop := by rw [hd]
    have htasks : d.machine.tasks = m₁.tasks := by rw [hd]
    have hs' := List.mem_of_getElem? hs
    have hi : c.machine.Holds i := ⟨s, hs', hcode ▸ List.mem_cons_self⟩
    rcases strand_cases (congrArg strands hd) hr with ⟨-, rfl⟩ | ⟨-, hr⟩ | hr
    · have hbatch := o.batches s hs'
      rw [hcode] at hbatch
      have hadv' : c.machine.Advances m₁ :=
        ⟨fun t => state_congr htasks t ▸ hadv.begun t, fun t => state_congr htasks t ▸ hadv.final t⟩
      have hending := b.leaves_isEnding hi hexec (hloop ▸ hx.notStopped)
      refine batch_congr htasks (hbatch.carried hexec hadv' (g.grounded i hi) hending ?_)
      rintro t more rfl rfl
      refine ⟨o.there t (b.mem_entries ⟨s, hs', ?_⟩), o.not_running b hturn hx hs hcode⟩
      rw [hcode]
      exact List.mem_cons_of_mem _ (List.mem_cons_of_mem _ List.mem_cons_self)
    · exact (o.batches r (List.mem_of_getElem? hr)).advance hadv
    · exact .aside (hadded r hr).isEnding_eq_false
  | found hs _ _ _ hfinds hd =>
    rcases strand_cases_set (congrArg strands hd) hr with ⟨-, rfl⟩ | ⟨-, hr⟩
    · exact hfinds.batch
    · exact (o.batches r (List.mem_of_getElem? hr)).advance hadv

omit g in
theorem Orderly.threads_turn :
    ∀ s ∈ d.machine.strands, s.role.IsLoop ∨ ∀ j ∈ s.code, j.isEnding = false := by
  intro r hr
  obtain ⟨k, hr⟩ := List.mem_iff_getElem?.mp hr
  cases turn_turn hturn with
  | @carried s i rest code m₁ answer added hs _ hcode hexec hadded hd =>
    have hloop : d.machine.loop = m₁.loop := by rw [hd]
    have hs' := List.mem_of_getElem? hs
    have hi : c.machine.Holds i := ⟨s, hs', hcode ▸ List.mem_cons_self⟩
    rcases strand_cases (congrArg strands hd) hr with ⟨-, rfl⟩ | ⟨-, hr⟩ | hr
    · refine (o.threads s hs').imp_right fun hnone => List.forall_mem_append.mpr ⟨?_, ?_⟩
      · exact b.leaves_isEnding hi hexec (hloop ▸ hx.notStopped)
      · exact fun j hj => hnone j (hcode ▸ List.mem_cons_of_mem i hj)
    · exact o.threads r (List.mem_of_getElem? hr)
    · exact Or.inr (hadded r hr).isEnding_eq_false
  | found hs hrole _ _ hfinds hd =>
    rcases strand_cases_set (congrArg strands hd) hr with ⟨-, rfl⟩ | ⟨-, hr⟩
    · exact hrole ▸ hfinds.isLoop_or
    · exact o.threads r (List.mem_of_getElem? hr)

omit g b in
theorem Orderly.there_turn : ∀ t ∈ d.entries, t < d.machine.tasks.length := by
  have hlength := (step_tasks (turn_step hturn)).1
  intro t ht
  refine Nat.lt_of_lt_of_le ?_ hlength
  cases turn_turn hturn with
  | carried _ _ _ _ _ _ hevents =>
    unfold entries at ht
    rw [hevents] at ht
    rcases mem_filterMap_concat.mp ht with ht | ht
    · exact o.there t ht
    · exact hx.there _ (mem_last hevents) t ht
  | found _ _ _ _ _ _ hevents =>
    unfold entries at ht
    rw [hevents] at ht
    exact o.there t ht

theorem Orderly.runs_turn : ∀ t ∈ tasks, d.machine.state t = .running →
    ∃ (n : Nat) (s : Strand α), d.machine.strands[n]? = some s ∧ AtRun t s.code := by
  intro t ht hrunning
  obtain ⟨b', hb', hstate⟩ := exists_running hrunning
  cases turn_turn hturn with
  | @carried s i rest code m₁ answer added hs _ hcode hexec hadded hd hevents =>
    have hstrands := congrArg strands hd
    have hloop : d.machine.loop = m₁.loop := by rw [hd]
    have htasks : d.machine.tasks = m₁.tasks := by rw [hd]
    have hi : c.machine.Holds i := ⟨s, List.mem_of_getElem? hs, hcode ▸ List.mem_cons_self⟩
    rw [htasks] at hb'
    rcases exec_cell hexec hb' with ⟨b₀, hb₀, heffect, -⟩ | ⟨-, hrearms⟩
    case inr =>
      -- the task that a timer arms is pending
      obtain ⟨-, -, -, -, -, -, body, -, -, -, rfl⟩ := hrearms
      cases hstate
    rcases heffect.running_of_running hstate with hbefore | ⟨rfl, rfl⟩
    · obtain ⟨n, r, hr, hrun⟩ := o.runs t ht ((cell_eq hb₀).1.trans hbefore)
      by_cases hn : n = self
      · subst hn
        obtain rfl := Option.some.inj (hs.symm.trans hr)
        rw [hcode] at hrun
        have hending := b.leaves_isEnding hi hexec (hloop ▸ hx.notStopped)
        rcases hrun.carried hexec (g.grounded i hi) hending with hrun | ⟨result, rfl⟩
        · exact ⟨n, _, strand_self hs hstrands, hrun⟩
        · -- at the end of its body the task has settled
          have hbegun : c.machine.state t ≠ .pending := by
            rw [(cell_eq hb₀).1, hbefore]
            exact nofun
          have hterminal := exec_settle_running hexec hbegun
          rw [← state_congr htasks, hrunning] at hterminal
          cases hterminal
      · exact ⟨n, r, strand_ne hstrands hr hn, hrun⟩
    · -- the body begins, and it is the loop that begins it
      have hbegun : (⟨c.machine, d.machine, self, .start t⟩ : Event α).begun? = some (self, t) := by
        cases exec_ruled hexec with
        | start hcell hpending => exact if_pos (isSome_start? hcell hpending)
      have halone := hx.alone _ (mem_last hevents) _ hbegun ht
      rw [hs] at halone
      obtain ⟨more, hcode'⟩ := s.beginning?_eq_some halone
      rw [hcode] at hcode'
      obtain ⟨-, rfl⟩ := List.cons.inj hcode'
      refine ⟨self, _, strand_self hs hstrands, [.enter t], more, rfl, ?_, .enter t, ?_, rfl⟩
      · exact List.forall_mem_singleton.mpr rfl
      · exact List.mem_singleton_self _
  | found hs _ _ hcode hfinds hd =>
    have htasks : d.machine.tasks = c.machine.tasks :=
      (congrArg Machine.tasks hd).trans hfinds.tasks_eq
    rw [htasks] at hb'
    obtain ⟨n, r, hr, hrun⟩ := o.runs t ht ((cell_eq hb').1.trans hstate)
    refine ⟨n, r, strand_ne_set (congrArg strands hd) hr ?_, hrun⟩
    rintro rfl
    obtain rfl := Option.some.inj (hs.symm.trans hr)
    exact hrun.ne_nil hcode

/-- **Every step keeps the order.** -/
theorem Orderly.turn : d.Orderly tasks :=
  ⟨o.batches_turn g b hturn hx, o.threads_turn b hturn hx, o.there_turn hturn hx,
    o.runs_turn g b hturn hx⟩

end Step

/-- Callers bring no order into the strands, nor any disorder. -/
theorem Orderly.move {m : Machine α} (o : c.Orderly tasks) (h : c.machine.Move m) :
    Orderly tasks { c with machine := m } := by
  have haround := h.around
  obtain ⟨new, hstrands, hnew⟩ := haround.strands
  have hstrands' : ∀ s ∈ m.strands, s ∈ c.machine.strands ∨ ∀ j ∈ s.code, j.isEnding = false := by
    intro s hs
    rw [hstrands] at hs
    refine (List.mem_append.mp hs).imp_right fun hs j hj => ?_
    exact (Instr.isBooking_eq_false.mp ((hnew s hs).2.2.2 j hj).1.isBooking_eq_false).2.1
  refine
    { batches := fun s hs => ?batches, threads := fun s hs => ?threads, there := fun t ht => ?there,
      runs := fun t ht hrunning => ?runs }
  case batches =>
    rcases hstrands' s hs with hs | hcode
    · exact (o.batches s hs).advance haround.advances
    · exact .aside hcode
  case threads =>
    rcases hstrands' s hs with hs | hcode
    · exact o.threads s hs
    · exact Or.inr hcode
  case there => exact Nat.lt_of_lt_of_le (o.there t ht) haround.length_le
  case runs =>
    obtain ⟨b, hb, hstate⟩ := exists_running hrunning
    rcases haround.cell_or_new hb with hb | ⟨-, body, name, rfl⟩
    · obtain ⟨n, s, hs, hrun⟩ := o.runs t ht ((cell_eq hb).1.trans hstate)
      refine ⟨n, s, ?_, hrun⟩
      show m.strands[n]? = some s
      rw [hstrands, List.getElem?_append_left (List.getElem?_eq_some_iff.mp hs).1]
      exact hs
    · cases hstate

end Chronicle

end ManagedHost
