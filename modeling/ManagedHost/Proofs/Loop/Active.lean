import ManagedHost.Proofs.Loop.Audit
import ManagedHost.Proofs.Loop.Rest
import Mathlib.Data.List.Dedup

/-!
# The active tasks of a loop

The loop keeps the tasks that it is responsible for as a set: a task enters it with each submission,
and leaves it as soon as *one* of its entries is done with.  So the set does not say which tasks are
outstanding (`Machine.outstanding`), but which have not been let go of since they were last brought
to the loop (`Chronicle.Enrolled`, `Reaches.mem_active`).  The two are the same for tasks that are
brought to the loop once.  A task that is brought to it twice drops out with the entry that is done
first, though the other waits or is being run.
-/

namespace ManagedHost

variable {α : Type}

/-- Every element of the list is in the other, so they have as many distinct elements only if it is
the other way around as well. -/
theorem length_eq_dedup_iff {l k : List TaskId} (hnodup : l.Nodup) (hsub : l ⊆ k) :
    l.length = k.dedup.length ↔ k ⊆ l := by
  have hsubperm : l.Subperm k.dedup := hnodup.subperm fun t ht => List.mem_dedup.mpr (hsub ht)
  constructor
  · intro hlength t ht
    exact (hsubperm.perm_of_length_le hlength.ge).mem_iff.mpr (List.mem_dedup.mpr ht)
  · intro hback
    have hperm : l.Perm k.dedup := (List.perm_ext_iff_of_nodup hnodup k.nodup_dedup).mpr fun t =>
      ⟨fun ht => List.mem_dedup.mpr (hsub ht), fun ht => hback (List.mem_dedup.mp ht)⟩
    exact hperm.length_eq

/-! ### One instruction -/

/-- The tasks that wait for room in the queue, in it or among the microtasks, and those that a
thread of the loop has taken and not let go of; with a task for each of its entries. -/
def Machine.outstanding (m : Machine α) : List TaskId :=
  m.held Instr.enqueue? ++ m.loop.queue ++ m.loop.microtasks ++ m.held Instr.leave?

theorem Machine.mem_outstanding {m : Machine α} {t : TaskId} :
    t ∈ m.outstanding ↔ 0 < m.waiting t + (m.held Instr.leave?).count t := by
  unfold outstanding waiting
  rw [← List.count_pos_iff]
  simp only [List.count_append]

/-- The loop lets go of the task: one of its runs is over, the task is turned away, or the loop is
emptied. -/
def Event.Drops (v : Event α) (t : TaskId) : Prop :=
  v.instr.leave? = some t ∨ v.before.turnedAway? v.instr v.after.loop = some t ∨
    v.instr = .sweepLoop

/-- **What the loop is responsible for** after an instruction is what it was responsible for before
and does not let go of, and what the instruction brings to it. -/
theorem mem_active_next {m : Machine α} {i : Instr α} {code : List (Instr α)} {l : EventLoop}
    (h : CountEffect m i code l ∨ StopEffect m i code l) (hnodup : m.loop.active.Nodup)
    (t : TaskId) :
    t ∈ l.active ↔ m.entry? i = some t ∨ (t ∈ m.loop.active ∧
      ¬ (i.leave? = some t ∨ m.turnedAway? i l = some t ∨ i = .sweepLoop)) := by
  rcases h with h | h
  · -- nothing is turned away here
    rw [h.keeps_waiting.1]
    cases h with
    | aside hi hentry =>
      obtain ⟨-, hending, hcalm⟩ := Instr.isBooking_eq_false.mp hi
      have hsweep : i ≠ .sweepLoop := by
        rintro rfl
        cases hcalm
      simp [hentry, Instr.leave?_eq_none hending, hsweep]
    | @submitted k who hphase =>
      have hentry : m.entry? (.submit k who) = some t ↔ t = k := by
        simp [Machine.entry?, hphase, eq_comm]
      simp [hentry, Instr.leave?, EventLoop.adopt]
    | queued => simp [Machine.entry?, Instr.leave?]
    | @pushed k caller _ hphase =>
      have hentry : m.entry? (.microtask k caller) = some t ↔ t = k := by
        simp [Machine.entry?, hphase, eq_comm]
      simp [hentry, Instr.leave?, EventLoop.adopt]
    | @left k =>
      show t ∈ m.loop.active.erase k ↔ _
      rw [hnodup.mem_erase_iff]
      simp [Machine.entry?, Instr.leave?, and_comm, eq_comm]
    | recorded => simp [Machine.entry?, Instr.leave?]
  · cases h with
    | @refused k who =>
      have haway : m.turnedAway? (.enqueue k who)
          { m.loop with submitting := m.loop.submitting - 1, active := m.loop.active.erase k } =
            some k := Option.filter_some_pos (decide_eq_true (Nat.le_refl _))
      rw [haway]
      show t ∈ m.loop.active.erase k ↔ _
      rw [hnodup.mem_erase_iff]
      simp [Machine.entry?, Instr.leave?, and_comm, eq_comm]
    | swept => simp [Machine.entry?]
    | _ => simp [Machine.turnedAway?, Machine.entry?, Instr.leave?, Instr.enqueue?]

/-- Whether the instruction waits at the gate. -/
def Instr.isHeldAt (gate : List TaskId) : Instr α → Bool
  | hold t => gate.contains t
  | _ => false

/-- When the loop holds nothing and all code waits at the gate, nothing happens. -/
theorem Machine.atRest_of_gated {m : Machine α} (hsignal : m.loop.stopSignal = false)
    (hqueue : m.loop.queue = []) (hmicrotasks : m.loop.microtasks = [])
    (htimers : m.loop.timers = [])
    (hstrands : ∀ s ∈ m.strands, s.role ≠ .dispatcher ∧
      s.code.head?.all (Instr.isHeldAt m.gate) = true) : m.AtRest := by
  intro micros heedStop self
  unfold step
  split
  · rfl
  · next s hs =>
    obtain ⟨hrole, hheld⟩ := hstrands s (List.mem_of_getElem? hs)
    split_ifs
    · rfl
    · cases hcode : s.code with
      | nil =>
        exact Option.map_eq_none_iff.mpr
          (idleStep_elapse_eq_none hsignal hqueue hmicrotasks htimers hrole micros heedStop)
      | cons i rest =>
        refine Option.map_eq_none_iff.mpr ?_
        rw [hcode] at hheld
        cases i with
        | hold t =>
          have hgate : m.gate.contains t = true := hheld
          show (if m.gate.contains t then none else _) = none
          rw [if_pos hgate]
        | _ => cases hheld

namespace Chronicle

open Machine

variable {c d : Chronicle α} {t : TaskId} {config : LoopConfig} {workers : Nat}

/-- The task was brought to the loop, and the loop has not let go of it since. -/
def Enrolled (c : Chronicle α) (t : TaskId) : Prop :=
  ∃ (before : List (Event α)) (v : Event α) (after : List (Event α)),
    c.events = before ++ v :: after ∧ v.entry? = some t ∧ ∀ w ∈ after, ¬ w.Drops t

theorem enrolled_concat {v : Event α} (h : d.events = c.events ++ [v]) :
    d.Enrolled t ↔ v.entry? = some t ∨ (c.Enrolled t ∧ ¬ v.Drops t) := by
  constructor
  · rintro ⟨before, w, after, hevents, hentry, hkept⟩
    rw [h] at hevents
    rcases List.eq_nil_or_concat after with rfl | ⟨rest, last, rfl⟩
    · obtain ⟨-, hlast⟩ := List.append_inj' hevents rfl
      obtain rfl := List.singleton_inj.mp hlast
      exact Or.inl hentry
    · rw [List.concat_eq_append, ← List.cons_append, ← List.append_assoc] at hevents
      obtain ⟨hbefore, hlast⟩ := List.append_inj' hevents rfl
      obtain rfl := List.singleton_inj.mp hlast
      rw [List.concat_eq_append] at hkept
      obtain ⟨hkept, hlast⟩ := List.forall_mem_append.mp hkept
      exact Or.inr ⟨⟨before, w, rest, hbefore, hentry, hkept⟩,
        hlast v (List.mem_singleton_self v)⟩
  · rintro (hentry | ⟨⟨before, w, after, hevents, hentry, hkept⟩, hlast⟩)
    · exact ⟨c.events, v, [], h, hentry, by simp⟩
    · refine ⟨before, w, after ++ [v], by simp [h, hevents], hentry, ?_⟩
      exact List.forall_mem_append.mpr ⟨hkept, List.forall_mem_singleton.mpr hlast⟩

/-! ### Runs -/

/-- **The loop is responsible for the tasks that it has not let go of** since they were last brought
to it. -/
theorem Reaches.mem_active (h : (start config workers).Reaches c) (t : TaskId) :
    t ∈ c.machine.loop.active ↔ c.Enrolled t := by
  induction h with
  | refl =>
    refine iff_of_false List.not_mem_nil ?_
    rintro ⟨before, v, after, hevents, -⟩
    simp [start] at hevents
  | @turn c d hreach heedStop self hturn ih =>
    cases turn_turn hturn with
    | @carried s i rest code m₁ answer added hs _ hcode hexec hadded hd hevents =>
      have hloop : m₁.loop = d.machine.loop := by rw [hd]
      have heffect := exec_counts heedStop i m₁ code hexec
      rw [hloop] at heffect
      rw [enrolled_concat hevents, mem_active_next heffect hreach.audited.nodup, ih]
      rfl
    | @found s role code m₁ exited hs _ _ hcode hfinds hd hevents =>
      obtain ⟨taken, -, -, -, -, -, hactive, -⟩ := hfinds.books
      have hloop : d.machine.loop = m₁.loop := by rw [hd]
      unfold Enrolled at ih ⊢
      rw [hevents, hloop, hactive, ih]
  | move hreach hmove ih =>
    show t ∈ _ ↔ _
    rw [hmove.around.loop.active, ih]
    rfl

/-- Whoever empties the loop has stopped it. -/
theorem Reaches.sweeper (h : (start config workers).Reaches c) :
    ∀ v ∈ c.events, v.instr = .sweepLoop → v.strand ∈ c.stoppers := by
  induction h with
  | refl => simp [start]
  | @turn c d hreach heedStop self hturn ih =>
    intro v hv hinstr
    cases turn_turn hturn with
    | @carried s i rest code m₁ answer added hs _ hcode hexec hadded hd hevents =>
      unfold stoppers
      rw [hevents] at hv ⊢
      refine mem_filterMap_concat.mpr (Or.inl ?_)
      rcases List.mem_append.mp hv with hv | hv
      · exact ih v hv hinstr
      · obtain rfl := List.mem_singleton.mp hv
        obtain rfl : i = .sweepLoop := hinstr
        exact (hreach.stopping.sweeping self s hs (hcode ▸ List.mem_cons_self)).1
    | found _ _ _ _ _ _ hevents =>
      unfold stoppers
      rw [hevents] at hv ⊢
      exact ih v hv hinstr
  | move _ _ ih => exact ih

/-- A task that was brought to a running loop once is active as long as it is outstanding. -/
theorem Reaches.enrolled_of_once (h : (start config workers).Reaches c)
    (hphase : c.machine.loop.phase = .running) (ht : t ∈ c.machine.outstanding)
    (honce : c.entries.count t = 1) : c.Enrolled t := by
  -- its only entry is still there, so none was let go of
  have hentries := h.audited.entries t
  have hthere := mem_outstanding.mp ht
  have hleft : t ∉ c.left := List.count_eq_zero.mp (by omega)
  have haway : t ∉ c.turnedAway := List.count_eq_zero.mp (by omega)
  obtain ⟨v, hv, hentry⟩ := List.mem_filterMap.mp (List.count_pos_iff.mp (honce ▸ Nat.one_pos))
  obtain ⟨before, after, hevents⟩ := List.append_of_mem hv
  refine ⟨before, v, after, hevents, hentry, fun w hw hdrops => ?_⟩
  have hw' : w ∈ c.events := by simp [hevents, hw]
  rcases hdrops with hleave | hturned | hsweep
  · exact hleft (List.mem_filterMap.mpr ⟨w, hw', hleave⟩)
  · exact haway (List.mem_filterMap.mpr ⟨w, hw', hturned⟩)
  · exact absurd ((h.stopping.phase _ (h.sweeper w hw' hsweep)).symm.trans hphase) nofun

/-- **What the number of active tasks says.**  In every run of a loop, at rest or not, however often
its tasks are brought to it:

* the active tasks are those that were brought to the loop and that it has not let go of since, each
  of them once;
* all of them are outstanding, so there are at most as many as there are distinct outstanding tasks,
  and as many exactly if it has let go of none of these since it was last brought to the loop;
* that is so while the loop is running if no task was brought to it twice. -/
theorem Reaches.active_counts (h : (start config workers).Reaches c) :
    c.machine.loop.active.Nodup ∧ (∀ t, t ∈ c.machine.loop.active ↔ c.Enrolled t) ∧
      c.machine.loop.active ⊆ c.machine.outstanding ∧
      (c.machine.loop.active.length = c.machine.outstanding.dedup.length ↔
        ∀ t ∈ c.machine.outstanding, c.Enrolled t) ∧
      (c.machine.loop.phase = .running → c.entries.Nodup →
        c.machine.loop.active.length = c.machine.outstanding.dedup.length) := by
  have a := h.audited
  have hsub : c.machine.loop.active ⊆ c.machine.outstanding := fun t ht =>
    mem_outstanding.mpr (a.active t ht)
  have hiff : c.machine.loop.active.length = c.machine.outstanding.dedup.length ↔
      ∀ t ∈ c.machine.outstanding, c.Enrolled t := by
    rw [length_eq_dedup_iff a.nodup hsub]
    exact forall₂_congr fun t _ => h.mem_active t
  refine ⟨a.nodup, h.mem_active, hsub, hiff, fun hphase honce => hiff.mpr fun t ht => ?_⟩
  refine h.enrolled_of_once hphase ht (List.count_eq_one_of_mem honce ?_)
  -- what is outstanding was brought to the loop
  have hentries := a.entries t
  have hthere := mem_outstanding.mp ht
  exact List.count_pos_iff.mp (by omega)

/-! ### A task that is submitted twice -/

/-- A loop with two workers, and a task that is held at the gate when it runs; the strands 0 to 3
are the threads of the loop.  The task is given to the loop, and the first worker runs it. -/
def manned : Chronicle Nat :=
  ((((start { workers := 2 } 0).act
    fun m => (m.newTask (.script [.gate] (.done (.returns (.ok 7))))).2).act startLoop).call
    (.submit 0 .caller)).run [4, 4, 4, 0, 0, 0, 0]

/-- The task is given to the loop again, and the second worker finds that it is running. -/
def doubled : Chronicle Nat := (manned.call (.submit 0 .caller)).run [5, 5, 5, 1, 1, 1, 1]

theorem reaches_manned : (start { workers := 2 } 0).Reaches manned :=
  ((Reaches.refl.act (.newTask _ none rfl)).act .startLoop).call (.submit 0 .caller) trivial trivial
    |>.run _

theorem reaches_doubled : (start { workers := 2 } 0).Reaches doubled :=
  (reaches_manned.call (.submit 0 .caller) trivial trivial).run _

/-- While the task was given to the loop once, it is the one active task; afterwards it is
outstanding, and not enrolled. -/
theorem active_counts_doubled :
    manned.machine.loop.active.length = manned.machine.outstanding.dedup.length ∧
      doubled.machine.outstanding = [0] ∧ ¬ doubled.Enrolled 0 := by
  obtain ⟨-, -, -, -, honce⟩ := reaches_manned.active_counts
  obtain ⟨-, hactive, -⟩ := reaches_doubled.active_counts
  have hnone : doubled.machine.loop.active = [] := by decide +kernel
  refine ⟨honce (by decide +kernel) (by decide +kernel), by decide +kernel, ?_⟩
  rw [← hactive, hnone]
  exact List.not_mem_nil

/-- **A running task drops out of the active ones**: nothing can happen any more until the gate is
opened, the loop is running and the task is at its body, but no task is active. -/
theorem doubled_overlooked :
    ¬ ∀ (c : Chronicle Nat), (start { workers := 2 } 0).Reaches c →
      c.machine.loop.phase = .running → c.machine.AtRest →
      c.machine.loop.active.length = c.machine.outstanding.dedup.length := by
  intro hall
  have hrest : doubled.machine.AtRest := atRest_of_gated (by decide +kernel) (by decide +kernel)
    (by decide +kernel) (by decide +kernel) (by decide +kernel)
  have hlength := hall doubled reaches_doubled (by decide +kernel) hrest
  exact absurd hlength (by decide +kernel)

end Chronicle

end ManagedHost
