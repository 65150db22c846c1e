import ManagedHost.Heap.Workers
import ManagedHost.Proofs.Heap.Collection
import Mathlib.Algebra.Order.Group.Multiset
import Mathlib.Tactic.Abel

/-!
# Draining the queue together

Workers leave the loop one by one, each after it saw the queue empty and then no worker active.
These are two looks at different moments, so a worker may leave while another is about to put
objects into the queue, or while the queue is not empty.  Still no object is left behind.

* `Crew.Balanced` is what one step of one worker does to the counts and to the queue, and
  `Crew.advance_balanced` says it of every stage.
* `Crew.Ledger` is what holds after any turns: every object that was put into the queue is in the
  queue, in the hands of a worker, or scanned; and while the queue is not empty some worker is
  *awake*, which means that it will look at the queue before it can leave.  A scan that puts an
  object into the queue keeps its own worker awake, and a worker stops being awake only when it
  sees the queue empty.
* `Crew.run_drains`: so the queue is empty once all workers have left, and every object was scanned
  as many times as it was put into the queue.
-/

namespace ManagedHost

namespace Stage

variable {α κ : Type}

/-- Whether the worker counts itself as active. -/
def isActive : Stage α κ → Bool
  | .fetching | .scanning _ _ | .tallying | .retiring | .withdrawing => true
  | _ => false

/-- Whether the worker has a scan to count. -/
def isTallying : Stage α κ → Bool
  | .tallying => true
  | _ => false

/-- Whether the worker will look at the queue before it can leave. -/
def isAwake : Stage α κ → Bool
  | .asking | .gone => false
  | _ => true

/-- The object that the worker scans. -/
def object? : Stage α κ → Option α
  | .scanning a _ => some a
  | _ => none

theorem eq_gone_of_isGone {stage : Stage α κ} (h : stage.isGone = true) : stage = .gone := by
  cases stage with
  | gone => rfl
  | _ => exact Bool.noConfusion h

end Stage

namespace Crew

variable {σ α κ : Type}

/-! ### The log -/

/-- The objects that were put into the queue, oldest first. -/
def pushedIn (log : List (Event α)) : List α :=
  log.filterMap fun
    | .pushed a => some a
    | _ => none

/-- The objects that were taken off the queue, oldest first. -/
def poppedIn (log : List (Event α)) : List α :=
  log.filterMap fun
    | .popped a => some a
    | _ => none

/-- The objects whose scans have ended, oldest first. -/
def scannedIn (log : List (Event α)) : List α :=
  log.filterMap fun
    | .scanned a => some a
    | _ => none

section Log

variable (log events : List (Event α)) (objects : List α)

theorem pushedIn_append : pushedIn (log ++ events) = pushedIn log ++ pushedIn events :=
  List.filterMap_append

theorem poppedIn_append : poppedIn (log ++ events) = poppedIn log ++ poppedIn events :=
  List.filterMap_append

theorem scannedIn_append : scannedIn (log ++ events) = scannedIn log ++ scannedIn events :=
  List.filterMap_append

theorem pushedIn_map_pushed : pushedIn (objects.map .pushed) = objects := by
  rw [pushedIn, List.filterMap_map]
  exact List.filterMap_some

theorem poppedIn_map_pushed : poppedIn (objects.map .pushed) = [] := by
  rw [poppedIn, List.filterMap_map]
  exact List.filterMap_eq_nil_iff.mpr fun _ _ => rfl

theorem scannedIn_map_pushed : scannedIn (objects.map .pushed) = [] := by
  rw [scannedIn, List.filterMap_map]
  exact List.filterMap_eq_nil_iff.mpr fun _ _ => rfl

end Log

/-! ### One step of one worker -/

/-- What one step does that takes a worker from one stage to another. -/
structure Balanced (s : Shared σ α) (stage : Stage α κ) (events : List (Event α)) (s' : Shared σ α)
    (stage' : Stage α κ) : Prop where
  /-- Objects leave the queue at its front and join it at its end. -/
  queue : s.queue ++ pushedIn events = poppedIn events ++ s'.queue
  /-- An object that is taken off the queue is in the worker's hands until its scan ends. -/
  held : (stage.object?.toList ++ poppedIn events).Perm (scannedIn events ++ stage'.object?.toList)
  /-- Every scan that ends is counted in the next step. -/
  scans : s'.scans + (if stage'.isTallying then 1 else 0) =
    s.scans + (if stage.isTallying then 1 else 0) + (scannedIn events).length
  /-- The count of active workers follows, as long as it includes this worker. -/
  active : (if stage.isActive then 1 else 0) ≤ s.active →
    s'.active + (if stage.isActive then 1 else 0) = s.active + (if stage'.isActive then 1 else 0)
  /-- If there is something in the queue afterwards, then this worker is awake, or it was not awake
  before and has not changed the queue. -/
  awake : s'.queue ≠ [] → stage'.isAwake = true ∨ (stage.isAwake = false ∧ s'.queue = s.queue)

/-- A step in which nothing happens to an object. -/
theorem Balanced.quiet {s s' : Shared σ α} {stage stage' : Stage α κ} (hqueue : s'.queue = s.queue)
    (hheld : stage.object? = none) (hheld' : stage'.object? = none)
    (hscans : s'.scans + (if stage'.isTallying then 1 else 0) =
      s.scans + (if stage.isTallying then 1 else 0))
    (hactive : (if stage.isActive then 1 else 0) ≤ s.active →
      s'.active + (if stage.isActive then 1 else 0) =
        s.active + (if stage'.isActive then 1 else 0))
    (hawake : s.queue ≠ [] → stage'.isAwake = true ∨ stage.isAwake = false) :
    Balanced s stage [] s' stage' where
  queue := by rw [hqueue]; exact List.append_nil _
  held := by rw [hheld, hheld']; exact .refl _
  scans := hscans
  active := hactive
  awake h := (hawake (by rwa [← hqueue])).imp_right fun hstage => ⟨hstage, hqueue⟩

/-- An action of a scan, before the scan's end or at it. -/
theorem Balanced.action {s : Shared σ α} {a : α} {k : κ} (store : σ) (objects : List α) :
    (∀ k', Balanced s (.scanning a k) (objects.map .pushed)
      { s with store, queue := s.queue ++ objects } (.scanning a k')) ∧
    Balanced s (.scanning a k) (objects.map Event.pushed ++ [Event.scanned a])
      { s with store, queue := s.queue ++ objects } (.tallying : Stage α κ) := by
  constructor
  · intro k'
    refine ⟨?_, ?_, ?_, fun _ => rfl, fun _ => Or.inl rfl⟩
    · rw [pushedIn_map_pushed, poppedIn_map_pushed, List.nil_append]
    · rw [poppedIn_map_pushed, scannedIn_map_pushed, List.append_nil]
      exact .refl _
    · rw [scannedIn_map_pushed]
      rfl
  · refine ⟨?_, ?_, ?_, fun _ => rfl, fun _ => Or.inl rfl⟩
    · rw [pushedIn_append, poppedIn_append, pushedIn_map_pushed, poppedIn_map_pushed]
      simp [pushedIn, poppedIn]
    · rw [poppedIn_append, scannedIn_append, poppedIn_map_pushed, scannedIn_map_pushed]
      exact .refl _
    · rw [scannedIn_append, scannedIn_map_pushed]
      rfl

theorem advance_balanced (sc : Scanner σ α κ) (s : Shared σ α) (stage : Stage α κ) :
    Balanced s stage (advance sc s stage).1 (advance sc s stage).2.1 (advance sc s stage).2.2 := by
  cases stage with
  | enrolling => exact .quiet rfl rfl rfl rfl (fun _ => rfl) fun _ => Or.inl rfl
  | fetching =>
    simp only [advance]
    split
    · exact .quiet rfl rfl rfl rfl (fun _ => rfl) fun _ => Or.inl rfl
    · next a rest hcons =>
      exact ⟨by simp [pushedIn, poppedIn, hcons], .refl _, rfl, fun _ => rfl, fun _ => Or.inl rfl⟩
  | scanning a k =>
    have haction := Balanced.action (s := s) (a := a) (k := k) (sc.act k s.store).1
      (sc.act k s.store).2.1
    simp only [advance]
    split
    · exact haction.1 _
    · exact haction.2
  | tallying => exact .quiet rfl rfl rfl rfl (fun _ => rfl) fun _ => Or.inl rfl
  | retiring | withdrawing =>
    -- the worker counts itself out, and it was counted
    exact .quiet rfl rfl rfl rfl Nat.sub_add_cancel fun _ => Or.inl rfl
  | looking =>
    simp only [advance]
    split
    · next hempty =>
      refine .quiet rfl rfl rfl rfl (fun _ => rfl) fun hqueue => ?_
      exact absurd (List.isEmpty_iff.mp hempty) hqueue
    · exact .quiet rfl rfl rfl rfl (fun _ => rfl) fun _ => Or.inl rfl
  | asking =>
    simp only [advance]
    split <;> exact .quiet rfl rfl rfl rfl (fun _ => rfl) fun _ => Or.inr rfl
  | gone => exact .quiet rfl rfl rfl rfl (fun _ => rfl) fun _ => Or.inr rfl

/-- A step moves one worker and leaves the others where they are. -/
theorem step_eq (sc : Scanner σ α κ) {c : Crew σ α κ} {worker : Nat} {stage : Stage α κ}
    (hstage : c.stages[worker]? = some stage) :
    ∃ before after, c.stages = before ++ stage :: after ∧
      c.step sc worker = ((advance sc c.toShared stage).1,
        { toShared := (advance sc c.toShared stage).2.1
          stages := before ++ (advance sc c.toShared stage).2.2 :: after }) := by
  obtain ⟨hlt, rfl⟩ := List.getElem?_eq_some_iff.mp hstage
  obtain ⟨before, after, hsplit, -, hset⟩ := List.exists_of_set hlt
  refine ⟨before, after, hsplit, ?_⟩
  rw [step, hstage]
  dsimp only
  rw [hset]

/-- There is no such worker. -/
theorem step_eq_self (sc : Scanner σ α κ) {c : Crew σ α κ} {worker : Nat}
    (hnone : c.stages[worker]? = none) : c.step sc worker = ([], c) := by
  rw [step, hnone]

/-! ### Any turns -/

/-- The objects that the workers have in their hands. -/
def inHands (stages : List (Stage α κ)) : List α := stages.flatMap fun stage => stage.object?.toList

/-- **What holds after any turns** that began with `queue₀` in the queue. -/
structure Ledger (queue₀ : List α) (log : List (Event α)) (c : Crew σ α κ) : Prop where
  /-- What was put into the queue was taken off in the same order, or is there still. -/
  queue : queue₀ ++ pushedIn log = poppedIn log ++ c.queue
  /-- What was taken off the queue was scanned, or a worker has it in its hands. -/
  held : (poppedIn log).Perm (scannedIn log ++ inHands c.stages)
  scans : c.scans + c.stages.countP Stage.isTallying = (scannedIn log).length
  active : c.active = c.stages.countP Stage.isActive
  awake : c.queue ≠ [] → ∃ stage ∈ c.stages, stage.isAwake = true

namespace Ledger

variable {queue₀ : List α} {log events : List (Event α)} {c : Crew σ α κ}

/-- Before the first step every worker is awake, and there is at least one. -/
theorem gather (workers : Nat) (store : σ) (queue : List α) :
    Ledger queue [] (Crew.gather workers store queue : Crew σ α κ) := by
  refine
    { queue := List.append_nil queue, held := ?held, scans := ?scans, active := ?active,
      awake := ?awake }
  case held => simp [Crew.gather, inHands, poppedIn, scannedIn, Stage.object?]
  case scans => simp [Crew.gather, scannedIn, Stage.isTallying, List.countP_replicate]
  case active => simp [Crew.gather, Stage.isActive, List.countP_replicate]
  case awake =>
    intro _
    have hpos : max workers 1 ≠ 0 := by omega
    exact ⟨.enrolling, List.mem_replicate.mpr ⟨hpos, rfl⟩, rfl⟩

/-- One worker takes a step, and the others stay where they are. -/
theorem balanced {before after : List (Stage α κ)} {stage stage' : Stage α κ} {s' : Shared σ α}
    (l : Ledger queue₀ log c) (hstages : c.stages = before ++ stage :: after)
    (b : Balanced c.toShared stage events s' stage') :
    Ledger queue₀ (log ++ events)
      ({ toShared := s', stages := before ++ stage' :: after } : Crew σ α κ) := by
  have hactive := l.active
  have hscans := l.scans
  simp only [hstages, List.countP_append, List.countP_cons] at hactive hscans
  refine
    { queue := ?queue, held := ?held, scans := ?scans, active := ?active, awake := ?awake }
  case queue =>
    rw [pushedIn_append, poppedIn_append, ← List.append_assoc, l.queue, List.append_assoc,
      b.queue, List.append_assoc]
  case held =>
    -- as multisets: only the share of this worker changes
    have hheld := Multiset.coe_eq_coe.mpr l.held
    have hshare := Multiset.coe_eq_coe.mpr b.held
    rw [← Multiset.coe_eq_coe, poppedIn_append, scannedIn_append]
    simp only [hstages, inHands, List.flatMap_append, List.flatMap_cons, ← Multiset.coe_add]
      at hheld hshare ⊢
    calc (poppedIn log : Multiset α) + poppedIn events
        = scannedIn log + inHands before + inHands after
            + (stage.object?.toList + poppedIn events) := by rw [hheld]; unfold inHands; abel
      _ = scannedIn log + inHands before + inHands after
            + (scannedIn events + stage'.object?.toList) := by rw [hshare]
      _ = _ := by unfold inHands; abel
  case scans =>
    have hcount := b.scans
    rw [scannedIn_append, List.length_append]
    simp only [List.countP_append, List.countP_cons]
    omega
  case active =>
    have hcount := b.active (by rw [hactive]; omega)
    simp only [List.countP_append, List.countP_cons]
    omega
  case awake =>
    intro hqueue
    rcases b.awake hqueue with hstage | ⟨hstage, hsame⟩
    · exact ⟨stage', by simp, hstage⟩
    · -- some other worker is awake, and it still is
      obtain ⟨other, hother, hawake⟩ := l.awake (by rwa [← hsame])
      refine ⟨other, ?_, hawake⟩
      rw [hstages, List.mem_append, List.mem_cons] at hother
      rw [List.mem_append, List.mem_cons]
      refine hother.imp_right fun h => Or.inr (h.resolve_left ?_)
      rintro rfl
      rw [hstage] at hawake
      exact Bool.noConfusion hawake

theorem step (l : Ledger queue₀ log c) (sc : Scanner σ α κ) (worker : Nat) :
    Ledger queue₀ (log ++ (c.step sc worker).1) (c.step sc worker).2 := by
  cases hstage : c.stages[worker]? with
  | none =>
    rw [step_eq_self sc hstage, List.append_nil]
    exact l
  | some stage =>
    obtain ⟨before, after, hsplit, hstep⟩ := step_eq sc hstage
    rw [hstep]
    exact l.balanced hsplit (advance_balanced sc c.toShared stage)

theorem turn (l : Ledger queue₀ log c) (sc : Scanner σ α κ) (t : Turn σ) :
    Ledger queue₀ (log ++ (c.turn sc t).1) (c.turn sc t).2 := by
  cases t with
  | worker number => exact l.step sc number
  | other change =>
    -- the store is no part of the ledger
    rw [Crew.turn, List.append_nil]
    exact ⟨l.queue, l.held, l.scans, l.active, l.awake⟩

theorem run (l : Ledger queue₀ log c) (sc : Scanner σ α κ) (turns : List (Turn σ)) :
    Ledger queue₀ (log ++ (c.run sc turns).1) (c.run sc turns).2 := by
  induction turns generalizing log c with
  | nil => rwa [Crew.run, List.append_nil]
  | cons t rest ih =>
    rw [Crew.run, ← List.append_assoc]
    exact ih (l.turn sc t)

end Ledger

theorem mem_eq_gone {c : Crew σ α κ} (hgone : c.allGone = true) {stage : Stage α κ}
    (hstage : stage ∈ c.stages) : stage = .gone :=
  Stage.eq_gone_of_isGone (List.all_eq_true.mp hgone stage hstage)

/-- **The queue is empty when all workers have left**, for otherwise one of them would be awake. -/
theorem Ledger.queue_eq_nil {queue₀ : List α} {log : List (Event α)} {c : Crew σ α κ}
    (l : Ledger queue₀ log c) (hgone : c.allGone = true) : c.queue = [] := by
  by_contra hne
  obtain ⟨stage, hstage, hawake⟩ := l.awake hne
  rw [mem_eq_gone hgone hstage] at hawake
  exact Bool.noConfusion hawake

/-- **Nothing is left behind.**  However many workers drain a queue, whatever their scans do, in
whatever order their steps come, and whatever others do to the store meanwhile: when all workers
have left,

* the queue is empty;
* what was in the queue at first and what was put into it since was taken off in that order, each
  object once for each time that it was there;
* these are the objects that were scanned, in some order;
* that many scans were counted, and nobody counts as active any more. -/
theorem run_drains (sc : Scanner σ α κ) (workers : Nat) (store : σ) (queue : List α)
    (turns : List (Turn σ)) {log : List (Event α)} {c : Crew σ α κ}
    (hrun : run sc turns (gather workers store queue) = (log, c)) (hgone : c.allGone = true) :
    c.queue = [] ∧ poppedIn log = queue ++ pushedIn log ∧
      (scannedIn log).Perm (queue ++ pushedIn log) ∧ c.scans = (scannedIn log).length ∧
      c.active = 0 := by
  have l := (Ledger.gather (κ := κ) workers store queue).run sc turns
  rw [hrun, List.nil_append] at l
  have hqueue := l.queue_eq_nil hgone
  have hhands : inHands c.stages = [] := by
    refine List.flatMap_eq_nil_iff.mpr fun stage hstage => ?_
    rw [mem_eq_gone hgone hstage]
    rfl
  have htallying : c.stages.countP Stage.isTallying = 0 := by
    refine List.countP_eq_zero.mpr fun stage hstage => ?_
    rw [mem_eq_gone hgone hstage]
    exact Bool.noConfusion
  have hactive : c.stages.countP Stage.isActive = 0 := by
    refine List.countP_eq_zero.mpr fun stage hstage => ?_
    rw [mem_eq_gone hgone hstage]
    exact Bool.noConfusion
  have hpopped : poppedIn log = queue ++ pushedIn log := by
    rw [l.queue, hqueue, List.append_nil]
  have hheld := l.held
  rw [hhands, List.append_nil, hpopped] at hheld
  have hscans := l.scans
  rw [htallying, Nat.add_zero] at hscans
  exact ⟨hqueue, hpopped, hheld.symm, hscans, l.active.trans hactive⟩

/-- The turns of two workers of whom the second sees the queue empty while the first is in the
middle of a scan, and leaves when that scan has just put an object into the queue. -/
def earlyTurns : List (Turn Heap) :=
  ([0, 0] ++ List.replicate 4 1 ++ List.replicate 7 0 ++ [1]).map .worker

/-- The second worker leaves a queue that is not empty; the first goes on alone. -/
theorem run_drains_early :
    (run Heap.scanner earlyTurns (Heap.fourObjects.beginMarking.muster 2)).2.queue = [65616] ∧
      (run Heap.scanner earlyTurns (Heap.fourObjects.beginMarking.muster 2)).2.stages =
        [.enrolling, .gone] ∧
      ∃ log c, run Heap.scanner (earlyTurns ++ List.replicate 12 (Turn.worker 0))
          (Heap.fourObjects.beginMarking.muster 2) = (log, c) ∧ c.allGone = true ∧
        c.queue = [] ∧ poppedIn log = [65568, 65616] ∧ (scannedIn log).Perm [65568, 65616] ∧
        c.scans = 2 ∧ c.active = 0 := by
  refine ⟨by decide, by decide, ?_⟩
  generalize hrun : run Heap.scanner (earlyTurns ++ List.replicate 12 (Turn.worker 0))
    (Heap.fourObjects.beginMarking.muster 2) = result
  obtain ⟨log, c⟩ := result
  obtain ⟨hlog, hcrew⟩ := Prod.mk.inj hrun
  have hgone : c.allGone = true := by
    rw [← hcrew]
    decide
  have hobjects : Heap.fourObjects.beginMarking.gray ++ pushedIn log = [65568, 65616] := by
    rw [← hlog]
    decide
  have hlength : (scannedIn log).length = 2 := by
    rw [← hlog]
    decide
  obtain ⟨hqueue, hpopped, hscanned, hscans, hactive⟩ := run_drains _ 2 _ _ _ hrun hgone
  rw [hobjects] at hpopped hscanned
  exact ⟨log, c, rfl, hgone, hqueue, hpopped, hscanned, hscans.trans hlength, hactive⟩

end Crew

end ManagedHost
