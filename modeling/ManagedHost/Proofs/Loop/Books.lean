import ManagedHost.Proofs.Loop.Counting

/-!
# The books of a loop that nobody stops

`Chronicle.entries` are the tasks that were brought to the loop, and `Chronicle.counted` those that
it has counted by their state.  `Chronicle.Booked` says where an entry can be: waiting, about to be
counted, or counted; and that the loop is responsible for the entries that wait and those that one
of its threads has yet to let go of.  It is kept by every step of a loop that was not told to stop
(`Booked.turn`), as long as no task is brought to it twice.
-/

namespace ManagedHost

variable {α : Type}

namespace Event

/-- The task that is brought to the loop. -/
def entry? (e : Event α) : Option TaskId := e.before.entry? e.instr

/-- The task that is counted by its state. -/
def counted? (e : Event α) : Option TaskId := e.instr.record?

end Event

/-- How often the task waits: for room in the queue, in it, or among the microtasks. -/
def Machine.waiting (m : Machine α) (t : TaskId) : Nat :=
  (m.held Instr.enqueue?).count t + m.loop.queue.count t + m.loop.microtasks.count t

/-- What callers do beside the steps of the strands brings nothing to the loop and takes nothing
from it. -/
theorem Machine.Around.books_eq {m m' : Machine α} (h : m.Around m') :
    (∀ t, m'.waiting t = m.waiting t) ∧ m'.held Instr.leave? = m.held Instr.leave? ∧
      m'.held Instr.record? = m.held Instr.record? := by
  have hcalls : ∀ f : Instr α → Option TaskId, (∀ j : Instr α, j.isBooking = false → f j = none) →
      m'.held f = m.held f :=
    fun f hf => h.held_eq f fun j hj => hf j hj.isBooking_eq_false
  have hE := hcalls Instr.enqueue? fun j hj => (Instr.isBooking_eq_false.mp hj).1
  refine ⟨fun t => ?_, ?_, ?_⟩
  · unfold waiting
    rw [hE, h.loop.queue, h.loop.microtasks]
  · exact hcalls _ fun j hj => Instr.leave?_eq_none (Instr.isBooking_eq_false.mp hj).2.1
  · exact hcalls _ fun j hj => Instr.record?_eq_none (Instr.isBooking_eq_false.mp hj).2.1

namespace Chronicle

open Machine

variable {c d : Chronicle α} {heedStop : Bool} {self : Nat}

/-- The tasks that were brought to the loop, oldest first. -/
def entries (c : Chronicle α) : List TaskId := c.events.filterMap Event.entry?

/-- The tasks that the loop has counted by their state, oldest first. -/
def counted (c : Chronicle α) : List TaskId := c.events.filterMap Event.counted?

/-- **The books of the loop.** -/
structure Booked (c : Chronicle α) : Prop where
  /-- Nobody is stopping the loop. -/
  calm : ∀ j, c.machine.Holds j → j.isStopping = false
  entries : ∀ t, c.entries.count t =
    c.machine.waiting t + (c.machine.held Instr.record?).count t + c.counted.count t
  active : ∀ t, c.machine.loop.active.count t =
    c.machine.waiting t + (c.machine.held Instr.leave?).count t
  known : ∀ t ∈ c.machine.loop.active, t ∈ c.entries
  submissions : c.machine.loop.stats.scheduled + c.machine.loop.stats.microtasks = c.entries.length

theorem booked_start (config : LoopConfig) (workers : Nat) :
    (start config workers : Chronicle α).Booked where
  calm := fun _ ⟨_, hs, _⟩ => absurd hs List.not_mem_nil
  entries _ := rfl
  active _ := rfl
  known := fun _ ht => absurd ht List.not_mem_nil
  submissions := rfl

/-- What is recorded of one more event comes last. -/
theorem filterMap_concat {β : Type} (f : Event α → Option β) (events : List (Event α))
    (v : Event α) : (events ++ [v]).filterMap f = events.filterMap f ++ (f v).toList := by
  rw [List.filterMap_append]
  congr 1

/-- An event adds what it brings to the loop and what it counts. -/
theorem entries_concat {i : Instr α}
    (h : d.events = c.events ++ [⟨c.machine, d.machine, self, i⟩]) :
    d.entries = c.entries ++ (c.machine.entry? i).toList ∧
      d.counted = c.counted ++ i.record?.toList := by
  unfold entries counted
  rw [h]
  exact ⟨filterMap_concat .., filterMap_concat ..⟩

section Turn

variable (b : c.Booked) (hturn : c.turn heedStop self = some d)
include b hturn

/-- **The books are kept by every step** of a loop that was not told to stop. -/
theorem Booked.turn (hsignal : d.machine.loop.stopSignal = false) (honce : d.entries.Nodup) :
    d.Booked := by
  cases turn_turn hturn with
  | @carried s i rest code m₁ answer added hs _ hcode hexec hadded hd hevents =>
    have hstrands := congrArg Machine.strands hd
    have hloop : d.machine.loop = m₁.loop := by rw [hd]
    obtain ⟨hentries, hcounted⟩ := entries_concat hevents
    obtain ⟨hi, -, -, hfrom⟩ := holds_carried hs hcode hadded hstrands
    have henqueue := count_held_carried Instr.enqueue? (fun _ _ => rfl) hs hcode hadded hstrands
    have hleave := count_held_carried Instr.leave? (fun _ _ => rfl) hs hcode hadded hstrands
    have hrecord := count_held_carried Instr.record? (fun _ _ => rfl) hs hcode hadded hstrands
    have hcalm := b.calm i hi
    have heffect := exec_counts_calm hexec hcalm (hloop ▸ hsignal)
    rw [← hloop] at heffect
    have hleaves := heffect.leaves
    obtain ⟨hleave', hrecord'⟩ := filterMap_of_isEnding fun j hj => (hleaves j hj).1
    -- a task that is brought to the loop was not there before, and one that leaves it was
    have hfresh : ∀ t, c.machine.entry? i = some t → t ∉ c.machine.loop.active := by
      intro t ht hactive
      rw [hentries, ht] at honce
      exact (List.nodup_append.mp honce).2.2 t (b.known t hactive) t (List.mem_singleton_self t) rfl
    have hthere : ∀ t, i.leave? = some t → t ∈ c.machine.loop.active := by
      intro t ht
      have hpos := List.count_pos_iff.mpr (mem_held.mpr ⟨i, hi, ht⟩)
      have hactive := b.active t
      exact List.count_pos_iff.mp (by omega)
    refine
      { calm := fun j hj => ?calm, entries := fun t => ?entries, active := fun t => ?active,
        known := fun t ht => ?known, submissions := ?submissions }
    case calm =>
      rcases hfrom j hj with hj | hj | ⟨p, setup, rfl⟩
      · exact (hleaves j hj).2
      · exact b.calm j hj
      · rfl
    case entries =>
      have hbefore := b.entries t
      have hwaiting := heffect.count_waiting t
      have hE := henqueue t
      have hR := hrecord t
      rw [hrecord', List.count_nil] at hR
      rw [hentries, hcounted, List.count_append, List.count_append]
      unfold waiting at hbefore ⊢
      omega
    case active =>
      have hbefore := b.active t
      have hwaiting := heffect.count_waiting t
      have hactive := heffect.count_active hfresh hthere t
      have hE := henqueue t
      have hL := hleave t
      rw [hleave', List.count_nil] at hL
      unfold waiting at hbefore ⊢
      omega
    case known =>
      rw [hentries]
      rcases heffect.mem_active ht with ht | ht
      · exact List.mem_append_left _ (b.known t ht)
      · rw [ht]
        exact List.mem_append_right _ (List.mem_singleton_self t)
    case submissions => rw [heffect.submissions, hentries, List.length_append, b.submissions]
  | @found s role code m₁ exited hs _ _ hcode hfinds hd hevents =>
    have hstrands := congrArg Machine.strands hd
    have hloop : d.machine.loop = m₁.loop := by rw [hd]
    obtain ⟨taken, henqueue, hleave, hrecord, hcalm, hwaiting, hactive, hstats⟩ := hfinds.books
    obtain ⟨-, -, hfrom⟩ := holds_found hs hcode hstrands
    have hE := count_held_found Instr.enqueue? hs hcode hstrands
    have hL := count_held_found Instr.leave? hs hcode hstrands
    have hR := count_held_found Instr.record? hs hcode hstrands
    rw [henqueue] at hE
    rw [hleave] at hL
    rw [hrecord] at hR
    rw [← hloop] at hwaiting hactive hstats
    have hentries : d.entries = c.entries := congrArg (List.filterMap Event.entry?) hevents
    have hcounted : d.counted = c.counted := congrArg (List.filterMap Event.counted?) hevents
    refine
      { calm := fun j hj => (hfrom j hj).elim (hcalm j) (b.calm j), entries := fun t => ?entries,
        active := fun t => ?active, known := ?known, submissions := ?submissions }
    case entries =>
      have hbefore := b.entries t
      have hE := hE t
      have hR := hR t
      have hwaiting := hwaiting t
      rw [List.count_nil] at hE
      rw [hentries, hcounted]
      unfold waiting at hbefore ⊢
      omega
    case active =>
      have hbefore := b.active t
      have hE := hE t
      have hL := hL t
      have hwaiting := hwaiting t
      rw [List.count_nil] at hE
      rw [hactive]
      unfold waiting at hbefore ⊢
      omega
    case known =>
      rw [hentries, hactive]
      exact b.known
    case submissions =>
      rw [hstats, hentries]
      exact b.submissions

end Turn

/-- What callers do beside the steps of the strands changes nothing in the books. -/
theorem Booked.move {m : Machine α} (b : c.Booked) (h : c.machine.Move m) :
    Booked { c with machine := m } := by
  have haround := h.around
  obtain ⟨timers, hstats⟩ := h.stats_eq
  obtain ⟨hwaiting, hL, hR⟩ := haround.books_eq
  refine
    { calm := fun j hj => ?calm, entries := fun t => ?entries, active := fun t => ?active,
      known := ?known, submissions := ?submissions }
  case calm =>
    rcases haround.of_holds hj with hj | ⟨hcall, -⟩
    · exact b.calm j hj
    · exact (Instr.isBooking_eq_false.mp hcall.isBooking_eq_false).2.2
  case entries =>
    show c.entries.count t = m.waiting t + (m.held Instr.record?).count t + c.counted.count t
    rw [hwaiting, hR]
    exact b.entries t
  case active =>
    show m.loop.active.count t = m.waiting t + (m.held Instr.leave?).count t
    rw [hwaiting, hL, haround.loop.active]
    exact b.active t
  case known =>
    show ∀ t ∈ m.loop.active, t ∈ c.entries
    rw [haround.loop.active]
    exact b.known
  case submissions =>
    show m.loop.stats.scheduled + m.loop.stats.microtasks = c.entries.length
    rw [hstats]
    exact b.submissions

theorem stopSignal_effect {l l' : EventLoop} {i : Instr α} {code : List (Instr α)}
    (h : LoopEffect l i code l') (hsignal : l'.stopSignal = false) : l.stopSignal = false := by
  cases h with
  | told => cases hsignal
  | _ => exact hsignal

/-- A loop that was told to stop is not told otherwise. -/
theorem stopSignal_turn (hturn : c.turn heedStop self = some d)
    (hsignal : d.machine.loop.stopSignal = false) : c.machine.loop.stopSignal = false := by
  cases turn_turn hturn with
  | @carried s i rest code m₁ answer added hs _ hcode hexec hadded hd hevents =>
    rw [hd] at hsignal
    exact stopSignal_effect (exec_executes heedStop i m₁ code hexec).loop hsignal
  | @found s role code m₁ exited hs _ _ hcode hfinds hd hevents =>
    rw [hd] at hsignal
    cases hfinds <;> exact hsignal

end Chronicle

end ManagedHost
