import ManagedHost.Proofs.Schedule.Docket

/-!
# The entries of a scheduler are accounted for

Each entry that a scheduler accepted has been handed to the loop once, at a time when it was due, or
is held by the dispatcher, or waits for its deadline, or was dropped when the scheduler was stopped
(`Balanced`).  `Docket.Accounted` says so of a docket, together with what the counters of the
scheduler have to do with it; it is kept by every step (`Accounted.turn`).

While the dispatcher cannot go on (`Machine.Rests`), it holds nothing, unless it waits for room in
the loop's queue: `Reaches.balance_at_rest`.
-/

namespace ManagedHost

variable {α : Type}

/-! ### Accounts -/

/-- Whether it is this entry that is handed over, at a time when it is due. -/
def Scheduled.Handed (e : Scheduled TaskId) (x : TaskId × Nat) : Prop :=
  x.1 = e.task ∧ e.deadline ≤ x.2

/-- **The account of the entries**: those that were received have been handed over, each at a time
when it was due, or are held, or wait, or were dropped. -/
def Balanced (received held waiting dropped : List (Scheduled TaskId))
    (handovers : List (TaskId × Nat)) : Prop :=
  ∃ served, received.Perm (served ++ held ++ waiting ++ dropped) ∧
    List.Forall₂ Scheduled.Handed served handovers

namespace Balanced

variable {received held waiting waiting' dropped : List (Scheduled TaskId)}
  {handovers : List (TaskId × Nat)} {e : Scheduled TaskId}

/-- An entry is accepted. -/
theorem push (h : Balanced received held waiting dropped handovers)
    (hperm : waiting'.Perm (e :: waiting)) :
    Balanced (received ++ [e]) held waiting' dropped handovers := by
  obtain ⟨served, hreceived, hserved⟩ := h
  refine ⟨served, ?_, hserved⟩
  have hmiddle : (served ++ held ++ (e :: waiting) ++ dropped).Perm
      (e :: (served ++ held ++ waiting ++ dropped)) := List.perm_middle.append_right dropped
  refine ((List.perm_append_singleton e received).trans (hreceived.cons e)).trans ?_
  exact (((hperm.append_left _).append_right _).trans hmiddle).symm

/-- An entry is taken off the queue. -/
theorem take (h : Balanced received [] waiting dropped handovers)
    (hperm : waiting.Perm (e :: waiting')) : Balanced received [e] waiting' dropped handovers := by
  obtain ⟨served, hreceived, hserved⟩ := h
  refine ⟨served, ?_, hserved⟩
  refine hreceived.trans (((hperm.append_left _).append_right _).trans (.of_eq ?_))
  simp only [List.append_nil, List.append_assoc, List.nil_append, List.cons_append]

/-- The entry that is held is handed over. -/
theorem hand (h : Balanced received [e] waiting dropped handovers) {time : Nat}
    (hdue : e.deadline ≤ time) :
    Balanced received [] waiting dropped (handovers ++ [(e.task, time)]) := by
  obtain ⟨served, hreceived, hserved⟩ := h
  refine ⟨served ++ [e], ?_, List.rel_append hserved (.cons ⟨rfl, hdue⟩ .nil)⟩
  rwa [List.append_nil]

/-- All that wait are dropped. -/
theorem drop (h : Balanced received held waiting dropped handovers) :
    Balanced received held [] (dropped ++ waiting) handovers := by
  obtain ⟨served, hreceived, hserved⟩ := h
  refine ⟨served, hreceived.trans ?_, hserved⟩
  rw [List.append_nil, List.append_assoc]
  exact List.perm_append_comm.append_left _

theorem length_eq (h : Balanced received held waiting dropped handovers) :
    received.length = handovers.length + held.length + waiting.length + dropped.length := by
  obtain ⟨served, hreceived, hserved⟩ := h
  rw [hreceived.length_eq, ← hserved.length_eq]
  simp only [List.length_append]

end Balanced

namespace Docket

open Machine

variable {d e : Docket α} {heedStop : Bool} {self : Nat} {config : LoopConfig} {workers : Nat}

/-- **What is known of the entries and of the counters.** -/
structure Accounted (d : Docket α) : Prop where
  kept : d.machine.scheduler.queue.Kept
  numbers : d.received.map Scheduled.seq = List.range d.machine.scheduler.queue.pushed
  scheduled : d.machine.scheduler.scheduled = d.machine.scheduler.queue.pushed
  counts : d.handovers.length =
    d.machine.scheduler.dispatched + d.machine.scheduler.failures + d.machine.parked
  /-- What is held is about to be offered to the loop. -/
  ledger : ∃ held, Balanced d.received held d.waiting d.dropped d.handovers ∧
    held.length = d.machine.offered ∧
    ∀ x ∈ held, x.deadline ≤ d.machine.clock ∧ d.machine.Holds (.submit x.task .dispatcher)

theorem accounted_start (config : LoopConfig) (workers : Nat) :
    (start config workers : Docket α).Accounted where
  kept := DeadlineQueue.Session.accounted_start.kept
  numbers := rfl
  scheduled := rfl
  counts := rfl
  ledger := ⟨[], ⟨[], .nil, .nil⟩, rfl, fun _ hx => absurd hx List.not_mem_nil⟩

/-- What is recorded of one more event. -/
theorem records_concat {v : Event α} (h : e.events = d.events ++ [v]) :
    e.handovers = d.handovers ++ v.handover?.toList ∧ e.dropped = d.dropped ++ v.dropped ∧
      e.closers = d.closers ++ v.closer?.toList := by
  unfold handovers dropped closers
  rw [h, List.filterMap_append, List.flatMap_append, List.filterMap_append]
  simp only [List.flatMap_singleton, true_and]
  constructor
  · cases hv : v.handover? <;> simp [hv]
  · cases hv : v.closer? <;> simp [hv]

/-- Nothing has happened to the entries. -/
theorem Accounted.of_same (a : d.Accounted) (hreceived : e.received = d.received)
    (hqueue : e.machine.scheduler.queue = d.machine.scheduler.queue)
    (hscheduled : e.machine.scheduler.scheduled = d.machine.scheduler.scheduled)
    (hcounts : e.machine.scheduler.dispatched + e.machine.scheduler.failures + e.machine.parked =
      d.machine.scheduler.dispatched + d.machine.scheduler.failures + d.machine.parked)
    (hhandovers : e.handovers = d.handovers) (hdropped : e.dropped = d.dropped)
    (hoffered : e.machine.offered = d.machine.offered)
    (hclock : d.machine.clock ≤ e.machine.clock)
    (hholds : ∀ t, d.machine.Holds (.submit t .dispatcher) →
      e.machine.Holds (.submit t .dispatcher)) : e.Accounted := by
  obtain ⟨held, hbalanced, hlength, hheld⟩ := a.ledger
  refine ⟨hqueue ▸ a.kept, ?_, ?_, ?_, held, ?_, hlength.trans hoffered.symm, fun x hx => ?_⟩
  · rw [hreceived, hqueue]
    exact a.numbers
  · rw [hscheduled, hqueue]
    exact a.scheduled
  · rw [hhandovers, hcounts]
    exact a.counts
  · unfold waiting
    rw [hreceived, hqueue, hdropped, hhandovers]
    exact hbalanced
  · exact ⟨(hheld x hx).1.trans hclock, hholds _ (hheld x hx).2⟩

/-- **What is offered to the loop is the entry that the dispatcher holds.** -/
theorem Accounted.held_of_offer (a : d.Accounted) (manned : d.machine.Manned) {t : TaskId}
    (h : d.machine.Holds (.submit t .dispatcher)) :
    d.machine.offered = 1 ∧ d.machine.parked = 0 ∧
      ∃ x, Balanced d.received [x] d.waiting d.dropped d.handovers ∧ x.task = t ∧
        x.deadline ≤ d.machine.clock := by
  have hpos : 0 < d.machine.offered := countP_work_pos h rfl
  have hfew := manned.few
  obtain ⟨held, hbalanced, hlength, hheld⟩ := a.ledger
  obtain ⟨x, rfl⟩ := List.length_eq_one_iff.mp (hlength.trans (by omega))
  obtain ⟨hdue, r, hr, hoffer⟩ := hheld x (List.mem_singleton_self x)
  refine ⟨by omega, by omega, x, hbalanced, ?_, hdue⟩
  -- both offers are before the one dispatcher, and it has nothing else to do
  obtain ⟨s, hs, hfirst⟩ := h
  obtain ⟨n, hn⟩ := List.mem_iff_getElem?.mp hs
  obtain ⟨hrole, hone⟩ := manned.handing s hs _ hfirst (Or.inl rfl)
  obtain ⟨hrole', hone'⟩ := manned.handing r hr _ hoffer (Or.inl rfl)
  rw [manned.strand_eq hn hrole hr hrole', hone] at hone'
  exact (Instr.submit.inj (List.cons.inj hone').1).1.symm

/-! ### Steps -/

/-- What is recorded when the strand `strand` carries out the instruction `i`, which leaves the code
`code`. -/
structure Records (d e : Docket α) (strand : Nat) (i : Instr α) (code : List (Instr α)) : Prop where
  received : e.received = d.received
  clock : d.machine.clock ≤ e.machine.clock
  handovers : e.handovers =
    d.handovers ++ (Event.handover? ⟨d.machine, e.machine, strand, i⟩).toList
  dropped : e.dropped = d.dropped ++ Event.dropped ⟨d.machine, e.machine, strand, i⟩
  offered : e.machine.offered + (if i.isOffer then 1 else 0) =
    d.machine.offered + code.countP Instr.isOffer
  parked : e.machine.parked + (if i.isParked then 1 else 0) =
    d.machine.parked + code.countP Instr.isParked
  holds : i.isOffer = false → ∀ t, d.machine.Holds (.submit t .dispatcher) →
    e.machine.Holds (.submit t .dispatcher)

theorem records_carried {s : Strand α} {i : Instr α} {rest code : List (Instr α)}
    {answer : Option (TaskResult Unit)} {added : List (Strand α)}
    (hreceived : e.received = d.received) (hclock : e.machine.clock = d.machine.clock)
    (hs : d.machine.strands[self]? = some s) (hcode : s.code = i :: rest)
    (hadded : ∀ a ∈ added, a.IsSetup) (hstrands : e.machine.strands =
      d.machine.strands.set self { s with code := code ++ rest, answer } ++ added)
    (hevents : e.events = d.events ++ [⟨d.machine, e.machine, self, i⟩]) :
    d.Records e self i code := by
  obtain ⟨hhandovers, hdropped, -⟩ := records_concat hevents
  refine ⟨hreceived, Nat.le_of_eq hclock.symm, hhandovers, hdropped,
    countP_work_carried Instr.isOffer (fun _ _ => rfl) hs hcode hadded hstrands,
    countP_work_carried Instr.isParked (fun _ _ => rfl) hs hcode hadded hstrands,
    fun hi t ht => ?_⟩
  obtain ⟨-, hkeeps, -⟩ := holds_carried hs hcode hadded hstrands
  refine (hkeeps _ ht).resolve_left fun heq => ?_
  subst heq
  cases hi

section Carried

variable {i : Instr α} {code : List (Instr α)} (a : d.Accounted) (r : d.Records e self i code)
include a r

/-- The instruction is neither an offer nor stops the scheduler: only the counters may change. -/
theorem Accounted.unrecorded (hi : i.isOffer = false)
    (hhandover : Event.handover? ⟨d.machine, e.machine, self, i⟩ = none)
    (hcloser : Event.closer? ⟨d.machine, e.machine, self, i⟩ = none)
    (hqueue : e.machine.scheduler.queue = d.machine.scheduler.queue)
    (hscheduled : e.machine.scheduler.scheduled = d.machine.scheduler.scheduled)
    (hcounts : e.machine.scheduler.dispatched + e.machine.scheduler.failures + e.machine.parked =
      d.machine.scheduler.dispatched + d.machine.scheduler.failures + d.machine.parked)
    (hcode : code.countP Instr.isOffer = 0) : e.Accounted := by
  refine a.of_same r.received hqueue hscheduled hcounts ?_ ?_ ?_ r.clock (r.holds hi)
  · rw [r.handovers, hhandover]
    exact List.append_nil _
  · rw [r.dropped, Event.dropped, hcloser]
    exact List.append_nil _
  · have hoffered := r.offered
    rw [hi, hcode] at hoffered
    exact hoffered

/-- The entry that the dispatcher holds is handed over. -/
theorem Accounted.offer {t : TaskId} (manned : d.machine.Manned) (hi : i = .submit t .dispatcher)
    (hholds : d.machine.Holds i) (hcode : code.countP Instr.isOffer = 0)
    (hqueue : e.machine.scheduler.queue = d.machine.scheduler.queue)
    (hscheduled : e.machine.scheduler.scheduled = d.machine.scheduler.scheduled)
    (hcounts : e.machine.scheduler.dispatched + e.machine.scheduler.failures +
        code.countP Instr.isParked =
      d.machine.scheduler.dispatched + d.machine.scheduler.failures + 1) :
    e.Accounted := by
  subst hi
  obtain ⟨hone, hnone, x, hbalanced, rfl, hdue⟩ := a.held_of_offer manned hholds
  have hoffered := r.offered
  have hparked := r.parked
  have hhandovers : e.handovers = d.handovers ++ [(x.task, d.machine.clock)] := r.handovers
  have hdropped : e.dropped = d.dropped := r.dropped.trans (List.append_nil _)
  refine ⟨hqueue ▸ a.kept, ?_, ?_, ?_, [], ?_, ?_, fun _ hx => absurd hx List.not_mem_nil⟩
  · rw [r.received, hqueue]
    exact a.numbers
  · rw [hscheduled, hqueue]
    exact a.scheduled
  · have hlength := a.counts
    simp only [Instr.isParked, Bool.false_eq_true, if_false] at hparked
    rw [hhandovers, List.length_append, List.length_singleton]
    omega
  · unfold waiting
    rw [r.received, hqueue, hdropped, hhandovers]
    exact hbalanced.hand hdue
  · simp only [Instr.isOffer, beq_self_eq_true, if_true] at hoffered
    rw [List.length_nil]
    omega

/-- The scheduler is stopped, and the entries that wait are dropped. -/
theorem Accounted.close (hi : i = .stopScheduler) (hphase : d.machine.scheduler.phase ≠ .stopped)
    (hcode : code.countP Instr.isOffer = 0) (hcode' : code.countP Instr.isParked = 0)
    (hscheduler : e.machine.scheduler = { d.machine.scheduler with
      phase := .stopped, queue := d.machine.scheduler.queue.drain.2 }) : e.Accounted := by
  subst hi
  obtain ⟨held, hbalanced, hlength, hheld⟩ := a.ledger
  have hoffered : e.machine.offered = _ := r.offered
  have hparked : e.machine.parked = _ := r.parked
  have hhandovers : e.handovers = d.handovers := r.handovers.trans (List.append_nil _)
  have hdropped : e.dropped = d.dropped ++ d.waiting := by
    rw [r.dropped, Event.dropped, Event.closer?]
    simp only [if_neg hphase, Option.isSome_some, if_true]
    rfl
  refine ⟨?_, ?_, ?_, ?_, held, ?_, ?_, fun x hx => ?_⟩
  · rw [hscheduler]
    exact DeadlineQueue.drain_kept _
  · rw [r.received, hscheduler]
    exact a.numbers
  · rw [hscheduler]
    exact a.scheduled
  · rw [hhandovers, hparked, hcode', hscheduler]
    exact a.counts
  · have hwaiting : e.waiting = [] := by
      unfold waiting
      rw [hscheduler]
      rfl
    rw [r.received, hwaiting, hdropped, hhandovers]
    exact hbalanced.drop
  · rw [hoffered, hcode]
    exact hlength
  · exact ⟨(hheld x hx).1.trans r.clock, r.holds rfl _ (hheld x hx).2⟩

/-- **Every instruction keeps the account.** -/
theorem Accounted.carried (manned : d.machine.Manned) (hholds : d.machine.Holds i)
    (heffect : SchedulerEffect d.machine self i code e.machine.scheduler) : e.Accounted := by
  have hparked := r.parked
  obtain ⟨hnone, -⟩ := heffect.countP_le
  generalize hscheduler : e.machine.scheduler = s at heffect
  cases heffect with
  | same hi hcode =>
    obtain ⟨hoffer, hpark, -⟩ := Instr.isScheduling_eq_false.mp hi
    obtain ⟨hhandover, hcloser⟩ := Event.aside (v := ⟨d.machine, e.machine, self, i⟩) hi
    refine a.unrecorded r hoffer hhandover hcloser (congrArg _ hscheduler) (congrArg _ hscheduler)
      ?_ hnone
    rw [hpark, (countP_of_all hcode).2] at hparked
    rw [hscheduler, show e.machine.parked = d.machine.parked from hparked]
  | offered =>
    refine a.offer r manned rfl hholds hnone (congrArg _ hscheduler) (congrArg _ hscheduler) ?_
    rw [hscheduler]
    rfl
  | @failed t error _ hi =>
    rcases hi with rfl | rfl
    · refine a.offer r manned rfl hholds hnone ?_ ?_ ?_
      all_goals rw [hscheduler]
      rfl
    · refine a.unrecorded r rfl rfl rfl ?_ ?_ ?_ hnone
      · rw [hscheduler]
      · rw [hscheduler]
      · rw [hscheduler]
        have hless : e.machine.parked + 1 = d.machine.parked := hparked
        dsimp only
        omega
  | dispatched =>
    refine a.unrecorded r rfl rfl rfl ?_ ?_ ?_ hnone
    · rw [hscheduler]
    · rw [hscheduler]
    · rw [hscheduler]
      have hless : e.machine.parked + 1 = d.machine.parked := hparked
      dsimp only
      omega
  | closed hphase =>
    refine a.close r rfl hphase hnone (List.countP_eq_zero.mpr fun j hj => ?_) hscheduler
    simp only [List.mem_append, List.mem_singleton, List.mem_map] at hj
    rcases hj with (rfl | ⟨x, -, rfl⟩) | rfl <;> exact Bool.false_ne_true
  | late hphase =>
    refine a.unrecorded r rfl rfl (if_pos hphase) (congrArg _ hscheduler) (congrArg _ hscheduler)
      ?_ hnone
    rw [hscheduler, show e.machine.parked = d.machine.parked from hparked]
  | joined =>
    refine a.unrecorded r rfl rfl rfl (congrArg _ hscheduler) (congrArg _ hscheduler) ?_ hnone
    rw [hscheduler, show e.machine.parked = d.machine.parked from hparked]

end Carried

/-- The dispatcher takes the entry that is due first. -/
theorem Accounted.took (a : d.Accounted) (manned : d.machine.Manned) {s : Strand α}
    {x : Scheduled TaskId} {queue : DeadlineQueue TaskId} (hreceived : e.received = d.received)
    (hclock : e.machine.clock = d.machine.clock) (hs : d.machine.strands[self]? = some s)
    (hrole : s.role = .dispatcher) (hcode : s.code = [])
    (hpop : d.machine.scheduler.queue.popDue d.machine.clock = some (x, queue))
    (hstrands : e.machine.strands = d.machine.strands.set self
      { s with code := [.submit x.task .dispatcher], exited := false })
    (hscheduler : e.machine.scheduler = { d.machine.scheduler with queue })
    (hevents : e.events = d.events) : e.Accounted := by
  obtain ⟨hdue, hkept, hperm, hpushed⟩ := a.kept.popDue_eq_some hpop
  obtain ⟨hoffered, hparked⟩ := manned.none_handed hs hrole hcode
  have hoffered' : e.machine.offered = d.machine.offered + 1 :=
    countP_work_found Instr.isOffer hs hcode hstrands
  have hparked' : e.machine.parked = d.machine.parked + 0 :=
    countP_work_found Instr.isParked hs hcode hstrands
  obtain ⟨-, hgains, -⟩ := holds_found hs hcode hstrands
  have hhandovers : e.handovers = d.handovers := congrArg (List.filterMap _) hevents
  have hdropped : e.dropped = d.dropped := congrArg (List.flatMap _) hevents
  -- it held nothing before
  obtain ⟨held, hbalanced, hlength, -⟩ := a.ledger
  obtain rfl := List.eq_nil_of_length_eq_zero (hlength.trans hoffered)
  refine ⟨?_, ?_, ?_, ?_, [x], ?_, ?_, ?_⟩
  · rw [hscheduler]
    exact hkept
  · rw [hreceived, hscheduler]
    exact a.numbers.trans (congrArg _ hpushed.symm)
  · rw [hscheduler]
    exact a.scheduled.trans hpushed.symm
  · rw [hhandovers, hparked', hscheduler]
    exact a.counts
  · unfold waiting
    rw [hreceived, hscheduler, hdropped, hhandovers]
    exact hbalanced.take hperm
  · rw [hoffered', hoffered]
    rfl
  · refine List.forall_mem_singleton.mpr ⟨hclock ▸ hdue, hgains _ (List.mem_singleton_self _)⟩

/-- **Every step keeps the account.** -/
theorem Accounted.turn (a : d.Accounted) (manned : d.machine.Manned)
    (h : d.turn heedStop self = some e) : e.Accounted := by
  obtain ⟨hturn, hreceived⟩ := turn_eq h
  obtain ⟨hshift, hclock⟩ := Chronicle.turn_shift hturn
  cases hshift with
  | carried hs _ hcode heffect hadded hstrands hevents =>
    exact a.carried (records_carried hreceived hclock hs hcode hadded hstrands hevents) manned
      ⟨_, List.mem_of_getElem? hs, hcode ▸ List.mem_cons_self⟩ heffect
  | found hs _ hcode hnew hstrands hscheduler hevents =>
    obtain ⟨hnone, hnone'⟩ := countP_of_all hnew
    have hoffered : e.machine.offered = d.machine.offered + _ :=
      countP_work_found Instr.isOffer hs hcode hstrands
    have hparked : e.machine.parked = d.machine.parked + _ :=
      countP_work_found Instr.isParked hs hcode hstrands
    obtain ⟨hkeeps, -⟩ := holds_found hs hcode hstrands
    refine a.of_same hreceived (congrArg _ hscheduler) (congrArg _ hscheduler) ?_
      (congrArg (List.filterMap _) hevents) (congrArg (List.flatMap _) hevents) ?_
      (Nat.le_of_eq hclock.symm) fun t => hkeeps _
    · rw [hscheduler, hparked, hnone', Nat.add_zero]
    · rw [hoffered, hnone, Nat.add_zero]
  | took hs hrole _ hcode hpop hstrands hscheduler hevents =>
    exact a.took manned hreceived hclock hs hrole hcode hpop hstrands hscheduler hevents

end Docket

/-! ### Runs -/

namespace Machine

variable {m m' : Machine α}

theorem Move.clock_le (h : m.Move m') : m.clock ≤ m'.clock := by
  cases h with
  | newTask => exact Nat.le_refl _
  | continueWith => exact Nat.le_refl _
  | call => exact Nat.le_refl _
  | addTimer =>
    unfold Machine.addTimer
    dsimp only
    split_ifs <;> exact Nat.le_refl _
  | startLoop => exact Nat.le_of_eq m.startLoop_eq.2.1.symm
  | startScheduler =>
    unfold Machine.startScheduler
    split_ifs
    · exact Nat.le_of_eq m.startLoop_eq.2.1.symm
    · exact Nat.le_refl _
  | schedule t priority deadline h =>
    obtain ⟨scheduler, rfl⟩ := schedule_eq h
    exact Nat.le_refl _
  | resolve t result h =>
    obtain ⟨promises, rfl⟩ := resolve?_eq h
    exact Nat.le_refl _
  | release =>
    obtain ⟨gate, hgate⟩ := m.release_eq
    rw [hgate]
  | handles => exact Nat.le_refl _
  | elapse micros => exact Nat.le_add_right _ _

/-- What starting the scheduler leaves as it is. -/
theorem startScheduler_eq (m : Machine α) :
    (∃ phase, m.startScheduler.scheduler = { m.scheduler with phase }) ∧
      ∃ new, m.startScheduler.strands = m.strands ++ new ∧ ∀ s ∈ new, s.code = [] := by
  unfold Machine.startScheduler
  split_ifs
  · refine ⟨⟨.running, ?_⟩, ?_⟩
    · dsimp only
      rw [m.startLoop_eq.1]
    · unfold Machine.startLoop
      split_ifs
      · refine ⟨_, List.append_assoc _ _ _, fun s hs => ?_⟩
        rcases List.mem_append.mp hs with hs | hs
        · exact (thread_begins hs).2.2
        · rw [List.mem_singleton.mp hs]
      · refine ⟨_, rfl, fun s hs => ?_⟩
        rw [List.mem_singleton.mp hs]
  · exact ⟨⟨_, rfl⟩, no_new _⟩

/-- Whether the dispatcher, if there is one, cannot go on at the moment. -/
def Rests (m : Machine α) : Prop :=
  ∀ self s, m.strands[self]? = some s → s.role = .dispatcher →
    ∀ heedStop, m.step heedStop self = none

theorem Rests.exec_eq_none {self : Nat} {s : Strand α} {i : Instr α} {rest : List (Instr α)}
    (h : m.Rests) (hs : m.strands[self]? = some s) (hrole : s.role = .dispatcher)
    (hexited : s.exited = false) (hcode : s.code = i :: rest) (heedStop : Bool) :
    m.exec heedStop self i = none := by
  have hstep := h self s hs hrole heedStop
  simpa [step, hs, hexited, hcode] using hstep

end Machine

namespace Docket

open Machine

variable {d e : Docket α} {config : LoopConfig} {workers : Nat}

theorem Accounted.submit (a : d.Accounted) (t : TaskId) (priority : Int) (deadline : Nat) :
    (d.submit t priority deadline).2.Accounted := by
  rcases d.submit_cases t priority deadline with ⟨-, hsubmit⟩ | ⟨-, hsubmit⟩
  · rw [hsubmit]
    obtain ⟨hkept, hperm⟩ := a.kept.push t priority deadline
    obtain ⟨held, hbalanced, hlength, hheld⟩ := a.ledger
    refine ⟨hkept, ?_, congrArg (· + 1) a.scheduled, a.counts, held, hbalanced.push hperm, hlength,
      hheld⟩
    dsimp only
    rw [List.map_append, a.numbers]
    exact List.range_succ.symm
  · rw [hsubmit]
    exact a

/-- Strands are added that offer nothing. -/
theorem Accounted.append (a : d.Accounted) {m : Machine α} {phase : LoopPhase}
    {new : List (Strand α)} (hscheduler : m.scheduler = { d.machine.scheduler with phase })
    (hclock : d.machine.clock ≤ m.clock) (hstrands : m.strands = d.machine.strands ++ new)
    (hnew : ∀ s ∈ new, ∀ j ∈ s.code, j.isOffer = false ∧ j.isParked = false) :
    Accounted { d with machine := m } := by
  have hparked := parked_append hstrands fun s hs j hj => (hnew s hs j hj).2
  refine a.of_same rfl ?_ ?_ ?_ rfl rfl
    (offered_append hstrands fun s hs j hj => (hnew s hs j hj).1) hclock fun t ht => ?_
  · rw [hscheduler]
  · rw [hscheduler]
  · rw [hscheduler, hparked]
  · obtain ⟨s, hs, hj⟩ := ht
    refine ⟨s, ?_, hj⟩
    rw [hstrands]
    exact List.mem_append_left _ hs

/-- **The entries of a scheduler are accounted for, whatever happens.** -/
theorem Reaches.accounted (h : (start config workers).Reaches d) : d.Accounted := by
  induction h with
  | refl => exact accounted_start config workers
  | turn hreach heedStop self hturn ih => exact ih.turn hreach.manned hturn
  | submit _ t priority deadline _ ih => exact ih.submit t priority deadline
  | @startScheduler e _ ih =>
    obtain ⟨⟨phase, hscheduler⟩, new, hstrands, hnew⟩ := e.machine.startScheduler_eq
    refine ih.append hscheduler Move.startScheduler.clock_le hstrands fun s hs j hj => ?_
    rw [hnew s hs] at hj
    exact absurd hj List.not_mem_nil
  | @aside e _ m haside ih =>
    obtain ⟨new, hstrands, hnew⟩ := haside.new_strands
    refine ih.append haside.scheduler haside.move.clock_le hstrands fun s hs j hj => ?_
    obtain ⟨hoffer, hparked, -⟩ := (hnew s hs).2.2 j hj
    exact ⟨hoffer, hparked⟩

/-- **At rest the counters add up**, but for a task that waits for room in the loop's queue. -/
theorem Reaches.balance_at_rest (h : (start config workers).Reaches d) (hrests : d.machine.Rests) :
    d.machine.scheduler.scheduled = d.machine.scheduler.dispatched + d.machine.scheduler.failures +
        d.waiting.length + d.dropped.length + d.machine.parked ∧
      d.machine.parked ≤ 1 ∧ (0 < d.machine.parked → d.machine.hasRoom = false) := by
  have a := h.accounted
  have manned := h.manned
  have stopping := h.chronicle.stopping
  -- what is handed over is all that the dispatcher has to do
  have hfirst : ∀ j : Instr α, d.machine.Holds j → j.isOffer = true ∨ j.isParked = true →
      ∃ n, ∀ heedStop, d.machine.exec heedStop n j = none := by
    rintro j ⟨s, hs, hj⟩ hhanding
    obtain ⟨hrole, hcode⟩ := manned.handing s hs j hj hhanding
    obtain ⟨n, hn⟩ := List.mem_iff_getElem?.mp hs
    have hexited : s.exited = false := by
      by_contra hleft
      rw [stopping.left n s hn (Bool.not_eq_false _ ▸ hleft)] at hcode
      cases hcode
    exact ⟨n, hrests.exec_eq_none hn hrole hexited hcode⟩
  have hoffered : d.machine.offered = 0 := by
    refine List.countP_eq_zero.mpr fun w hw hoffer => ?_
    obtain ⟨n, hnone⟩ := hfirst w.2 (holds_of_mem_work hw) (Or.inl hoffer)
    obtain ⟨t, ht⟩ := Instr.isOffer_iff.mp hoffer
    cases exec_waits (ht ▸ hnone true)
  have hroom : 0 < d.machine.parked → d.machine.hasRoom = false := by
    intro hpos
    obtain ⟨w, hw, hparked⟩ := List.countP_pos_iff.mp hpos
    obtain ⟨n, hnone⟩ := hfirst w.2 (holds_of_mem_work hw) (Or.inr hparked)
    obtain ⟨t, ht⟩ := Instr.isParked_iff.mp hparked
    cases exec_waits (ht ▸ hnone true) with
    | enqueue hroom => exact hroom
  obtain ⟨held, hbalanced, hlength, -⟩ := a.ledger
  have hreceived := congrArg List.length a.numbers
  rw [List.length_map, List.length_range] at hreceived
  have hlengths := hbalanced.length_eq
  have hcounts := a.counts
  have hscheduled := a.scheduled
  have hfew := manned.few
  exact ⟨by omega, by omega, hroom⟩

end Docket

end ManagedHost
