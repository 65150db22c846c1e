import ManagedHost.Proofs.Loop.Cancelling
import ManagedHost.Proofs.Schedule.Ledger

/-!
# Stopping the scheduler

A call of stop drops the entries that wait, waits for the dispatcher, cancels what was dropped, and
stops the loop.  `Docket.Closing` says where such a call can be; it is kept by every step
(`Closing.turn`).  `Docket.Minded` says that an accepted task that is pending is attended to, unless
an entry of it waits for its deadline.
-/

namespace ManagedHost

variable {α : Type}

namespace Machine

variable {m m' : Machine α} {t : TaskId} {self : Nat} {heedStop : Bool} {i : Instr α}
  {code : List (Instr α)}

/-! ### Tasks that have settled -/

theorem Governed.isTerminal_step (g : m.Governed) (h : m.step heedStop self = some m')
    (ht : (m.state t).isTerminal = true) : (m'.state t).isTerminal = true := by
  cases hc : m.tasks[t]? with
  | none =>
    simp only [state, hc] at ht
    cases ht
  | some c =>
    rw [(cell_eq hc).1] at ht
    obtain ⟨c', hc', -, hfinal⟩ := g.cell_step h hc
    rw [(cell_eq hc').1, (hfinal ht).1]
    exact ht

theorem Around.isTerminal (h : m.Around m') (ht : (m.state t).isTerminal = true) :
    (m'.state t).isTerminal = true := by
  cases hc : m.tasks[t]? with
  | none =>
    simp only [state, hc] at ht
    cases ht
  | some c =>
    rw [(cell_eq (h.beside.getElem?_tasks hc)).1, ← (cell_eq hc).1]
    exact ht

/-- Whether the dispatcher, if there is one, has left. -/
def Dismissed (m : Machine α) : Prop :=
  ∀ (k : Nat) (s : Strand α), m.strands[k]? = some s → s.role = .dispatcher → s.exited = true

theorem dismissed_of_othersAny {s : Strand α} (hs : m.strands[self]? = some s)
    (hrole : s.role ≠ .dispatcher)
    (h : m.othersAny self (fun s => s.role == .dispatcher && !s.exited) = false) :
    m.Dismissed := by
  intro k r hr hdispatcher
  have hk : k ≠ self := by
    rintro rfl
    obtain rfl := Option.some.inj (hs.symm.trans hr)
    exact hrole hdispatcher
  unfold othersAny at h
  have hnot := List.any_eq_false.mp h (r, k) (List.mem_zipIdx_iff_getElem?.mpr hr)
  simpa [hk, hdispatcher] using hnot

end Machine

namespace Chronicle

open Machine

variable {c d : Chronicle α} {heedStop : Bool} {self n : Nat}

/-- A dispatcher that has left does not come back. -/
theorem dismissed_turn (h : c.turn heedStop self = some d) (hleft : c.machine.Dismissed) :
    d.machine.Dismissed := by
  obtain ⟨s, s', added, hs, hexited, hrole', hadded, hstrands⟩ := (turn_shift h).1.strands
  intro k r hr hrole
  rcases strand_cases hstrands hr with ⟨rfl, rfl⟩ | ⟨-, hr⟩ | hr
  · have hgone := hleft k s hs (hrole'.symm.trans hrole)
    cases hexited.symm.trans hgone
  · exact hleft k r hr hrole
  · cases (hadded r hr).1.symm.trans hrole

/-- An entry that waits goes on waiting, is offered to the loop, or is cancelled. -/
theorem Shift.mem_entries (h : c.Shift self d) (kept : c.machine.scheduler.queue.Kept)
    {x : Scheduled TaskId} (hx : x ∈ c.machine.scheduler.queue.entries) :
    x ∈ d.machine.scheduler.queue.entries ∨ d.machine.Attends x.task := by
  cases h with
  | carried hs _ hcode heffect hadded hstrands =>
    obtain ⟨-, -, hgains, -⟩ := holds_carried hs hcode hadded hstrands
    generalize d.machine.scheduler = s at heffect ⊢
    cases heffect with
    | closed =>
      refine Or.inr (.of_holds (hgains (.cancel x.task) ?_) rfl)
      refine List.mem_append_left _ (List.mem_append_right _ ?_)
      exact List.mem_map.mpr ⟨x, hx, rfl⟩
    | _ => exact Or.inl hx
  | found _ _ _ _ _ hscheduler => exact Or.inl (hscheduler ▸ hx)
  | @took s e queue hs _ _ hcode hpop hstrands hscheduler =>
    obtain ⟨-, hgains, -⟩ := holds_found hs hcode hstrands
    obtain ⟨-, -, hperm, -⟩ := kept.popDue_eq_some hpop
    rcases List.mem_cons.mp (hperm.mem_iff.mp hx) with rfl | hx
    · exact Or.inr (.of_holds (hgains _ (List.mem_singleton_self _)) ⟨rfl, Submitter.noConfusion⟩)
    · rw [hscheduler]
      exact Or.inl hx

end Chronicle

namespace Docket

open Machine

variable {d e : Docket α} {heedStop : Bool} {self n : Nat} {config : LoopConfig} {workers : Nat}

/-! ### Accepted tasks that are pending -/

/-- **Who looks after the tasks that the scheduler accepted**, while they are pending. -/
structure Minded (d : Docket α) : Prop where
  there : ∀ x ∈ d.received, x.task < d.machine.tasks.length
  pending : ∀ x ∈ d.received, d.machine.state x.task = .pending →
    d.machine.Attends x.task ∨ x ∈ d.waiting

theorem Minded.turn (minded : d.Minded) (a : d.Accounted) (g : d.machine.Governed)
    (h : d.turn heedStop self = some e) : e.Minded := by
  obtain ⟨hturn, hreceived⟩ := turn_eq h
  have hstep := Chronicle.turn_step hturn
  have hlength := (step_tasks hstep).1
  refine ⟨fun x hx => ?_, fun x hx hpending' => ?_⟩
  · rw [hreceived] at hx
    exact (minded.there x hx).trans_le hlength
  · rw [hreceived] at hx
    obtain ⟨hpending, hstill⟩ := g.attends_step hstep (minded.there x hx) hpending'
    rcases minded.pending x hx hpending with hattends | hwaits
    · exact Or.inl (hstill hattends)
    · exact ((Chronicle.turn_shift hturn).1.mem_entries a.kept hwaits).symm

theorem Minded.around (minded : d.Minded) {m : Machine α} (h : d.machine.Around m)
    (hwaiting : ∀ x ∈ d.waiting, x ∈ m.scheduler.queue.entries) :
    Minded { d with machine := m } := by
  refine ⟨fun x hx => (minded.there x hx).trans_le h.length_le, fun x hx hpending' => ?_⟩
  have hcell := List.getElem?_eq_getElem (minded.there x hx)
  have hpending : d.machine.state x.task = .pending := by
    rw [← hpending', (cell_eq hcell).1]
    exact (cell_eq (h.beside.getElem?_tasks hcell)).1.symm
  exact (minded.pending x hx hpending).imp (·.around h) (hwaiting x)

theorem Minded.submit (minded : d.Minded) (a : d.Accounted) {t : TaskId} (priority : Int)
    (deadline : Nat) (ht : t < d.machine.tasks.length) :
    (d.submit t priority deadline).2.Minded := by
  rcases d.submit_cases t priority deadline with ⟨-, hsubmit⟩ | ⟨-, hsubmit⟩
  · rw [hsubmit]
    have hperm := (a.kept.push t priority deadline).2
    refine ⟨?_, ?_⟩
    · exact List.forall_mem_append.mpr ⟨minded.there, List.forall_mem_singleton.mpr ht⟩
    · refine List.forall_mem_append.mpr ⟨fun x hx hpending => ?_, ?_⟩
      · refine (minded.pending x hx hpending).imp_right fun hx => ?_
        exact hperm.mem_iff.mpr (List.mem_cons_of_mem _ hx)
      · exact List.forall_mem_singleton.mpr fun _ => Or.inr (hperm.mem_iff.mpr List.mem_cons_self)
  · rw [hsubmit]
    exact minded

/-- **No accepted task is forgotten.** -/
theorem Reaches.minded (h : (start config workers).Reaches d) : d.Minded := by
  induction h with
  | refl => exact ⟨fun _ hx => absurd hx List.not_mem_nil, fun _ hx => absurd hx List.not_mem_nil⟩
  | turn hreach heedStop self hturn ih =>
    exact ih.turn hreach.accounted hreach.chronicle.governed hturn
  | submit hreach t priority deadline ht ih => exact ih.submit hreach.accounted priority deadline ht
  | @startScheduler e _ ih =>
    obtain ⟨⟨phase, hscheduler⟩, -⟩ := e.machine.startScheduler_eq
    refine ih.around (around_startScheduler _) fun x hx => ?_
    rw [hscheduler]
    exact hx
  | aside _ haside ih =>
    refine ih.around haside.move.around fun x hx => ?_
    rw [haside.scheduler]
    exact hx

/-! ### The call of stop -/

/-- What a step is that stops the scheduler. -/
structure Closes (d e : Docket α) (strand : Nat) : Prop where
  before : d.machine.scheduler.phase ≠ .stopped
  after : e.machine.scheduler.phase = .stopped
  waiting : e.waiting = []
  closers : e.closers = d.closers ++ [strand]
  dropped : e.dropped = d.dropped ++ d.waiting
  /-- The call goes on with waiting for the dispatcher, cancelling what was dropped and stopping the
  loop. -/
  call : ∃ s r, d.machine.strands[strand]? = some s ∧ .stopScheduler ∈ s.code ∧
    e.machine.strands[strand]? = some r ∧ r.role = s.role ∧ .joinDispatcher ∈ r.code ∧
    .stopLoop ∈ r.code ∧ ∀ x ∈ d.waiting, .cancel x.task ∈ r.code

/-- A step stops the scheduler, or leaves it as it is in this respect. -/
theorem closes_or (a : d.Accounted) (h : d.turn heedStop self = some e) :
    d.Closes e self ∨ e.machine.scheduler.phase = d.machine.scheduler.phase ∧
      (d.waiting = [] → e.waiting = []) ∧ e.closers = d.closers ∧ e.dropped = d.dropped := by
  obtain ⟨hturn, -⟩ := turn_eq h
  cases (Chronicle.turn_shift hturn).1 with
  | @carried s i rest code answer added hs _ hcode heffect hadded hstrands hevents =>
    obtain ⟨-, hdropped, hclosers⟩ := records_concat hevents
    -- unless it is the call that stops the scheduler, nothing is recorded
    have hnone : Event.closer? ⟨d.machine, e.machine, self, i⟩ = none →
        e.closers = d.closers ∧ e.dropped = d.dropped := by
      intro hcloser
      rw [hclosers, hdropped, Event.dropped, hcloser]
      exact ⟨List.append_nil _, List.append_nil _⟩
    have hself := strand_self hs hstrands
    unfold waiting
    generalize hscheduler : e.machine.scheduler = s' at heffect
    cases heffect with
    | closed hphase =>
      have hcloser : Event.closer? ⟨d.machine, e.machine, self, .stopScheduler⟩ = some self :=
        if_neg hphase
      refine Or.inl ⟨hphase, congrArg Scheduler.phase hscheduler, ?_, ?_, ?_, s, _, hs,
        hcode ▸ List.mem_cons_self, hself, rfl, ?_, ?_, fun x hx => ?_⟩
      · unfold waiting
        rw [hscheduler]
        rfl
      · rw [hclosers, hcloser]
        rfl
      · rw [hdropped, Event.dropped, hcloser]
        rfl
      · exact List.mem_cons_self
      · refine List.mem_append_left _ (List.mem_append_right _ (List.mem_singleton_self _))
      · refine List.mem_append_left _ (List.mem_append_left _ (List.mem_append_right _ ?_))
        exact List.mem_map.mpr ⟨x, hx, rfl⟩
    | same hi => exact Or.inr ⟨rfl, id, hnone (Event.aside hi).2⟩
    | late hphase => exact Or.inr ⟨rfl, id, hnone (if_pos hphase)⟩
    | failed hi =>
      refine Or.inr ⟨rfl, id, hnone ?_⟩
      rcases hi with rfl | rfl <;> rfl
    | _ => exact Or.inr ⟨rfl, id, hnone rfl⟩
  | found _ _ _ _ _ hscheduler hevents =>
    unfold waiting
    rw [hscheduler]
    exact Or.inr ⟨rfl, id, congrArg (List.filterMap _) hevents,
      congrArg (List.flatMap _) hevents⟩
  | took _ _ _ _ hpop _ hscheduler hevents =>
    have hperm := (a.kept.popDue_eq_some hpop).2.2.1
    unfold waiting
    refine Or.inr ⟨?_, fun hnil => ?_, congrArg (List.filterMap _) hevents,
      congrArg (List.flatMap _) hevents⟩
    · rw [hscheduler]
    · rw [hnil] at hperm
      exact absurd hperm.symm List.not_perm_cons_nil

/-- **Where the call is that stops the scheduler.** -/
structure Closing (d : Docket α) : Prop where
  unclosed : d.machine.scheduler.phase ≠ .stopped → d.closers = [] ∧ d.dropped = []
  empty : d.machine.scheduler.phase = .stopped → d.waiting = []
  /-- What was dropped is cancelled. -/
  cancelling : ∀ n ∈ d.closers, ∀ x ∈ d.dropped, (d.machine.state x.task).isTerminal = true ∨
    ∃ s, d.machine.strands[n]? = some s ∧ ∃ j ∈ s.code, j.Cancels x.task
  /-- The call waits for the dispatcher. -/
  joining : ∀ n ∈ d.closers, ∃ s, d.machine.strands[n]? = some s ∧ s.role = .caller ∧
    (.joinDispatcher ∈ s.code ∨ d.machine.Dismissed)
  /-- The call stops the loop, if the scheduler was ever started. -/
  stopping : ∀ n ∈ d.closers, ∃ s, d.machine.strands[n]? = some s ∧
    (.stopLoop ∈ s.code ∨ .markStopped ∈ s.code ∧ d.machine.loop.phase ≠ .idle ∨
      d.machine.loop.phase = .stopped ∨ d.machine.Unmanned)

theorem closing_start (config : LoopConfig) (workers : Nat) :
    (start config workers : Docket α).Closing where
  unclosed := fun _ => ⟨rfl, rfl⟩
  empty := fun _ => rfl
  cancelling := fun _ hn => absurd hn List.not_mem_nil
  joining := fun _ hn => absurd hn List.not_mem_nil
  stopping := fun _ hn => absurd hn List.not_mem_nil

section Turn

variable (c : d.Closing) (a : d.Accounted) (h : d.turn heedStop self = some e)
include c a h

theorem Closing.unclosed_turn :
    (e.machine.scheduler.phase ≠ .stopped → e.closers = [] ∧ e.dropped = []) ∧
      (e.machine.scheduler.phase = .stopped → e.waiting = []) := by
  rcases closes_or a h with closes | ⟨hphase, hwaiting, hclosers, hdropped⟩
  · exact ⟨fun hopen => absurd closes.after hopen, fun _ => closes.waiting⟩
  · rw [hphase, hclosers, hdropped]
    exact ⟨c.unclosed, fun hstopped => hwaiting (c.empty hstopped)⟩

theorem Closing.cancelling_turn (g : d.machine.Governed) :
    ∀ n ∈ e.closers, ∀ x ∈ e.dropped, (e.machine.state x.task).isTerminal = true ∨
      ∃ s, e.machine.strands[n]? = some s ∧ ∃ j ∈ s.code, j.Cancels x.task := by
  intro n hn x hx
  obtain ⟨hturn, -⟩ := turn_eq h
  rcases closes_or a h with closes | ⟨-, -, hclosers, hdropped⟩
  · -- nothing was dropped before
    obtain ⟨hnone, hnone'⟩ := c.unclosed closes.before
    rw [closes.closers, hnone, List.nil_append, List.mem_singleton] at hn
    rw [closes.dropped, hnone', List.nil_append] at hx
    obtain ⟨s, r, -, -, hr, -, -, -, hcancels⟩ := closes.call
    exact Or.inr ⟨r, hn ▸ hr, .cancel x.task, hcancels x hx, rfl⟩
  · rw [hclosers] at hn
    rw [hdropped] at hx
    rcases c.cancelling n hn x hx with hterminal | ⟨s, hs, j, hj, hcancels⟩
    · exact Or.inl (g.isTerminal_step (Chronicle.turn_step hturn) hterminal)
    · obtain ⟨s', hs', -, hcode⟩ := Chronicle.strand_turn hturn hs
      rcases hcode j hj with hj | ⟨-, m₁, code, hexec, hleft, htasks, -⟩
      · exact Or.inr ⟨s', hs', j, hj, hcancels⟩
      · rcases exec_cancels hcancels hexec with hterminal | ⟨k, more, rfl, hcancels'⟩
        · refine Or.inl ?_
          unfold state at hterminal ⊢
          rwa [← htasks]
        · exact Or.inr ⟨s', hs', k, hleft k List.mem_cons_self, hcancels'⟩

theorem Closing.joining_turn (manned : d.machine.Manned) :
    ∀ n ∈ e.closers, ∃ s, e.machine.strands[n]? = some s ∧ s.role = .caller ∧
      (.joinDispatcher ∈ s.code ∨ e.machine.Dismissed) := by
  intro n hn
  obtain ⟨hturn, -⟩ := turn_eq h
  rcases closes_or a h with closes | ⟨-, -, hclosers, -⟩
  · rw [closes.closers, (c.unclosed closes.before).1, List.nil_append, List.mem_singleton] at hn
    obtain ⟨s, r, hs, hstop, hr, hrole, hjoin, -⟩ := closes.call
    have hcaller := manned.closing s (List.mem_of_getElem? hs) _ hstop rfl
    exact ⟨r, hn ▸ hr, hrole.trans hcaller, Or.inl hjoin⟩
  · rw [hclosers] at hn
    obtain ⟨s, hs, hcaller, hjoin⟩ := c.joining n hn
    obtain ⟨s', hs', hrole, hcode⟩ := Chronicle.strand_turn hturn hs
    refine ⟨s', hs', hrole.trans hcaller, ?_⟩
    rcases hjoin with hjoin | hleft
    · rcases hcode _ hjoin with hjoin | ⟨rfl, m₁, code, hexec, -⟩
      · exact Or.inl hjoin
      · refine Or.inr (Chronicle.dismissed_turn hturn (dismissed_of_othersAny hs ?_ ?_))
        · rw [hcaller]
          exact Role.noConfusion
        · cases exec_ruled hexec with
          | joinDispatcher hothers => exact hothers
    · exact Or.inr (Chronicle.dismissed_turn hturn hleft)

theorem Closing.stopping_turn (manned : d.machine.Manned) :
    ∀ n ∈ e.closers, ∃ s, e.machine.strands[n]? = some s ∧
      (.stopLoop ∈ s.code ∨ .markStopped ∈ s.code ∧ e.machine.loop.phase ≠ .idle ∨
        e.machine.loop.phase = .stopped ∨ e.machine.Unmanned) := by
  intro n hn
  obtain ⟨hturn, -⟩ := turn_eq h
  rcases closes_or a h with closes | ⟨-, -, hclosers, -⟩
  · rw [closes.closers, (c.unclosed closes.before).1, List.nil_append, List.mem_singleton] at hn
    obtain ⟨s, r, -, -, hr, -, -, hstop, -⟩ := closes.call
    exact ⟨r, hn ▸ hr, Or.inl hstop⟩
  · rw [hclosers] at hn
    obtain ⟨s, hs, hstage⟩ := c.stopping n hn
    obtain ⟨s', hs', -, hcode⟩ := Chronicle.strand_turn hturn hs
    refine ⟨s', hs', ?_⟩
    obtain ⟨hstarted, hstopped⟩ := Chronicle.loop_turn hturn
    rcases hstage with hstop | ⟨hmark, hphase⟩ | hphase | hnone
    · rcases hcode _ hstop with hstop | ⟨-, m₁, code, hexec, hleft, -, -⟩
      · exact Or.inl hstop
      · by_cases hidle : d.machine.loop.phase = .idle
        · -- the scheduler was never started
          have hnone : d.machine.Unmanned := fun r hr hrole => manned.loop r hr hrole hidle
          exact Or.inr (Or.inr (Or.inr ((Chronicle.unmanned_turn hturn).mpr hnone)))
        · rcases exec_stopLoop hexec hidle with hmark | hphase
          · exact Or.inr (Or.inl ⟨hleft _ hmark, hstarted hidle⟩)
          · exact Or.inr (Or.inr (Or.inl (hstopped hphase)))
    · rcases hcode _ hmark with hmark | ⟨-, m₁, code, hexec, -, -, hloop⟩
      · exact Or.inr (Or.inl ⟨hmark, hstarted hphase⟩)
      · refine Or.inr (Or.inr (Or.inl ?_))
        rw [← hloop]
        exact exec_markStopped hexec hphase
    · exact Or.inr (Or.inr (Or.inl (hstopped hphase)))
    · exact Or.inr (Or.inr (Or.inr ((Chronicle.unmanned_turn hturn).mpr hnone)))

end Turn

/-- **Every step keeps what is known about the call of stop.** -/
theorem Closing.turn (c : d.Closing) (a : d.Accounted) (manned : d.machine.Manned)
    (g : d.machine.Governed) (h : d.turn heedStop self = some e) : e.Closing :=
  ⟨(c.unclosed_turn a h).1, (c.unclosed_turn a h).2, c.cancelling_turn a h g,
    c.joining_turn a h manned, c.stopping_turn a h manned⟩

/-- A scheduler that has not been stopped. -/
theorem closing_of_unclosed (hphase : d.machine.scheduler.phase ≠ .stopped)
    (hnone : d.closers = [] ∧ d.dropped = []) : d.Closing := by
  have hvacuous : ∀ n, n ∉ d.closers := fun n hn => by
    rw [hnone.1] at hn
    exact absurd hn List.not_mem_nil
  exact ⟨fun _ => hnone, fun hstopped => absurd hstopped hphase,
    fun n hn => absurd hn (hvacuous n), fun n hn => absurd hn (hvacuous n),
    fun n hn => absurd hn (hvacuous n)⟩

theorem Closing.aside (c : d.Closing) {m : Machine α} (haside : d.machine.Aside m) :
    Closing { d with machine := m } := by
  have haround := haside.move.around
  obtain ⟨new, hstrands, hnew⟩ := haside.new_strands
  have hkeeps : ∀ {n : Nat} {s : Strand α}, d.machine.strands[n]? = some s →
      m.strands[n]? = some s := by
    intro n s hs
    rw [hstrands, List.getElem?_append_left (List.getElem?_eq_some_iff.mp hs).1]
    exact hs
  have hold : ∀ (k : Nat) (r : Strand α), m.strands[k]? = some r → r.role = .dispatcher →
      d.machine.strands[k]? = some r := fun k r =>
    dispatcher_append hstrands fun s hs => (hnew s hs).1
  refine
    { unclosed := ?unclosed, empty := ?empty, cancelling := fun n hn x hx => ?cancelling,
      joining := fun n hn => ?joining, stopping := fun n hn => ?stopping }
  case unclosed =>
    dsimp only
    rw [haside.scheduler]
    exact c.unclosed
  case empty =>
    unfold waiting
    dsimp only
    rw [haside.scheduler]
    exact c.empty
  case cancelling =>
    refine (c.cancelling n hn x hx).imp haround.isTerminal ?_
    rintro ⟨s, hs, hcancels⟩
    exact ⟨s, hkeeps hs, hcancels⟩
  case joining =>
    obtain ⟨s, hs, hcaller, hjoin⟩ := c.joining n hn
    refine ⟨s, hkeeps hs, hcaller, hjoin.imp_right fun hleft k r hr hrole => ?_⟩
    exact hleft k r (hold k r hr hrole) hrole
  case stopping =>
    obtain ⟨s, hs, hstage⟩ := c.stopping n hn
    refine ⟨s, hkeeps hs, ?_⟩
    rcases hstage with hstop | ⟨hmark, hphase⟩ | hphase | hnone
    · exact Or.inl hstop
    · exact Or.inr (Or.inl ⟨hmark, haround.started hphase⟩)
    · refine Or.inr (Or.inr (Or.inl ?_))
      rcases haround.loop.phase with hsame | ⟨hidle, -⟩
      · exact hsame.trans hphase
      · cases hidle.symm.trans hphase
    · refine Or.inr (Or.inr (Or.inr fun r hr hrole => ?_))
      obtain ⟨k, hk⟩ := List.mem_iff_getElem?.mp hr
      exact hnone r (List.mem_of_getElem? (hold k r hk hrole)) hrole

theorem Closing.startScheduler (c : d.Closing) : (d.act Machine.startScheduler).Closing := by
  by_cases hidle : d.machine.scheduler.phase = .idle
  · have hopen : d.machine.scheduler.phase ≠ .stopped := by
      rw [hidle]
      exact LoopPhase.noConfusion
    refine closing_of_unclosed ?_ (c.unclosed hopen)
    unfold act Machine.startScheduler
    rw [if_pos hidle]
    exact LoopPhase.noConfusion
  · have hsame : d.act Machine.startScheduler = d := by
      unfold act Machine.startScheduler
      rw [if_neg hidle]
    rw [hsame]
    exact c

theorem Closing.submit (c : d.Closing) (t : TaskId) (priority : Int) (deadline : Nat) :
    (d.submit t priority deadline).2.Closing := by
  rcases d.submit_cases t priority deadline with ⟨hopen, hsubmit⟩ | ⟨-, hsubmit⟩
  · rw [hsubmit]
    exact closing_of_unclosed hopen (c.unclosed hopen)
  · rw [hsubmit]
    exact c

theorem Reaches.closing (h : (start config workers).Reaches d) : d.Closing := by
  induction h with
  | refl => exact closing_start config workers
  | turn hreach heedStop self hturn ih =>
    exact ih.turn hreach.accounted hreach.manned hreach.chronicle.governed hturn
  | submit _ t priority deadline _ ih => exact ih.submit t priority deadline
  | startScheduler _ ih => exact ih.startScheduler
  | aside _ haside ih => exact ih.aside haside

end Docket

end ManagedHost
