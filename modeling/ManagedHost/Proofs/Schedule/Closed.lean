import ManagedHost.Proofs.Schedule.Closing

/-!
# What a scheduler does with its entries

The main result is `Docket.Reaches.entries_accounted_for`, about all runs of a scheduler: what it
accepts is handed to the loop once and in due time, the counters add up, and a call of stop leaves
nothing that waits.  When the call that stops the scheduler has returned, the accepted tasks are
settled, unless somebody else is not done (`Docket.Unfinished`).  There is such an exception: the
loop may be in the course of being stopped by somebody else, and a second call of stop does not wait
for the first (`stop_leaves_running`).
-/

namespace ManagedHost

variable {α : Type}

/-- Only an offer is a hand-over. -/
theorem Event.isOffer_of_handover? {v : Event α} {x : TaskId × Nat} (h : v.handover? = some x) :
    v.instr.isOffer = true := by
  unfold handover? at h
  split at h
  · next t who hinstr =>
    split_ifs at h with hwho
    rw [hinstr, hwho]
    rfl
  · cases h

namespace Docket

open Machine

variable {d e : Docket α} {heedStop : Bool} {self n : Nat} {config : LoopConfig} {workers : Nat}
  {s : Strand α} {t : TaskId}

/-- **Whether somebody other than `n` is not done**: who stopped the loop waits for its threads or
is about to empty it, or a caller, or the thread that stopped the loop, is in the middle of a call
on the task. -/
def Unfinished (d : Docket α) (n : Nat) (t : TaskId) : Prop :=
  ∃ k s, k ≠ n ∧ d.machine.strands[k]? = some s ∧
    (k ∈ d.stoppers ∧ (.joinThreads ∈ s.code ∨ .sweepLoop ∈ s.code) ∨
      (s.role = .caller ∨ k ∈ d.stoppers) ∧ ∃ j ∈ s.code, j.Bears t ∨ j.Carries t)

/-! ### When the call of stop has returned -/

/-- Where there is no dispatcher, nothing was handed over. -/
theorem Reaches.handovers_eq_nil (h : (start config workers).Reaches d)
    (hnone : d.machine.Unmanned) : d.handovers = [] := by
  induction h with
  | refl => rfl
  | @turn d e hreach heedStop self hturn ih =>
    obtain ⟨hturn, -⟩ := turn_eq hturn
    have hbefore := (Chronicle.unmanned_turn hturn).mp hnone
    cases Chronicle.turn_turn hturn with
    | @carried s i rest code m₁ answer added hs _ hcode _ _ _ hevents =>
      rw [(records_concat hevents).1, ih hbefore, List.nil_append]
      cases hhandover : Event.handover? ⟨d.machine, e.machine, self, i⟩ with
      | none => rfl
      | some x =>
        have hs := List.mem_of_getElem? hs
        obtain ⟨hrole, -⟩ := hreach.manned.handing s hs i (hcode ▸ List.mem_cons_self)
          (Or.inl (Event.isOffer_of_handover? hhandover))
        exact absurd hrole (hbefore s hs)
    | found _ _ _ _ _ _ hevents => exact (congrArg (List.filterMap _) hevents).trans (ih hbefore)
  | @submit d _ t priority deadline _ ih =>
    rcases d.submit_cases t priority deadline with ⟨-, hsubmit⟩ | ⟨-, hsubmit⟩
    · rw [hsubmit] at hnone ⊢
      exact ih hnone
    · rw [hsubmit] at hnone ⊢
      exact ih hnone
  | @startScheduler d _ ih =>
    obtain ⟨-, new, hstrands, -⟩ := d.machine.startScheduler_eq
    exact ih (hnone.of_append hstrands)
  | @aside d _ m haside ih =>
    obtain ⟨new, hstrands, -⟩ := haside.new_strands
    exact ih (hnone.of_append hstrands)

/-- Where there is no dispatcher and nothing waits, what was accepted has been dropped. -/
theorem Reaches.mem_dropped_of_unmanned (h : (start config workers).Reaches d)
    (hnone : d.machine.Unmanned) (hwaiting : d.waiting = []) {x : Scheduled TaskId}
    (hx : x ∈ d.received) : x ∈ d.dropped := by
  obtain ⟨held, ⟨served, hperm, hserved⟩, -, hheld⟩ := h.accounted.ledger
  have hlength := hserved.length_eq
  rw [h.handovers_eq_nil hnone, List.length_nil] at hlength
  rw [List.eq_nil_of_length_eq_zero hlength, hwaiting, List.nil_append, List.append_nil] at hperm
  rcases List.mem_append.mp (hperm.mem_iff.mp hx) with hx | hx
  · obtain ⟨-, r, hr, hj⟩ := hheld x hx
    exact absurd (h.manned.handing r hr _ hj (Or.inl rfl)).1 (hnone r hr)
  · exact hx

section Closed

variable (h : (start config workers).Reaches d) (hn : n ∈ d.closers)
  (hs : d.machine.strands[n]? = some s) (hdone : s.code = [])
include h hn hs hdone

/-- What was dropped is settled. -/
theorem Reaches.dropped_settled {x : Scheduled TaskId} (hx : x ∈ d.dropped) :
    (d.machine.state x.task).isTerminal = true := by
  refine (h.closing.cancelling n hn x hx).resolve_right ?_
  rintro ⟨s', hs', j, hj, -⟩
  obtain rfl := Option.some.inj (hs.symm.trans hs')
  rw [hdone] at hj
  exact absurd hj List.not_mem_nil

/-- The dispatcher has left, and if there was one, the loop has been stopped. -/
theorem Reaches.loop_stopped : d.machine.Dismissed ∧
    (d.machine.loop.phase = .stopped ∨ d.machine.Unmanned) := by
  have hnot : ∀ j, j ∉ s.code := fun j hj => by
    rw [hdone] at hj
    exact absurd hj List.not_mem_nil
  constructor
  · obtain ⟨s', hs', -, hjoin⟩ := h.closing.joining n hn
    obtain rfl := Option.some.inj (hs.symm.trans hs')
    exact hjoin.resolve_left (hnot _)
  · obtain ⟨s', hs', hstage⟩ := h.closing.stopping n hn
    obtain rfl := Option.some.inj (hs.symm.trans hs')
    rcases hstage with hstop | ⟨hmark, -⟩ | hstage
    · exact absurd hstop (hnot _)
    · exact absurd hmark (hnot _)
    · exact hstage

/-- Once the loop is empty, what is before a strand is before a caller or who stopped the loop. -/
theorem Reaches.unfinished_of_holds {k : Nat} (hk : k ∈ d.stoppers) (hempty : d.machine.Emptied k)
    {j : Instr α} (hj : d.machine.Holds j) (hconcerns : j.Bears t ∨ j.Carries t) :
    d.Unfinished n t := by
  have stopping := h.chronicle.stopping
  obtain ⟨r, hr, hj⟩ := hj
  obtain ⟨k', hk'⟩ := List.mem_iff_getElem?.mp hr
  -- who has left has nothing to do
  have hstays : r.exited ≠ true := fun hexited => by
    rw [stopping.left k' r hk' hexited] at hj
    exact absurd hj List.not_mem_nil
  have hne : k' ≠ n := by
    rintro rfl
    obtain rfl := Option.some.inj (hs.symm.trans hk')
    rw [hdone] at hj
    exact absurd hj List.not_mem_nil
  refine ⟨k', r, hne, hk', Or.inr ⟨?_, j, hj, hconcerns⟩⟩
  by_cases hself : k' = k
  · exact Or.inr (hself ▸ hk)
  · have hloop : ¬ r.role.IsLoop := fun hloop => hstays (hempty.threads k' r hk' hself hloop)
    have hdispatcher : r.role ≠ .dispatcher := fun hrole =>
      hstays ((h.loop_stopped hn hs hdone).1 k' r hk' hrole)
    cases hrole : r.role with
    | caller => exact Or.inl rfl
    | dispatcher => exact absurd hrole hdispatcher
    | _ =>
      rw [hrole] at hloop
      exact absurd trivial hloop

/-- Once the loop is empty, an accepted task is settled, or somebody is at it. -/
theorem Reaches.settled_of_emptied {k : Nat} (hk : k ∈ d.stoppers) (hempty : d.machine.Emptied k)
    (hwaiting : d.waiting = []) {x : Scheduled TaskId} (hx : x ∈ d.received) :
    (d.machine.state x.task).isTerminal = true ∨ d.Unfinished n x.task := by
  have hcell := List.getElem?_eq_getElem (h.minded.there x hx)
  cases hstate : d.machine.state x.task with
  | pending =>
    refine Or.inr ?_
    rcases h.minded.pending x hx hstate with (hqueue | hmicrotask | ⟨j, hj, hcarries⟩) | hwaits
    · rw [hempty.queue] at hqueue
      exact absurd hqueue List.not_mem_nil
    · rw [hempty.microtasks] at hmicrotask
      exact absurd hmicrotask List.not_mem_nil
    · exact h.unfinished_of_holds hn hs hdone hk hempty hj (Or.inr hcarries)
    · rw [hwaiting] at hwaits
      exact absurd hwaits List.not_mem_nil
  | running =>
    have hrunning := (cell_eq hcell).1.symm.trans hstate
    obtain ⟨j, hj, hbears⟩ := h.chronicle.attended.bodies x.task _ hcell hrunning
    exact Or.inr (h.unfinished_of_holds hn hs hdone hk hempty hj (Or.inl hbears))
  | completed => exact Or.inl rfl
  | failed => exact Or.inl rfl
  | cancelled => exact Or.inl rfl

/-- **The accepted tasks are settled**, unless somebody else is not done. -/
theorem Reaches.received_settled {x : Scheduled TaskId} (hx : x ∈ d.received) :
    (d.machine.state x.task).isTerminal = true ∨ d.Unfinished n x.task := by
  have hphase : d.machine.scheduler.phase = .stopped := by
    by_contra hopen
    rw [(h.closing.unclosed hopen).1] at hn
    exact absurd hn List.not_mem_nil
  have hwaiting := h.closing.empty hphase
  by_cases hdropped : x ∈ d.dropped
  · exact Or.inl (h.dropped_settled hn hs hdone hdropped)
  have hmanned : ¬ d.machine.Unmanned := fun hnone =>
    hdropped (h.mem_dropped_of_unmanned hnone hwaiting hx)
  -- the loop was stopped by somebody, who is still at it or has emptied it
  have hstopped := (h.loop_stopped hn hs hdone).2.resolve_right hmanned
  obtain ⟨k, hk⟩ := h.chronicle.exists_stopper hstopped
  obtain ⟨r, hr, hwhere⟩ := h.chronicle.stopping.emptied k hk
  have hbusy : .joinThreads ∈ r.code ∨ .sweepLoop ∈ r.code → d.Unfinished n x.task := by
    intro hwhere
    refine ⟨k, r, ?_, hr, Or.inl ⟨hk, hwhere⟩⟩
    rintro rfl
    obtain rfl := Option.some.inj (hs.symm.trans hr)
    rw [hdone] at hwhere
    rcases hwhere with hj | hj <;> exact absurd hj List.not_mem_nil
  rcases hwhere with hjoin | hsweep | hempty
  · exact Or.inr (hbusy (Or.inl hjoin))
  · exact Or.inr (hbusy (Or.inr hsweep))
  · exact h.settled_of_emptied hn hs hdone hk hempty hwaiting hx

end Closed

/-! ### All runs -/

/-- A scheduler that has stopped is not started again. -/
theorem Reaches.stays_stopped (h : d.Reaches e) (hphase : d.machine.scheduler.phase = .stopped) :
    e.machine.scheduler.phase = .stopped := by
  induction h with
  | refl => exact hphase
  | turn _ heedStop self hturn ih =>
    rcases (Chronicle.turn_shift (turn_eq hturn).1).1.phase_eq with hsame | hstopped
    · exact hsame.trans ih
    · exact hstopped
  | @submit e _ t priority deadline _ ih =>
    rcases e.submit_cases t priority deadline with ⟨hopen, -⟩ | ⟨-, hsubmit⟩
    · exact absurd ih hopen
    · rw [hsubmit]
      exact ih
  | @startScheduler e _ ih =>
    have hidle : e.machine.scheduler.phase ≠ .idle := by
      rw [ih]
      exact LoopPhase.noConfusion
    unfold act Machine.startScheduler
    rw [if_neg hidle]
    exact ih
  | aside _ haside ih => exact (congrArg Scheduler.phase haside.scheduler).trans ih

/-- Once a call of stop has begun, the scheduler has stopped. -/
theorem Reaches.stopped_of_event (h : (start config workers).Reaches d) :
    ∀ v ∈ d.events, v.instr = .stopScheduler → d.machine.scheduler.phase = .stopped := by
  induction h with
  | refl => exact fun v hv => absurd hv List.not_mem_nil
  | @turn d e hreach heedStop self hturn ih =>
    intro v hv hinstr
    have hstays := (Reaches.refl.turn heedStop self hturn).stays_stopped
    cases (Chronicle.turn_shift (turn_eq hturn).1).1 with
    | @carried s i rest code answer added _ _ _ heffect _ _ hevents =>
      rw [hevents] at hv
      rcases List.mem_append.mp hv with hv | hv
      · exact hstays (ih v hv hinstr)
      · rw [List.mem_singleton.mp hv] at hinstr
        replace hinstr : i = .stopScheduler := hinstr
        subst hinstr
        generalize e.machine.scheduler = after at heffect ⊢
        cases heffect with
        | closed => rfl
        | late hphase => exact hphase
        | same hi => cases hi
        | failed hi => rcases hi with hi | hi <;> cases hi
    | found _ _ _ _ _ _ hevents => exact hstays (ih v (hevents ▸ hv) hinstr)
    | took _ _ _ _ _ _ _ hevents => exact hstays (ih v (hevents ▸ hv) hinstr)
  | @submit d hreach t priority deadline ht ih =>
    intro v hv hinstr
    refine (Reaches.refl.submit t priority deadline ht).stays_stopped (ih v ?_ hinstr)
    rcases d.submit_cases t priority deadline with ⟨-, hsubmit⟩ | ⟨-, hsubmit⟩
    · rw [hsubmit] at hv
      exact hv
    · rw [hsubmit] at hv
      exact hv
  | startScheduler _ ih =>
    intro v hv hinstr
    exact Reaches.refl.startScheduler.stays_stopped (ih v hv hinstr)
  | aside _ haside ih =>
    intro v hv hinstr
    exact (Reaches.refl.aside haside).stays_stopped (ih v hv hinstr)

/-- **What a scheduler does with its entries.**  Let tasks be submitted to it in any way, let it be
started and stopped at any time, and let anything happen to its loop.  Then:

* the entries that it accepted are numbered in order, and each has been handed to the loop once, at
  a time when it was due, or is held by the dispatcher, which holds at most one, or waits, or was
  dropped when the scheduler was stopped;
* while the dispatcher cannot go on, the accepted entries are as many as those that were dispatched,
  that the loop refused, that wait and that were dropped, and one more while a hand-over waits for
  room in the loop's queue;
* a submission that is refused is refused because the scheduler has stopped, and changes nothing;
* once stop was called, nothing waits any more, and every submission is refused;
* when the call of stop that stopped the scheduler has returned, every accepted task is settled,
  unless somebody else is not done with stopping the loop or with a call on the task. -/
theorem Reaches.entries_accounted_for (h : (start config workers).Reaches d) :
    (d.received.map Scheduled.seq = List.range d.machine.scheduler.scheduled ∧
      ∃ held, held.length ≤ 1 ∧ Balanced d.received held d.waiting d.dropped d.handovers) ∧
    (d.machine.Rests → d.machine.scheduler.scheduled =
        d.machine.scheduler.dispatched + d.machine.scheduler.failures + d.waiting.length +
          d.dropped.length + d.machine.parked ∧
      d.machine.parked ≤ 1 ∧ (0 < d.machine.parked → d.machine.hasRoom = false)) ∧
    (∀ t priority deadline error, (d.submit t priority deadline).1 = .error error →
      error = .stopped ∧ (d.submit t priority deadline).2 = d) ∧
    (∀ v ∈ d.events, v.instr = .stopScheduler → ∀ e, d.Reaches e → e.waiting = [] ∧
      ∀ t priority deadline, e.submit t priority deadline = (.error .stopped, e)) ∧
    ∀ n s, n ∈ d.closers → d.machine.strands[n]? = some s → s.code = [] →
      ∀ x ∈ d.received, (d.machine.state x.task).isTerminal = true ∨ d.Unfinished n x.task := by
  have a := h.accounted
  obtain ⟨held, hbalanced, hlength, -⟩ := a.ledger
  have hfew := h.manned.few
  refine ⟨⟨a.numbers.trans (congrArg _ a.scheduled.symm), held, by omega, hbalanced⟩,
    h.balance_at_rest, fun t priority deadline error herror => ?_, fun v hv hinstr e he => ?_,
    fun n s hn hs hdone x hx => h.received_settled hn hs hdone hx⟩
  · rcases d.submit_cases t priority deadline with ⟨-, hsubmit⟩ | ⟨-, hsubmit⟩
    · rw [hsubmit] at herror
      cases herror
    · rw [hsubmit] at herror ⊢
      exact ⟨(Except.error.inj herror).symm, rfl⟩
  · have hphase := he.stays_stopped (h.stopped_of_event v hv hinstr)
    refine ⟨(h.trans he).closing.empty hphase, fun t priority deadline => ?_⟩
    exact ((e.submit_cases t priority deadline).resolve_left fun hopen => hopen.1 hphase).2

/-! ### Three runs -/

theorem exists_returned {m : Machine α} {n : Nat}
    (h : m.strands[n]?.map (·.code.length) = some 0) :
    ∃ s, m.strands[n]? = some s ∧ s.code = [] := by
  obtain ⟨s, hs, hlength⟩ := Option.map_eq_some_iff.mp h
  exact ⟨s, hs, List.eq_nil_of_length_eq_zero hlength⟩

/-- A scheduler, and two tasks with the given scripts.  Once it is started, its strands are the
workers, the two other threads of the loop and the dispatcher. -/
def ofScripts (workers : Nat) (first second : List Action) : Docket Nat :=
  ((start { workers } workers).act fun m =>
    (m.newTask (.script first (.done (.returns (.ok 7))))).2).act fun m =>
      (m.newTask (.script second (.done (.returns (.ok 8))))).2

theorem reaches_ofScripts (workers : Nat) (first second : List Action) :
    (start { workers } workers).Reaches (ofScripts workers first second) :=
  (Reaches.refl.newTask _ rfl).newTask _ rfl

/-- Both tasks are submitted, the second for later.  The first is handed to the loop, whose worker
runs it; then strand 4 stops the scheduler. -/
def closedEarly : Docket Nat :=
  ((((((ofScripts 1 [] []).submit 0 10 0).2.submit 1 5 1000).2.act startScheduler).run
    ([3, 3, 3] ++ List.replicate 12 0)).call .stopScheduler).run
      ([4, 3] ++ List.replicate 8 4 ++ [0, 1, 2] ++ List.replicate 4 4)

theorem closedEarly_settled :
    (start { workers := 1 } 1).Reaches closedEarly ∧ closedEarly.waiting = [] ∧
      closedEarly.submit 0 0 0 = (.error .stopped, closedEarly) ∧
      closedEarly.machine.scheduler.scheduled = closedEarly.machine.scheduler.dispatched +
        closedEarly.machine.scheduler.failures + closedEarly.dropped.length ∧
      (closedEarly.machine.state 0).isTerminal = true ∧
      (closedEarly.machine.state 1).isTerminal = true := by
  have hreaches : (start { workers := 1 } 1).Reaches closedEarly :=
    (((((reaches_ofScripts 1 [] []).submit 0 10 0 (Nat.le_succ 1)).submit 1 5 1000
      (Nat.le_refl 2)).startScheduler.run _).call .stopScheduler trivial trivial rfl).run _
  -- where the run ends: all calls have returned, and all threads have left
  have hclosers : closedEarly.closers = [4] := by decide +kernel
  have hreceived : closedEarly.received.map (·.task) = [0, 1] := by decide +kernel
  have hstrands : closedEarly.machine.strands.map (fun s => (s.role, s.code.length, s.exited)) =
      [(.worker, 0, true), (.microtasks, 0, true), (.timers, 0, true), (.dispatcher, 0, true),
        (.caller, 0, false)] := by
    decide +kernel
  have hview : ∀ s ∈ closedEarly.machine.strands, s.code = [] ∧
      (s.role = .dispatcher → s.exited = true) := by
    intro s hs
    have hmem := List.mem_map_of_mem (f := fun s => (s.role, s.code.length, s.exited)) hs
    rw [hstrands] at hmem
    simp only [List.mem_cons, Prod.mk.injEq, List.not_mem_nil, or_false] at hmem
    refine ⟨List.eq_nil_of_length_eq_zero (by omega), fun hrole => ?_⟩
    rw [hrole] at hmem
    simp only [reduceCtorEq, false_and, true_and, false_or, or_false] at hmem
    exact hmem.2
  have hrests : closedEarly.machine.Rests := by
    intro self s hs hrole heedStop
    have hleft := (hview s (List.mem_of_getElem? hs)).2 hrole
    simp [step, hs, hleft]
  have hparked : closedEarly.machine.parked = 0 := by decide +kernel
  have hcloser : 4 ∈ closedEarly.closers := hclosers ▸ List.mem_singleton_self 4
  obtain ⟨v, hv, hstop⟩ := List.mem_filterMap.mp hcloser
  obtain ⟨s, hs, hdone⟩ := exists_returned (m := closedEarly.machine) (n := 4) (by decide +kernel)
  obtain ⟨-, hbalance, -, hclosed, hsettled⟩ := hreaches.entries_accounted_for
  obtain ⟨hwaiting, hrefused⟩ := hclosed v hv (Event.instr_of_closer? hstop) closedEarly .refl
  have hbalance := (hbalance hrests).1
  rw [hwaiting, hparked, List.length_nil, Nat.add_zero, Nat.add_zero] at hbalance
  have hterminal : ∀ t ∈ [0, 1], (closedEarly.machine.state t).isTerminal = true := by
    intro t ht
    rw [← hreceived] at ht
    obtain ⟨x, hx, rfl⟩ := List.mem_map.mp ht
    refine (hsettled 4 s hcloser hs hdone x hx).resolve_right ?_
    rintro ⟨k, r, -, hr, hbusy⟩
    rw [(hview r (List.mem_of_getElem? hr)).1] at hbusy
    simp at hbusy
  exact ⟨hreaches, hwaiting, hrefused 0 0 0, hbalance, hterminal 0 (by simp),
    hterminal 1 (by simp)⟩

/-- The first task is held at the gate by a worker, and the other worker runs the second, which
stops the loop and waits for the first worker.  Then strand 5 stops the scheduler. -/
def stopWithin : Docket Nat :=
  ((((((ofScripts 2 [.gate] [.stopLoop]).submit 0 0 0).2.act startScheduler).run
    [4, 4, 4, 0, 0, 0, 0]).submit 1 0 0).2.run ([4, 4, 4] ++ List.replicate 8 1)).call
      .stopScheduler |>.run [5, 4, 5, 5]

/-- Strand 0 runs the first task, which is held at the gate, and the task is submitted as well.  The
worker of the loop finds that it is running and lets go of it.  Then strand 5 stops the scheduler.
-/
def runOutside : Docket Nat :=
  ((((((ofScripts 1 [.gate] []).call (.start 0)).run [0, 0, 0]).submit 0 0 0).2.act
    startScheduler).run [4, 4, 4, 1, 1, 1, 1]).call .stopScheduler |>.run
      [5, 4, 5, 5, 5, 1, 2, 3, 5, 5, 5]

/-- **Stop does not wait for somebody else who stops the loop**, nor for a task that is run outside
of the loop. -/
theorem stop_leaves_running :
    ((start { workers := 2 } 2).Reaches stopWithin ∧ 5 ∈ stopWithin.closers ∧
      (∃ s : Strand Nat, stopWithin.machine.strands[5]? = some s ∧ s.code = []) ∧
      0 ∈ stopWithin.received.map (·.task) ∧ stopWithin.machine.state 0 = .running) ∧
    (start { workers := 1 } 1).Reaches runOutside ∧ 5 ∈ runOutside.closers ∧
      (∃ s : Strand Nat, runOutside.machine.strands[5]? = some s ∧ s.code = []) ∧
      0 ∈ runOutside.received.map (·.task) ∧ runOutside.machine.state 0 = .running := by
  have hwithin : (start { workers := 2 } 2).Reaches stopWithin :=
    ((((((reaches_ofScripts 2 [.gate] [.stopLoop]).submit 0 0 0 (Nat.le_succ 1)).startScheduler.run
      [4, 4, 4, 0, 0, 0, 0]).submit 1 0 0 (Nat.le_refl 2)).run _).call .stopScheduler trivial
      trivial rfl).run _
  have houtside : (start { workers := 1 } 1).Reaches runOutside :=
    ((((((reaches_ofScripts 1 [.gate] []).call (.start 0) trivial trivial rfl).run
      [0, 0, 0]).submit 0 0 0 (Nat.le_succ 1)).startScheduler.run _).call .stopScheduler trivial
      trivial rfl).run _
  refine ⟨⟨hwithin, ?_, exists_returned ?_, ?_, ?_⟩, houtside, ?_, exists_returned ?_, ?_, ?_⟩
  all_goals decide +kernel

end Docket

end ManagedHost
