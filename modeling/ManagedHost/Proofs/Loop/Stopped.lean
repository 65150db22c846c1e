import ManagedHost.Proofs.Timer.Arming

/-!
# What a stopped loop leaves behind

When the call that stopped the loop has returned, every task that the loop had to answer for is
settled, except where somebody outside of the loop's threads is in the middle of a call on it or on
a task that it continues; and every call that finds the loop started leaves it closed:
`Chronicle.Reaches.stop_settles`.

Not every task is settled whenever some call of stop has returned (`unsettled_after_stop`).  A task
that was given to the loop may be run by somebody else at the same time, and stop does not wait for
that; a call that finds the loop stopped already does not wait for the one that stopped it; and a
repeating timer may fire once more after it was cancelled.
-/

namespace ManagedHost

variable {α : Type}

namespace Machine

/-- Whether the instruction is part of a run of the task, will start it, settle it or pass it on, or
will hand out its continuations. -/
def Concerns (m : Machine α) (t : TaskId) (j : Instr α) : Prop :=
  j.Bears t ∨ j.Carries t ∨ j = .release t ∨ (∃ child, j = .register t child) ∨
    ∃ n c, (j = .cancelTimer n ∨ j = .cancelArmed n) ∧ m.timers[n]? = some c ∧ c.armed = t

/-- Whether somebody outside of the loop's threads is in the middle of a call on the task. -/
def InHand (m : Machine α) (t : TaskId) : Prop :=
  ∃ s ∈ m.strands, ¬ s.role.IsLoop ∧ ∃ j ∈ s.code, m.Concerns t j

/-- Whether the task `t` is `a`, or continues it by way of any number of others. -/
inductive Continues (m : Machine α) (a : TaskId) : TaskId → Prop where
  | refl : Continues m a a
  | next {t p : TaskId} {c : TaskCell α} (hc : m.tasks[t]? = some c) (hp : c.parent = some p)
      (h : Continues m a p) : Continues m a t

end Machine

namespace Chronicle

open Machine

variable {c d e : Chronicle α} {heedStop : Bool} {self n : Nat} {config : LoopConfig}
  {workers : Nat}

/-- **The tasks that the loop answers for**: those that it accepted, those that timers have armed,
unless the timer has fired after it was cancelled, and all that continue them. -/
inductive Charged (c : Chronicle α) : TaskId → Prop where
  | accepted {t : TaskId} (ht : t ∈ c.accepted) : Charged c t
  | armed {n : Nat} {b : TimerCell α} (hb : c.machine.timers[n]? = some b)
      (hcalm : c.overtaken n = false) : Charged c b.armed
  | continues {t p : TaskId} {b : TaskCell α} (hb : c.machine.tasks[t]? = some b)
      (hp : b.parent = some p) (h : Charged c p) : Charged c t

/-! ### When the loop is empty -/

/-- An instruction that is to be carried out is before a strand outside of the loop. -/
theorem inHand_of_holds {m : Machine α} {t : TaskId} {j : Instr α} (hout : ∀ s ∈ m.strands,
    s.role.IsLoop → s.code = []) (hj : m.Holds j) (hconcerns : m.Concerns t j) : m.InHand t := by
  obtain ⟨s, hs, hj⟩ := hj
  refine ⟨s, hs, fun hloop => ?_, j, hj, hconcerns⟩
  rw [hout s hs hloop] at hj
  exact absurd hj List.not_mem_nil

/-- A pending task that somebody attends to is in hand. -/
theorem inHand_of_attends {m : Machine α} {t : TaskId} (hout : ∀ s ∈ m.strands,
    s.role.IsLoop → s.code = []) (hempty : m.Emptied n) (h : m.Attends t) : m.InHand t := by
  rcases h with ht | ht | ⟨j, hj, hcarries⟩
  · rw [hempty.queue] at ht
    exact absurd ht List.not_mem_nil
  · rw [hempty.microtasks] at ht
    exact absurd ht List.not_mem_nil
  · exact inHand_of_holds hout hj (Or.inr (Or.inl hcarries))

/-- A task whose parent has settled does not wait for it any more, or the parent is in hand. -/
theorem inHand_of_waiting {m : Machine α} (g : m.Governed) (a : m.Attended) (hout : ∀ s ∈ m.strands,
    s.role.IsLoop → s.code = []) (hempty : m.Emptied n) {t p : TaskId} {b q : TaskCell α}
    (hb : m.tasks[t]? = some b) (hp : b.parent = some p) (hpending : b.state = .pending)
    (hq : m.tasks[p]? = some q) (hterminal : q.state.isTerminal = true) :
    m.InHand t ∨ m.InHand p := by
  rcases (a.children t b p hb hp).2 hpending with hattends | ⟨q', hq', hmem⟩ | hregister
  · exact Or.inl (inHand_of_attends hout hempty hattends)
  · obtain rfl := Option.some.inj (hq.symm.trans hq')
    obtain ⟨log, hsound⟩ := g.sound p q hq
    rcases hsound.continuing.sealing hterminal with hsealed | ⟨k, hrelease⟩
    · rw [(hsound.continuing.sealed hsealed).2] at hmem
      exact absurd hmem List.not_mem_nil
    · refine Or.inr (inHand_of_holds hout (holds_of_mem_work hrelease) ?_)
      exact Or.inr (Or.inr (Or.inl rfl))
  · exact Or.inr (inHand_of_holds hout hregister (Or.inr (Or.inr (Or.inr (Or.inl ⟨t, rfl⟩)))))

/-- **Everything the loop answers for is settled or in hand.** -/
theorem Charged.settled (h : (start config workers).Reaches c) (hempty : c.machine.Emptied n)
    (hout : ∀ s ∈ c.machine.strands, s.role.IsLoop → s.code = []) {t : TaskId}
    (ht : c.Charged t) : ∃ b, c.machine.tasks[t]? = some b ∧
      (b.state.isTerminal = true ∨ ∃ a, c.machine.Continues a t ∧ c.machine.InHand a) := by
  have g := h.governed
  have a := h.attended
  -- a task that is running has somebody at its body, so only the pending ones matter
  have hcases : ∀ {t : TaskId} {b : TaskCell α}, c.machine.tasks[t]? = some b →
      (b.state = .pending → ∃ a, c.machine.Continues a t ∧ c.machine.InHand a) →
      b.state.isTerminal = true ∨ ∃ a, c.machine.Continues a t ∧ c.machine.InHand a := by
    intro t b hb hpending
    cases hstate : b.state with
    | pending => exact Or.inr (hpending hstate)
    | running =>
      obtain ⟨j, hj, hbears⟩ := a.bodies t b hb hstate
      exact Or.inr ⟨t, .refl, inHand_of_holds hout hj (Or.inl hbears)⟩
    | completed => exact Or.inl rfl
    | failed => exact Or.inl rfl
    | cancelled => exact Or.inl rfl
  induction ht with
  | @accepted t ht =>
    obtain ⟨b, hb, hattends⟩ := h.accepted_attended t ht
    refine ⟨b, hb, hcases hb fun hpending => ⟨t, .refl, ?_⟩⟩
    exact inHand_of_attends hout hempty (hattends hpending)
  | @armed k b hb hcalm =>
    have hcell := List.getElem?_eq_getElem (a.timers k b hb).1
    refine ⟨_, hcell, hcases hcell fun hpending => ⟨_, .refl, ?_⟩⟩
    have hconcerns : ∀ j, j = .cancelTimer k ∨ j = .cancelArmed k →
        c.machine.Concerns b.armed j :=
      fun j hj => Or.inr (Or.inr (Or.inr (Or.inr ⟨k, b, hj, hb, rfl⟩)))
    cases h.tends hb ((cell_eq hcell).1.trans hpending) with
    | attended hattends => exact inHand_of_attends hout hempty hattends
    | timer hopen hloaded =>
      rcases h.roster.listed k b hb hopen hloaded with hregistered | ⟨-, hcancel⟩
      · rw [hempty.timers] at hregistered
        exact absurd hregistered List.not_mem_nil
      · exact inHand_of_holds hout hcancel (hconcerns _ (Or.inl rfl))
    | canceller hcancel => exact inHand_of_holds hout hcancel.holds (hconcerns _ (Or.inr rfl))
    | forgotten hovertaken => cases hcalm.symm.trans hovertaken
  | @continues t p b hb hp _ ih =>
    refine ⟨b, hb, hcases hb fun hpending => ?_⟩
    obtain ⟨q, hq, hterminal | ⟨a', ha', hhand⟩⟩ := ih
    · rcases inHand_of_waiting g a hout hempty hb hp hpending hq hterminal with hhand | hhand
      · exact ⟨t, .refl, hhand⟩
      · exact ⟨p, .next hb hp .refl, hhand⟩
    · exact ⟨a', .next hb hp ha', hhand⟩

/-! ### Afterwards -/

theorem mem_stoppers_reaches (hn : n ∈ c.stoppers) (h : c.Reaches d) : n ∈ d.stoppers := by
  induction h with
  | refl => exact hn
  | turn _ heedStop self hturn ih => exact mem_stoppers_turn hturn ih
  | move _ _ ih => exact ih

/-- **A timer that is added to a loop that has stopped is cancelled by the call that adds it.** -/
theorem Reaches.newTimers_cancelled (hstart : (start config workers).Reaches c)
    (hphase : c.machine.loop.phase = .stopped) (h : c.Reaches d) :
    c.machine.timers.length ≤ d.machine.timers.length ∧ ∀ (k : Nat) (b : TimerCell α),
      c.machine.timers.length ≤ k → d.machine.timers[k]? = some b →
      b.cancelled = true ∨ d.machine.Holds (.cancelTimer k) := by
  induction h with
  | refl =>
    refine ⟨Nat.le_refl _, fun k b hk hb => ?_⟩
    exact absurd (List.getElem?_eq_some_iff.mp hb).1 (Nat.not_lt.mpr hk)
  | @turn d e hreach heedStop self hturn ih =>
    obtain ⟨hle, ih⟩ := ih
    cases turn_turn hturn with
    | @carried s i rest code m₁ answer added hs hexited hcode hexec hadded hd =>
      obtain ⟨-, hkeeps, -⟩ := holds_carried hs hcode hadded (congrArg strands hd)
      have htimers : TimerEffect d.machine.tasks.length d.machine.timers i code e.machine.timers :=
        hd ▸ (exec_executes heedStop i m₁ code hexec).timers
      refine ⟨htimers.length_eq ▸ hle, fun k b' hk hb' => ?_⟩
      obtain ⟨b, hb, hcell⟩ := htimers.cell hb'
      have hcancelled : b.cancelled = true → b'.cancelled = true := by
        intro hcancelled
        rcases hcell with rfl | ⟨-, rfl, -⟩ | ⟨now, todo, due, -, rfl, -⟩
        · exact hcancelled
        · rfl
        · exact TimerCell.fire_cancelled.trans hcancelled
      refine (ih k b hk hb).elim (fun h => Or.inl (hcancelled h)) fun hholds => ?_
      -- a call that has not been carried out now is still to be carried out
      refine (hkeeps _ hholds).imp_left fun heq => ?_
      exact (heq ▸ htimers : TimerEffect _ _ (.cancelTimer k) _ _).cancelled_of hb'
    | @found s role code m₁ exited hs hrole hexited hcode hfinds hd =>
      obtain ⟨hkeeps, -⟩ := holds_found hs hcode (congrArg strands hd)
      have htimers : e.machine.timers = d.machine.timers := hd ▸ hfinds.timers_eq.1
      rw [htimers]
      exact ⟨hle, fun k b hk hb => (ih k b hk hb).imp_right (hkeeps _)⟩
  | @move d hreach m hmove ih =>
    obtain ⟨hle, ih⟩ := ih
    have haround := hmove.around
    obtain ⟨new, htimers⟩ := haround.timers
    have hlength : d.machine.timers.length ≤ m.timers.length := by
      rw [htimers, List.length_append]
      exact Nat.le_add_right _ _
    refine ⟨Nat.le_trans hle hlength, fun k b hk hb => ?_⟩
    have hb' : m.timers[k]? = some b := hb
    rcases Nat.lt_or_ge k d.machine.timers.length with hlt | hge
    · rw [htimers, List.getElem?_append_left hlt] at hb'
      exact (ih k b hk hb').imp_right haround.holds
    · -- it is new, and cannot be among those that were registered before the loop was stopped
      obtain ⟨-, -, -, -, hregistered⟩ := haround.newTimers k b hge hb'
      refine Or.inr (hregistered.resolve_left fun hmem => ?_)
      rw [haround.loop.stopped (hreach.loop_phase.2 hphase)] at hmem
      obtain ⟨b₀, hb₀, -⟩ := (hstart.trans hreach).roster.loaded k hmem
      exact absurd (List.getElem?_eq_some_iff.mp hb₀).1 (Nat.not_lt.mpr hge)

section Later

variable (hstart : (start config workers).Reaches c) (hn : n ∈ c.stoppers)
include hstart hn

/-- **The loop begins no other body**: its threads have left. -/
theorem Reaches.begun_outside (hleft : ∀ k, c.machine.LeftBut k) (h : c.Reaches d) :
    (∀ k, d.machine.LeftBut k) ∧ ∃ new, d.begun = c.begun ++ new ∧
      ∀ x ∈ new, ∃ r, d.machine.strands[x.1]? = some r ∧ ¬ r.role.IsLoop := by
  induction h with
  | refl => exact ⟨hleft, [], (List.append_nil _).symm, fun _ hx => absurd hx List.not_mem_nil⟩
  | @turn d e hreach heedStop self hturn ih =>
    obtain ⟨hleft', new, hbegun, hnew⟩ := ih
    have hstill : ∀ x ∈ new, ∃ r, e.machine.strands[x.1]? = some r ∧ ¬ r.role.IsLoop := by
      intro x hx
      obtain ⟨r, hr, hrole⟩ := hnew x hx
      obtain ⟨r', hr', hrole', -⟩ := strand_turn hturn hr
      exact ⟨r', hr', hrole' ▸ hrole⟩
    refine ⟨fun k => leftBut_turn hturn (hleft' k), ?_⟩
    cases turn_turn hturn with
    | @carried s i rest code m₁ answer added hs hexited hcode hexec hadded hd hevents =>
      refine ⟨new ++ (Event.begun? ⟨d.machine, e.machine, self, i⟩).toList, ?_, ?_⟩
      · rw [← List.append_assoc, ← hbegun]
        unfold begun
        rw [hevents, List.filterMap_append]
        congr 1
      · refine List.forall_mem_append.mpr ⟨hstill, fun x hx => ?_⟩
        obtain ⟨hself, -⟩ := begun?_eq_some (Option.mem_toList.mp hx)
        rw [show x.1 = self from hself]
        refine ⟨_, strand_self hs (congrArg strands hd), fun hloop => ?_⟩
        -- a thread that takes a step has not left
        have hgone := hleft' (self + 1) self s hs (Nat.ne_of_lt (Nat.lt_succ_self _)) hloop
        cases hexited.symm.trans hgone
    | found _ _ _ _ _ _ hevents =>
      refine ⟨new, ?_, hstill⟩
      rw [← hbegun]
      unfold begun
      rw [hevents]
  | @move d hreach m hmove ih =>
    obtain ⟨hleft', new, hbegun, hnew⟩ := ih
    have s := (hstart.trans hreach).stopping
    have haround := hmove.around
    have hphase := s.phase n (mem_stoppers_reaches hn hreach)
    have hstarted : d.machine.loop.phase ≠ .idle := fun hidle => nomatch hidle.symm.trans hphase
    refine ⟨fun k => (hleft' k).around haround hstarted, new, hbegun, fun x hx => ?_⟩
    obtain ⟨r, hr, hrole⟩ := hnew x hx
    obtain ⟨added, hstrands, -⟩ := haround.strands
    refine ⟨r, ?_, hrole⟩
    show m.strands[x.1]? = some r
    rw [hstrands, List.getElem?_append_left (List.getElem?_eq_some_iff.mp hr).1]
    exact hr

end Later

theorem exec_submit_stopped {m : Machine α} (hphase : m.loop.phase = .stopped) (t : TaskId) :
    m.exec heedStop self (.submit t .caller) = some (m, [.answer (.error .notRunning)]) :=
  Rule.exec_eq (.submitRefused (by simp [hphase]))

theorem exec_microtask_stopped {m : Machine α} (hphase : m.loop.phase = .stopped) (t : TaskId) :
    m.exec heedStop self (.microtask t true) = some (m, [.answer (.error .stopped)]) :=
  Rule.exec_eq (.microtaskRefused hphase)

/-- **A loop that has stopped takes nothing more.**  Whoever submits a task or a microtask to it is
refused, and a timer that was added since it was as in `c` is cancelled by the call that adds it. -/
structure Shut (c d : Chronicle α) : Prop where
  phase : d.machine.loop.phase = .stopped
  submit : ∀ heedStop self t, d.machine.exec heedStop self (.submit t .caller) =
    some (d.machine, [.answer (.error .notRunning)])
  microtask : ∀ heedStop self t, d.machine.exec heedStop self (.microtask t true) =
    some (d.machine, [.answer (.error .stopped)])
  timers : ∀ (k : Nat) (b : TimerCell α), c.machine.timers.length ≤ k →
    d.machine.timers[k]? = some b → b.cancelled = true ∨ d.machine.Holds (.cancelTimer k)

theorem Reaches.shut (hstart : (start config workers).Reaches c)
    (hphase : c.machine.loop.phase = .stopped) (h : c.Reaches d) : c.Shut d where
  phase := h.loop_phase.2 hphase
  submit _ _ t := exec_submit_stopped (h.loop_phase.2 hphase) t
  microtask _ _ t := exec_microtask_stopped (h.loop_phase.2 hphase) t
  timers := (hstart.newTimers_cancelled hphase h).2

/-- Somebody outside of the loop's threads who has emptied the loop has seen all of them leave. -/
theorem leftBut_of_outside {s : Strand α} (h : c.machine.Emptied n)
    (hs : c.machine.strands[n]? = some s) (houtside : ¬ s.role.IsLoop) (k : Nat) :
    c.machine.LeftBut k := by
  intro k' r hr _ hloop
  by_cases hk' : k' = n
  · subst hk'
    obtain rfl := Option.some.inj (hs.symm.trans hr)
    exact absurd hloop houtside
  · exact h.threads k' r hr hk' hloop

/-- Threads of the loop that have left have nothing more to do. -/
theorem Stopping.code_eq_nil (h : c.Stopping) (hleft : ∀ k, c.machine.LeftBut k) :
    ∀ r ∈ c.machine.strands, r.role.IsLoop → r.code = [] := by
  intro r hr hloop
  obtain ⟨k, hk⟩ := List.mem_iff_getElem?.mp hr
  exact h.left k r hk (hleft (k + 1) k r hk (Nat.ne_of_lt (Nat.lt_succ_self k)) hloop)

/-- **A loop that is stopped from outside leaves nothing behind.**  Let the loop have been used in
any way.  Once a call of stop has returned that found the loop running or stopped, the loop takes
nothing more.  Let the strand `n`, which is not a thread of the loop, be the one that stopped it,
and let it have got past the waiting for the threads and the emptying of the loop, as it has when
its call of stop has returned.  Then:

* every task that the loop accepted, that a timer has armed, unless it fired after it was cancelled,
  or that continues one of them, is settled, unless somebody outside of the loop's threads is still
  in the middle of a call on it or on a task that it continues;
* the queue, the microtasks, the tasks in the hands of the loop and the list of timers are empty;
* every body that was begun has come to its end, unless it was begun outside of the loop's threads,
  where somebody is still at it;
* from then on the loop takes nothing more and begins no other body. -/
theorem Reaches.stop_settles (h : (start config workers).Reaches c) :
    (∀ v ∈ c.events, v.instr = .stopLoop → v.before.loop.phase ≠ .idle →
      c.machine.PastStop v.strand → ∀ d, c.Reaches d → c.Shut d) ∧
    ∀ n ∈ c.stoppers, ∀ s, c.machine.strands[n]? = some s → ¬ s.role.IsLoop →
      .joinThreads ∉ s.code → .sweepLoop ∉ s.code →
      (∀ t, c.Charged t → (c.machine.state t).isTerminal = true ∨
        ∃ a, c.machine.Continues a t ∧ c.machine.InHand a) ∧
      (c.machine.loop.queue = [] ∧ c.machine.loop.microtasks = [] ∧ c.machine.loop.active = [] ∧
        c.machine.loop.timers = []) ∧
      (∀ x ∈ c.begun, x ∈ c.ended ∨ ∃ r, c.machine.strands[x.1]? = some r ∧ ¬ r.role.IsLoop ∧
        ∃ j ∈ r.code, j.Bears x.2) ∧
      ∀ d, c.Reaches d → c.Shut d ∧ ∃ new, d.begun = c.begun ++ new ∧
        ∀ x ∈ new, ∃ r, d.machine.strands[x.1]? = some r ∧ ¬ r.role.IsLoop := by
  refine ⟨fun v hv hinstr hphase hpast d hd => h.shut (h.stopped_of_stop hv hinstr hphase hpast) hd,
    fun n hn s hs houtside hjoined hswept => ?_⟩
  have stopping := h.stopping
  obtain ⟨s', hs', hwhere⟩ := stopping.emptied n hn
  obtain rfl := Option.some.inj (hs.symm.trans hs')
  have hempty := (hwhere.resolve_left hjoined).resolve_left hswept
  -- all threads of the loop have left
  have hleft := leftBut_of_outside hempty hs houtside
  have hout := stopping.code_eq_nil hleft
  refine ⟨fun t ht => ?_, ⟨hempty.queue, hempty.microtasks, hempty.active, hempty.timers⟩,
    fun x hx => ?_, fun d hd => ?_⟩
  · obtain ⟨b, hb, hsettled⟩ := Charged.settled h hempty hout ht
    rw [(cell_eq hb).1]
    exact hsettled
  · obtain ⟨r, hr, hended | ⟨j, hj, hbears⟩⟩ := h.begun_or_ended x hx
    · exact Or.inl hended
    · refine Or.inr ⟨r, hr, fun hloop => ?_, j, hj, hbears⟩
      rw [hout r (List.mem_of_getElem? hr) hloop] at hj
      exact absurd hj List.not_mem_nil
  · exact ⟨h.shut (stopping.phase n hn) hd, (h.begun_outside hn hleft hd).2⟩

/-! ### A run in which everything is settled -/

/-- A loop with one worker, and a task that is held at the gate when it runs.  The strands 0, 1 and
2 are the threads of the loop. -/
def gated : Chronicle Nat :=
  ((start { workers := 1 } 0).act
    fun m => (m.newTask (.script [.gate] (.done (.returns (.ok 7))))).2).act startLoop

theorem reaches_gated : (start { workers := 1 } 0).Reaches gated :=
  (Reaches.refl.act (.newTask _ none rfl)).act .startLoop

/-- The task is continued by another and given to the loop, and there is a timer; before the worker
looks at the queue, strand 5 stops the loop. -/
def leftover : Chronicle Nat :=
  ((((gated.act fun m =>
    (m.continueWith 0 (.andThen 0 none fun v => .returns (.ok (v + 1)))).2).act
    fun m => (m.addTimer 1000 true (.script [] (.done (.returns (.ok 1))))).2).call
    (.submit 0 .caller)).run [3, 4, 4, 4]).call .stopLoop |>.run
      ([5, 5, 0, 1, 2] ++ List.replicate 30 5)

theorem leftover_settled :
    leftover.machine.loop.queue = [] ∧ (leftover.machine.state 0).isTerminal = true ∧
      (leftover.machine.state 1).isTerminal = true ∧
      (leftover.machine.state 2).isTerminal = true := by
  have hreaches : (start { workers := 1 } 0).Reaches leftover :=
    ((((reaches_gated.act (.continueWith (m := gated.machine) 0 _ (Nat.lt_succ_self 0) rfl)).act
      (.addTimer 1000 true _ rfl)).call (.submit 0 .caller) trivial trivial).run _).call .stopLoop
      trivial trivial |>.run _
  -- where the run ends: all calls have returned
  have hstoppers : leftover.stoppers = [5] := by decide +kernel
  have haccepted : leftover.accepted = [0] := by decide +kernel
  have hstrands : leftover.machine.strands.map (fun s => (s.role, s.code.length)) =
      [(.worker, 0), (.microtasks, 0), (.timers, 0), (.caller, 0), (.caller, 0), (.caller, 0)] := by
    decide +kernel
  have hparent : leftover.machine.tasks[1]?.map TaskCell.parent = some (some 0) := by decide +kernel
  have harmed : leftover.machine.timers[0]?.map TimerCell.armed = some 2 := by decide +kernel
  have hcalm : leftover.overtaken 0 = false := by decide +kernel
  obtain ⟨b, hb, hparent⟩ := Option.map_eq_some_iff.mp hparent
  obtain ⟨r, hr, harmed⟩ := Option.map_eq_some_iff.mp harmed
  have hlast : (leftover.machine.strands.map fun s => (s.role, s.code.length))[5]? =
      some (Role.caller, 0) := by
    rw [hstrands]
    rfl
  rw [List.getElem?_map] at hlast
  obtain ⟨s, hs, hcaller⟩ := Option.map_eq_some_iff.mp hlast
  obtain ⟨hrole, hlength⟩ := Prod.mk.inj hcaller
  have hnil : s.code = [] := List.eq_nil_of_length_eq_zero hlength
  have hidle : ∀ t, ¬ leftover.machine.InHand t := by
    rintro t ⟨s, hs, -, j, hj, -⟩
    have hmem := List.mem_map_of_mem (f := fun s => (s.role, s.code.length)) hs
    rw [hstrands] at hmem
    have hlength : s.code.length = 0 := by
      simp only [List.mem_cons, Prod.mk.injEq, List.not_mem_nil, or_false] at hmem
      omega
    rw [List.eq_nil_of_length_eq_zero hlength] at hj
    exact absurd hj List.not_mem_nil
  obtain ⟨hsettled, ⟨hqueue, -⟩, -⟩ := hreaches.stop_settles.2 5
    (hstoppers ▸ List.mem_singleton_self 5) s hs (hrole ▸ id)
    (hnil ▸ List.not_mem_nil) (hnil ▸ List.not_mem_nil)
  have hterminal : ∀ t, leftover.Charged t → (leftover.machine.state t).isTerminal = true := by
    intro t ht
    refine (hsettled t ht).resolve_right ?_
    rintro ⟨a, -, hhand⟩
    exact hidle a hhand
  have hfirst : leftover.Charged 0 := .accepted (haccepted ▸ List.mem_singleton_self 0)
  exact ⟨hqueue, hterminal 0 hfirst, hterminal 1 (.continues hb hparent hfirst),
    hterminal 2 (harmed ▸ .armed hr hcalm)⟩

/-! ### Three runs in which a task is not settled -/

/-- Whether a call of stop has returned that was not made by a thread of the loop and found it
started, and the task, which the loop accepted or a timer has armed, is not settled. -/
def Unsettled (c : Chronicle α) (t : TaskId) : Prop :=
  (∃ v ∈ c.events, v.instr = .stopLoop ∧ v.before.loop.phase ≠ .idle ∧
    ∃ s, c.machine.strands[v.strand]? = some s ∧ s.role = .caller ∧ s.code = []) ∧
  (t ∈ c.accepted ∨ ∃ (n : Nat) (b : TimerCell α), c.machine.timers[n]? = some b ∧ b.armed = t) ∧
  (c.machine.state t).isTerminal = false

/-- Strand 3 runs the task, and strand 4 gives it to the loop as well.  The worker finds that it is
running and lets go of it.  Then strand 5 stops the loop. -/
def outsideRun : Chronicle Nat :=
  (((((gated.call (.start 0)).run [3, 3, 3]).call (.submit 0 .caller)).run
    [4, 4, 4, 0, 0, 0, 0]).call .stopLoop).run [5, 5, 0, 1, 2, 5, 5]

/-- Strand 3 gives the task to the loop, and the worker is held at its body.  Strand 4 gives another
task to the loop, as a microtask.  Strand 5 stops the loop and waits for the worker; strand 6 finds
the loop stopped. -/
def secondStop : Chronicle Nat :=
  ((((((((gated.call (.submit 0 .caller)).run [3, 3, 3, 0, 0, 0, 0]).act
    fun m => (m.newTask (.script [] (.done (.returns (.ok 1))))).2).call (.microtask 1 true)).run
    [4, 4]).call .stopLoop).run [5, 5]).call .stopLoop).run [6]

/-- The ticker, strand 2, finds a timer that is not cancelled.  Strand 3 cancels it.  The ticker
goes on, and the timer fires and is armed with another task.  Then strand 4 stops the loop. -/
def lateFiring : Chronicle Nat :=
  (((((((start { workers := 1 } 0).act startLoop).act
    fun m => (m.addTimer 10 true (.script [] (.done (.returns (.ok 1))))).2).act
    (·.elapse 10000)).run [2, 2]).call (.cancelTimer 0)).run
    ([3, 3, 3, 3, 3, 3, 3, 3] ++ [2, 2, 2, 2])).call .stopLoop |>.run
      ([4, 4, 0, 1, 2] ++ List.replicate 8 4)

theorem reaches_outsideRun : (start { workers := 1 } 0).Reaches outsideRun :=
  ((((reaches_gated.call (.start 0) trivial trivial).run _).call (.submit 0 .caller) trivial
    trivial).run _).call .stopLoop trivial trivial |>.run _

theorem reaches_secondStop : (start { workers := 1 } 0).Reaches secondStop :=
  (((((((reaches_gated.call (.submit 0 .caller) trivial trivial).run _).act
    (.newTask _ none rfl)).call (.microtask 1 true) trivial trivial).run _).call .stopLoop trivial
    trivial).run _).call .stopLoop trivial trivial |>.run _

theorem reaches_lateFiring : (start { workers := 1 } 0).Reaches lateFiring :=
  (((((((Reaches.refl.act .startLoop).act (.addTimer 10 true _ rfl)).act (.elapse 10000)).run
    _).call (.cancelTimer 0) trivial trivial).run _).call .stopLoop trivial trivial).run _

/-- Stop does not wait for a task that is run outside of the loop, though the loop accepted it. -/
theorem outsideRun_unsettled : outsideRun.Unsettled 0 := by
  have haccepted : outsideRun.accepted = [0] := by decide +kernel
  refine ⟨⟨_, List.mem_of_getElem? (i := 9) rfl, rfl, nofun, _, rfl, rfl, rfl⟩, Or.inl ?_, rfl⟩
  exact haccepted ▸ List.mem_singleton_self 0

/-- A call that finds the loop stopped does not wait for the one that has stopped it. -/
theorem secondStop_unsettled : secondStop.Unsettled 1 := by
  have haccepted : secondStop.accepted = [0, 1] := by decide +kernel
  refine ⟨⟨_, List.mem_of_getElem? (i := 10) rfl, rfl, nofun, _, rfl, rfl, rfl⟩, Or.inl ?_, rfl⟩
  exact haccepted ▸ List.mem_cons_of_mem 0 (List.mem_singleton_self 1)

set_option maxRecDepth 2000 in
/-- The task that a timer is armed with when it fires after it was cancelled stays as it is. -/
theorem lateFiring_unsettled : lateFiring.Unsettled 1 :=
  ⟨⟨_, List.mem_of_getElem? (i := 13) rfl, rfl, nofun, _, rfl, rfl, rfl⟩,
    Or.inr ⟨0, _, rfl, rfl⟩, rfl⟩

/-- **Stop does not settle everything**, whoever calls it and whenever it has returned. -/
theorem unsettled_after_stop :
    ((start { workers := 1 } 0).Reaches outsideRun ∧ outsideRun.Unsettled 0) ∧
    ((start { workers := 1 } 0).Reaches secondStop ∧ secondStop.Unsettled 1) ∧
    ((start { workers := 1 } 0).Reaches lateFiring ∧ lateFiring.Unsettled 1 ∧
      lateFiring.overtaken 0 = true) :=
  ⟨⟨reaches_outsideRun, outsideRun_unsettled⟩, ⟨reaches_secondStop, secondStop_unsettled⟩,
    reaches_lateFiring, lateFiring_unsettled, by decide +kernel⟩

end Chronicle

end ManagedHost
