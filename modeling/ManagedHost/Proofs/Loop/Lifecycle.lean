import ManagedHost.Proofs.Loop.Bearers
import ManagedHost.Proofs.Loop.Stopped

/-!
# Which calls of stop are final

A loop goes from idle to running when it is started, and from running to stopped when a call of stop
marks it; there is no other way.  So once a call of stop has returned that found the loop started,
the loop is stopped for good (`Reaches.stopped_of_stop`), its timers are cancelled
(`Machine.Roster.of_nil`), what waits with it and was never begun is cancelled or made to fail
(`Reaches.accounted`), and its threads begin nothing any more.  A call that finds the loop idle
returns at once and leaves no trace (`Reaches.stop_idle`): what is registered stays registered, and
the loop can be started afterwards.
-/

namespace ManagedHost

variable {α : Type}

open Machine

/-- An attempt to make a task fail is part of a call that makes it fail. -/
theorem BodyEffect.fails {m m' : Machine α} {i : Instr α} {code : List (Instr α)} {t : TaskId}
    {old : TaskState} {r : TaskResult α} (h : BodyEffect m m' i code)
    (hj : .settle t old r .fail ∈ code) : ∃ e, i = .fail t e := by
  cases h with
  | aside _ hcode => cases List.all_eq_true.mp hcode _ hj
  | started => cases List.mem_singleton.mp hj
  | missing => exact absurd hj List.not_mem_nil
  | passed _ _ _ hsettle hcode =>
    rcases List.mem_append.mp hj with hj | hj
    · cases List.all_eq_true.mp hcode _ hj
    · exact absurd (List.mem_singleton.mp hj).symm (hsettle _ _ _ _)
  | concluded => cases List.mem_singleton.mp hj
  | settled hcode =>
    rcases hcode _ hj with haloof | ⟨heq, -⟩
    · cases haloof
    · cases heq
  | cancelling => cases List.mem_singleton.mp hj
  | failing =>
    cases List.mem_singleton.mp hj
    exact ⟨_, rfl⟩

namespace Chronicle

variable {c d : Chronicle α} {heedStop : Bool} {self n : Nat} {t : TaskId} {config : LoopConfig}
  {workers : Nat}

/-! ### Tasks that were never begun -/

/-- Whether somebody has made the task fail, or tried to. -/
def Failing (c : Chronicle α) (t : TaskId) : Prop := ∃ v ∈ c.events, ∃ e, v.instr = .fail t e

/-- Whether the task was begun, or else was cancelled or made to fail. -/
def Accounted (c : Chronicle α) (t : TaskId) : Prop :=
  (∃ k, (k, t) ∈ c.begun) ∨ c.machine.state t = .cancelled ∨ c.Failing t

theorem mem_begun_turn (h : c.turn heedStop self = some d) {x : Nat × TaskId} (hx : x ∈ c.begun) :
    x ∈ d.begun :=
  ((events_turn h).filterMap Event.begun?).subset hx

theorem Failing.turn (hfailing : c.Failing t) (h : c.turn heedStop self = some d) :
    d.Failing t := by
  obtain ⟨v, hv, hinstr⟩ := hfailing
  exact ⟨v, (events_turn h).subset hv, hinstr⟩

/-- Whoever is about to make a task fail was called to. -/
theorem Reaches.failing (h : (start config workers).Reaches c) {old : TaskState}
    {r : TaskResult α} (hj : c.machine.Holds (.settle t old r .fail)) : c.Failing t := by
  induction h with
  | refl =>
    obtain ⟨_, hs, -⟩ := hj
    exact absurd hs List.not_mem_nil
  | @turn c d hreach heedStop self hturn ih =>
    cases turn_turn hturn with
    | @carried s i rest code m₁ answer added hs _ hcode hexec hadded hd hevents =>
      obtain ⟨-, -, -, hfrom⟩ := holds_carried hs hcode hadded (congrArg strands hd)
      rcases hfrom _ hj with hj | hj | ⟨p, setup, heq⟩
      · obtain ⟨e, rfl⟩ := (exec_bodies heedStop i m₁ code hexec).fails hj
        exact ⟨_, mem_last hevents, e, rfl⟩
      · exact (ih hj).turn hturn
      · cases heq
    | found hs _ _ hcode hfinds hd =>
      obtain ⟨-, -, hfrom⟩ := holds_found hs hcode (congrArg strands hd)
      rcases hfrom _ hj with hj | hj
      · cases List.all_eq_true.mp hfinds.all_isAloof _ hj
      · exact (ih hj).turn hturn
  | move _ hmove ih => exact ih ((hmove.around.of_holds hj).resolve_right fun hcall => hcall.1)

/-- What makes a pending task other than pending: it is started, cancelled or made to fail. -/
theorem Borne.leaves_pending (b : c.Borne) (h : c.turn heedStop self = some d)
    (hbefore : c.machine.state t = .pending) (hafter : d.machine.state t ≠ .pending) :
    (self, t) ∈ d.begun ∨ d.machine.state t = .cancelled ∨
      ∃ old r, c.machine.Holds (.settle t old r .fail) := by
  obtain ⟨y, hy, hstate⟩ := exists_cell hafter
  rw [← hstate] at hafter ⊢
  cases hx : c.machine.tasks[t]? with
  | none =>
    -- a task that is new is pending
    obtain ⟨-, -, hnew⟩ := step_tasks (turn_step h)
    obtain ⟨body, name, rfl⟩ := hnew t y (List.getElem?_eq_none_iff.mp hx) hy
    exact absurd rfl hafter
  | some x =>
    rw [(cell_eq hx).1] at hbefore
    cases turn_turn h with
    | @carried s i rest code m₁ answer added hs _ hcode hexec hadded hd hevents =>
      obtain ⟨hi, -⟩ := holds_carried hs hcode hadded (congrArg strands hd)
      obtain ⟨⟨y', hy', heffect⟩, -⟩ := exec_affects heedStop self hx i m₁ code hexec
      have htasks : d.machine.tasks = m₁.tasks := by rw [hd]
      obtain rfl := Option.some.inj (hy'.symm.trans (htasks ▸ hy))
      have hwarranted := b.warranted i hi
      cases heffect with
      | started hpending =>
        refine Or.inl ?_
        unfold Chronicle.begun
        rw [hevents]
        refine mem_filterMap_concat.mpr (Or.inr ?_)
        simp [Event.begun?, hx, TaskCell.start?, hpending]
      | @settled old result mode code hold hplain =>
        cases mode with
        | run =>
          -- who comes from the body has seen the task running
          obtain rfl : old = .running := hwarranted
          cases hold.symm.trans hbefore
        | cancel =>
          obtain ⟨rfl, -⟩ := hwarranted
          exact Or.inr (Or.inl rfl)
        | fail => exact Or.inr (Or.inr ⟨_, _, hi⟩)
      | idle _ hsame => exact absurd (hsame.state.trans hbefore) hafter
      | _ => exact absurd hbefore hafter
    | found _ _ _ _ hfinds hd _ =>
      have hy' : d.machine.tasks[t]? = some x :=
        (congrArg (·.tasks[t]?) hd).trans (hfinds.getElem?_tasks hx)
      obtain rfl := Option.some.inj (hy.symm.trans hy')
      exact absurd hbefore hafter

/-- **A task that is not pending** was begun, cancelled or made to fail. -/
theorem Reaches.accounted (h : (start config workers).Reaches c)
    (ht : c.machine.state t ≠ .pending) : c.Accounted t := by
  induction h with
  | refl => exact absurd rfl ht
  | @turn c d hreach heedStop self hturn ih =>
    by_cases hbefore : c.machine.state t = .pending
    · -- something happens to the task in this step
      rcases hreach.borne.leaves_pending hturn hbefore ht with hbegun | hcancelled | ⟨_, _, hj⟩
      · exact Or.inl ⟨self, hbegun⟩
      · exact Or.inr (Or.inl hcancelled)
      · exact Or.inr (Or.inr ((hreach.failing hj).turn hturn))
    · rcases ih hbefore with ⟨k, hk⟩ | hcancelled | hfailing
      · exact Or.inl ⟨k, mem_begun_turn hturn hk⟩
      · have hfinal := (hreach.governed.advances_step (turn_step hturn)).final t (hcancelled ▸ rfl)
        exact Or.inr (Or.inl (hfinal.trans hcancelled))
      · exact Or.inr (Or.inr (hfailing.turn hturn))
  | @move c _ m hmove ih =>
    obtain ⟨b, hb, hstate⟩ := exists_cell ht
    rcases hmove.around.cell_or_new hb with hb' | ⟨-, body, name, rfl⟩
    · have hsame : c.machine.state t = m.state t := (cell_eq hb').1.trans hstate
      exact (ih (hsame ▸ ht)).imp_right (Or.imp_left fun hcancelled => hsame ▸ hcancelled)
    · exact absurd hstate.symm ht

/-- **When a call of stop is final.**  In every run of a loop, whoever starts and stops it and
whatever is registered with it meanwhile:

* a call of stop that finds the loop idle changes neither the loop nor the tasks nor the timers, and
  a start makes the loop run afterwards;
* once a call of stop has returned that found the loop running or stopped, the loop is stopped for
  good, and a start does nothing;
* once the call has returned that stopped the loop, and it was not made by one of the loop's
  threads, every task that the loop accepted or that a timer has armed, those registered before the
  start included, has settled, and unless it was begun it was cancelled or made to fail, except
  where somebody outside of the loop is at it or at a task that it continues, and but for the tasks
  of timers that fired after they were cancelled; every timer is cancelled, has fired for the last
  time or is just being cancelled; and all bodies that are begun from then on are begun outside of
  the loop's threads. -/
theorem Reaches.stop_final (h : (start config workers).Reaches c) :
    (∀ v ∈ c.events, v.instr = .stopLoop → v.before.loop.phase = .idle →
      v.after.loop = v.before.loop ∧ v.after.tasks = v.before.tasks ∧
        v.after.timers = v.before.timers ∧ v.after.startLoop.loop.phase = .running) ∧
    (∀ v ∈ c.events, v.instr = .stopLoop → v.before.loop.phase ≠ .idle →
      c.machine.PastStop v.strand → ∀ d, c.Reaches d →
        d.machine.loop.phase = .stopped ∧ d.machine.startLoop = d.machine) ∧
    (∀ n ∈ c.stoppers, ∀ s, c.machine.strands[n]? = some s → ¬ s.role.IsLoop →
      c.machine.PastStop n →
      (∀ t, c.Charged t → (c.machine.state t).isTerminal = true ∧ c.Accounted t ∨
        ∃ a, c.machine.Continues a t ∧ c.machine.InHand a) ∧
      (∀ (k : Nat) (b : TimerCell α), c.machine.timers[k]? = some b →
        b.cancelled = true ∨ ¬ b.Loaded ∨ c.machine.Holds (.cancelTimer k)) ∧
      ∀ d, c.Reaches d → ∃ new, d.begun = c.begun ++ new ∧
        ∀ x ∈ new, ∃ r, d.machine.strands[x.1]? = some r ∧ ¬ r.role.IsLoop) := by
  refine ⟨fun v hv hinstr hphase => ?_, fun v hv hinstr hphase hpast d hd => ?_,
    fun n hn s hs houtside hpast => ?_⟩
  · obtain ⟨hloop, htasks, htimers⟩ := h.stop_idle v hv hinstr hphase
    refine ⟨hloop, htasks, htimers, ?_⟩
    unfold startLoop
    rw [if_pos (hloop ▸ hphase)]
  · have hstopped := hd.loop_phase.2 (h.stopped_of_stop hv hinstr hphase hpast)
    exact ⟨hstopped, startLoop_eq_self fun hidle => nomatch hidle.symm.trans hstopped⟩
  · have stopping := h.stopping
    obtain ⟨s', hs', hwhere⟩ := stopping.emptied n hn
    obtain rfl := Option.some.inj (hs.symm.trans hs')
    have hempty : c.machine.Emptied n := by
      rcases hwhere with hjoin | hsweep | hempty
      · cases hpast s hs _ hjoin
      · cases hpast s hs _ hsweep
      · exact hempty
    have hleft := leftBut_of_outside hempty hs houtside
    refine ⟨fun t ht => ?_, fun k b => h.roster.of_nil hempty.timers, fun d hd => ?_⟩
    · obtain ⟨b, hb, hsettled⟩ := Charged.settled h hempty (stopping.code_eq_nil hleft) ht
      rw [← (cell_eq hb).1] at hsettled
      exact hsettled.imp_left fun hterminal =>
        ⟨hterminal, h.accounted (ne_pending_of_isTerminal hterminal)⟩
    · exact (h.begun_outside hn hleft hd).2

/-! ### A microtask that waits for the start -/

/-- A loop that has not been started, with a task among its microtasks. -/
def awaiting : Chronicle Nat :=
  (((start { workers := 1 } 0).act
    fun m => (m.newTask (.script [] (.done (.returns (.ok 7))))).2).call (.microtask 0 true)).run
      [0, 0]

/-- The loop is started, and strand 4 stops it before its ticker looks at the microtasks. -/
def retired : Chronicle Nat :=
  ((awaiting.act startLoop).call .stopLoop).run ([4, 4, 1, 2, 3] ++ List.replicate 12 4)

/-- Strand 1 stops the loop first. -/
def hushed : Chronicle Nat := (awaiting.call .stopLoop).run [1]

/-- Then the loop is started, and its ticker, strand 3, comes to the microtasks. -/
def revived : Chronicle Nat :=
  ((hushed.act startLoop).act (·.elapse 1000)).run [3, 3, 3, 3]

theorem reaches_awaiting : (start { workers := 1 } 0).Reaches awaiting :=
  ((Reaches.refl.act (.newTask _ none rfl)).call (.microtask 0 true) trivial trivial).run _

theorem reaches_retired : (start { workers := 1 } 0).Reaches retired :=
  ((reaches_awaiting.act .startLoop).call .stopLoop trivial trivial).run _

theorem reaches_hushed : (start { workers := 1 } 0).Reaches hushed :=
  (reaches_awaiting.call .stopLoop trivial trivial).run _

/-- The loop that was started before it was stopped has settled the task, which it had not begun. -/
theorem stop_final_retired :
    retired.accepted = [0] ∧ retired.begun = [] ∧
      (retired.machine.state 0).isTerminal = true ∧ retired.Accounted 0 := by
  have haccepted : retired.accepted = [0] := by decide +kernel
  have hstoppers : retired.stoppers = [4] := by decide +kernel
  -- all calls have returned
  have hidle : ∀ s ∈ retired.machine.strands, s.code.isEmpty = true := by decide +kernel
  have hnone : ∀ s ∈ retired.machine.strands, ∀ j, j ∉ s.code := by
    intro s hs j hj
    rw [List.isEmpty_iff.mp (hidle s hs)] at hj
    exact absurd hj List.not_mem_nil
  have hcaller : retired.machine.strands[4]?.map Strand.role = some .caller := by decide +kernel
  obtain ⟨s, hs, hrole⟩ := Option.map_eq_some_iff.mp hcaller
  obtain ⟨-, -, hstop⟩ := reaches_retired.stop_final
  obtain ⟨hsettled, -⟩ := hstop 4 (hstoppers ▸ List.mem_singleton_self 4) s hs
    (hrole ▸ id) fun r hr j hj => absurd hj (hnone r (List.mem_of_getElem? hr) j)
  have hcharged : retired.Charged 0 := .accepted (haccepted ▸ List.mem_singleton_self 0)
  refine ⟨haccepted, by decide +kernel, (hsettled 0 hcharged).resolve_right ?_⟩
  rintro ⟨a, -, r, hr, -, j, hj, -⟩
  exact hnone r hr j hj

/-- **A stop that comes before the start is forgotten**: the call has returned, but the loop can be
started, and runs what was registered before. -/
theorem early_stop_revived :
    ¬ ∀ (config : LoopConfig) (workers : Nat) (c d : Chronicle Nat),
      (start config workers).Reaches c →
      (∃ v ∈ c.events, v.instr = .stopLoop ∧ c.machine.PastStop v.strand) → c.Reaches d →
      d.machine.loop.phase = .stopped ∧ ∀ x ∈ d.begun, x ∈ c.begun ∨
        ∃ r, d.machine.strands[x.1]? = some r ∧ ¬ r.role.IsLoop := by
  intro hall
  have hreturned : ∃ v ∈ hushed.events, v.instr = .stopLoop ∧ hushed.machine.PastStop v.strand := by
    refine ⟨_, List.mem_of_getElem? (i := 2) rfl, rfl, ?_⟩
    rintro s ⟨⟩ j hj
    exact absurd hj List.not_mem_nil
  have hlater : hushed.Reaches revived :=
    ((Reaches.refl.act .startLoop).act (.elapse 1000)).run _
  obtain ⟨-, hbegun⟩ := hall _ 0 hushed revived reaches_hushed hreturned hlater
  have hnow : revived.begun = [(3, 0)] := by decide +kernel
  have hbefore : hushed.begun = [] := by decide +kernel
  have hticker : revived.machine.strands[3]?.map Strand.role = some .microtasks := by decide +kernel
  rcases hbegun (3, 0) (hnow ▸ List.mem_singleton_self _) with hmem | ⟨r, hr, houtside⟩
  · rw [hbefore] at hmem
    exact absurd hmem List.not_mem_nil
  · rw [hr] at hticker
    exact houtside (Option.some.inj hticker ▸ trivial)

end Chronicle

end ManagedHost
