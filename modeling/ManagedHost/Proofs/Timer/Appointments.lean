import ManagedHost.Proofs.Timer.Rounds

/-!
# Timers keep their appointments

Timers fire when they should, whatever the strands and the callers do (`Timetable.Runs.onTime`), and
a timer that was cancelled does not fire again, with one exception: the ticker looks whether a timer
is cancelled before it looks whether it is due, and in between anybody may cancel the timer
(`Timetable.Quiet`).  If the timer repeats and the cancellation is over by then, it fires once more
and is armed with a task that nobody cancels (`Timetable.fires_after_cancel`).
-/

namespace ManagedHost

variable {α : Type}

namespace TimerCell

variable {b : TimerCell α} {a : Appointment} {times : List Nat}

/-- A timer is still to hand out its task if it repeats or has not fired. -/
theorem Keeps.loaded_iff (h : b.Keeps a times) : b.Loaded ↔ a.repeating = true ∨ times = [] := by
  have hinterval : b.repeating.isSome = true ↔ a.repeating = true := by
    have hsome := congrArg Option.isSome h.interval
    rw [Option.isSome_map] at hsome
    rw [hsome]
    cases a.repeating <;> simp
  rw [Loaded, hinterval, h.fired, List.length_eq_zero_iff]

end TimerCell

namespace Machine

variable {m m₁ : Machine α} {t : TaskId} {n k : Nat} {s : Strand α} {i : Instr α}
  {code rest : List (Instr α)} {heedStop : Bool} {b : TimerCell α}

/-! ### Going on alone -/

/-- Let the strand take so many steps, while nobody else takes one. -/
def alone (heedStop : Bool) (n : Nat) : Nat → Machine α → Option (Machine α)
  | 0, m => some m
  | count + 1, m => (m.step heedStop n).bind (alone heedStop n count)

/-- Whether the strand cancels the task when it goes on alone. -/
def CancelsAlone (m : Machine α) (n : Nat) (t : TaskId) : Prop :=
  ∀ heedStop, ∃ count m', m.alone heedStop n count = some m' ∧ m'.state t = .cancelled

theorem cancelsAlone_of_step
    (h : ∀ heedStop, ∃ m₁, m.step heedStop n = some m₁ ∧ m₁.CancelsAlone n t) :
    m.CancelsAlone n t := by
  intro heedStop
  obtain ⟨m₁, hstep, halone⟩ := h heedStop
  obtain ⟨count, m', hcount, hstate⟩ := halone heedStop
  refine ⟨count + 1, m', ?_, hstate⟩
  rw [alone, hstep]
  exact hcount

/-- The strand carries out an instruction that does not concern the strands. -/
theorem exists_step_of_exec (hs : m.strands[n]? = some s) (hexited : s.exited = false)
    (hcode : s.code = i :: rest) (hexec : m.exec heedStop n i = some (m₁, code))
    (hstrands : m₁.strands = m.strands) :
    ∃ m', m.step heedStop n = some m' ∧ m'.tasks = m₁.tasks ∧ m'.timers = m₁.timers ∧
      m'.strands[n]? = some { s with code := code ++ rest } := by
  refine ⟨{ m₁ with strands := m₁.strands.modify n fun s => { s with code := code ++ rest } }, ?_,
    rfl, rfl, ?_⟩
  · simp [step, hs, hexited, hcode, hexec]
  · rw [hstrands, List.getElem?_modify_eq, hs]
    rfl

/-- The task is cancelled in the state that was found. -/
theorem cancelsAlone_settle (ht : t < m.tasks.length) (hs : m.strands[n]? = some s)
    (hexited : s.exited = false)
    (hcode : s.code = .settle t (m.state t) (.error .cancelled) .cancel :: rest) :
    m.CancelsAlone n t := by
  have hc := List.getElem?_eq_getElem ht
  refine cancelsAlone_of_step fun heedStop => ?_
  have hexec : m.exec heedStop n (.settle t (m.state t) (.error .cancelled) .cancel) = some
      (m.modify t fun _ =>
        { m.tasks[t] with state := .cancelled, outcome := some (.error .cancelled) },
      [.signal t, .release t, .dropBody t]) := Rule.exec_eq (.settle hc (cell_eq hc).1.symm)
  obtain ⟨m', hstep, htasks, -⟩ := exists_step_of_exec hs hexited hcode hexec rfl
  have hc' := getElem?_modify_self hc fun _ =>
    { m.tasks[t] with state := .cancelled, outcome := some (.error .cancelled) }
  rw [← htasks] at hc'
  exact ⟨m', hstep, fun _ => ⟨0, m', rfl, (cell_eq hc').1⟩⟩

theorem cancelsAlone_cancel (ht : t < m.tasks.length) (hopen : (m.state t).isTerminal = false)
    (hs : m.strands[n]? = some s) (hexited : s.exited = false)
    (hcode : s.code = .cancel t :: rest) : m.CancelsAlone n t := by
  refine cancelsAlone_of_step fun heedStop => ?_
  have hexec : m.exec heedStop n (.cancel t) =
      some (m, [.settle t (m.state t) (.error .cancelled) .cancel]) := Rule.exec_eq (.cancel hopen)
  obtain ⟨m', hstep, htasks, -, hs'⟩ := exists_step_of_exec hs hexited hcode hexec rfl
  have hstate : m'.state t = m.state t := by
    unfold state
    rw [htasks]
  rw [← hstate] at hs'
  exact ⟨m', hstep, cancelsAlone_settle (htasks ▸ ht) hs' hexited rfl⟩

/-- **A strand that is cancelling the task needs nobody else** to do it. -/
theorem CancelsAt.cancelsAlone (h : m.CancelsAt n t) (ht : t < m.tasks.length)
    (hopen : (m.state t).isTerminal = false)
    (hwipes : ∀ j, m.Holds j → j.Mentions t → j.Wipes t) : m.CancelsAlone n t := by
  obtain ⟨s, i, rest, hs, hexited, hcode, hi⟩ := h
  cases i with
  | cancel k =>
    obtain rfl : k = t := hi
    exact cancelsAlone_cancel ht hopen hs hexited hcode
  | settle k old r mode =>
    obtain ⟨rfl, rfl⟩ : k = t ∧ mode = .cancel := hi
    have hholds : m.Holds (.settle k old r .cancel) :=
      ⟨s, List.mem_of_getElem? hs, hcode ▸ List.mem_cons_self⟩
    obtain ⟨-, rfl, -⟩ := hwipes _ hholds rfl
    by_cases hold : m.state k = old
    · exact cancelsAlone_settle ht hs hexited (hold ▸ hcode)
    · -- the state has changed since it was found, so the cancellation begins anew
      have hc := List.getElem?_eq_getElem ht
      rw [(cell_eq hc).1] at hold
      refine cancelsAlone_of_step fun heedStop => ?_
      have hexec : m.exec heedStop n (.settle k old (.error .cancelled) .cancel) =
          some (m, [.cancel k]) := Rule.exec_eq (.settleLate fun d hd => by
        obtain rfl := Option.some.inj (hc.symm.trans hd)
        exact hold)
      obtain ⟨m', hstep, htasks, -, hs'⟩ := exists_step_of_exec hs hexited hcode hexec rfl
      have hstate : m'.state k = m.state k := by
        unfold state
        rw [htasks]
      exact ⟨m', hstep, cancelsAlone_cancel (htasks ▸ ht) (hstate ▸ hopen) hs' hexited rfl⟩
  | _ => exact hi.elim

/-- A strand that is about to cancel the task that the timer has armed does so. -/
theorem CancelsArmedAt.cancelsAlone (h : m.CancelsArmedAt n k) (hb : m.timers[k]? = some b)
    (ht : b.armed < m.tasks.length) (hopen : (m.state b.armed).isTerminal = false) :
    m.CancelsAlone n b.armed := by
  obtain ⟨s, rest, hs, hexited, hcode⟩ := h
  refine cancelsAlone_of_step fun heedStop => ?_
  have hexec : m.exec heedStop n (.cancelArmed k) = some (m, [.cancel b.armed]) :=
    Rule.exec_eq (.cancelArmed hb)
  obtain ⟨m', hstep, htasks, -, hs'⟩ := exists_step_of_exec hs hexited hcode hexec rfl
  have hstate : m'.state b.armed = m.state b.armed := by
    unfold state
    rw [htasks]
  exact ⟨m', hstep, cancelsAlone_cancel (htasks ▸ ht) (hstate ▸ hopen) hs' hexited rfl⟩

/-- **A call that cancels a timer**, made while nobody else does anything, cancels the task that the
timer has armed unless it has settled. -/
theorem cancelsAlone_cancelTimer (hb : m.timers[k]? = some b) (hb' : b.cancelled = false)
    (ht : b.armed < m.tasks.length) (hopen : (m.state b.armed).isTerminal = false)
    (hs : m.strands[n]? = some s) (hexited : s.exited = false)
    (hcode : s.code = .cancelTimer k :: rest) :
    m.CancelsAlone n b.armed := by
  refine cancelsAlone_of_step fun heedStop => ?_
  have hexec : m.exec heedStop n (.cancelTimer k) =
      some ({ m with timers := m.timers.set k { b with cancelled := true } },
        [.cancelArmed k]) := Rule.exec_eq (.cancelTimer hb hb')
  obtain ⟨m', hstep, htasks, htimers, hs'⟩ := exists_step_of_exec hs hexited hcode hexec rfl
  have hstate : m'.state b.armed = m.state b.armed := by
    unfold state
    rw [htasks]
  have hb₁ : m'.timers[k]? = some { b with cancelled := true } := by
    rw [htimers]
    exact List.getElem?_set_self (List.getElem?_eq_some_iff.mp hb).1
  have halone := CancelsArmedAt.cancelsAlone ⟨_, _, hs', hexited, rfl⟩ hb₁ (htasks ▸ ht)
    (hstate ▸ hopen)
  exact ⟨m', hstep, halone⟩

/-! ### Looks at a timer -/

/-- The ticker only comes to let a timer fire when it has found that it is not cancelled. -/
theorem Rule.of_pollTimer {now : Nat} {todo : List Nat} {due : List TaskId}
    (h : m.Rule heedStop n i m₁ code) (hj : .pollTimer now k todo due ∈ code) :
    ¬ m.IsCancelled k := by
  have hi : i.ahead?.isSome = true := by
    obtain ⟨_, _, -, -, hlook⟩ := h.ahead?.resolve_left fun hnone => by cases hnone _ hj
    rcases hlook with ⟨_, _, rfl⟩ | ⟨_, hlook⟩
    · rfl
    · rw [hlook, Option.isSome_some]
  cases h with
  | scanFind hc hopen =>
    obtain ⟨-, rfl, -⟩ := Instr.pollTimer.inj (List.mem_singleton.mp hj)
    rintro ⟨b, hb, hcancelled⟩
    obtain rfl := Option.some.inj (hc.symm.trans hb)
    cases hopen.symm.trans hcancelled
  | scanDone =>
    obtain ⟨_, _, heq⟩ := List.mem_map.mp hj
    cases heq
  | scanDrop | pollEarly | fireOnce | fireAgain => cases List.mem_singleton.mp hj
  | _ => cases hi

end Machine

theorem Chronicle.holds_pollTimer {c d : Chronicle α} {heedStop : Bool} {self now k : Nat}
    {todo : List Nat} {due : List TaskId} (h : c.turn heedStop self = some d)
    (hd : d.machine.Holds (.pollTimer now k todo due)) :
    c.machine.Holds (.pollTimer now k todo due) ∨ ¬ c.machine.IsCancelled k := by
  cases turn_turn h with
  | carried hs _ hcode hexec hadded hm =>
    obtain ⟨-, -, -, hfrom⟩ := Machine.holds_carried hs hcode hadded (congrArg Machine.strands hm)
    rcases hfrom _ hd with hj | hj | ⟨p, setup, heq⟩
    · exact Or.inr ((Machine.exec_ruled hexec).of_pollTimer hj)
    · exact Or.inl hj
    · cases heq
  | found hs _ _ hcode hfinds hm =>
    obtain ⟨-, -, hfrom⟩ := Machine.holds_found hs hcode (congrArg Machine.strands hm)
    refine Or.inl ((hfrom _ hd).resolve_left fun hj => ?_)
    rcases hfinds.ahead? with hnone | ⟨-, rfl⟩
    · cases hnone _ hj
    · cases List.mem_singleton.mp hj

namespace Timetable

open Machine

variable {d e f : Timetable α} {k n now : Nat} {b : TimerCell α} {a : Appointment}
  {config : LoopConfig} {workers : Nat}

/-! ### After a cancellation -/

/-- **What becomes of a timer that was cancelled** when it was `d`: it does not fire, unless the
ticker had found by then that it was not cancelled, and then only once. -/
inductive Quiet (d : Timetable α) (k : Nat) (e : Timetable α) : Prop where
  | still (htimes : e.times k = d.times k)
      (hpolls : ∀ now todo due, e.machine.Holds (.pollTimer now k todo due) →
        d.machine.Holds (.pollTimer now k todo due))
  | slipped {now : Nat} {todo : List Nat} {due : List TaskId}
      (hpoll : d.machine.Holds (.pollTimer now k todo due))
      (htimes : e.times k = d.times k ++ [now])
      (hnone : ∀ now todo due, ¬ e.machine.Holds (.pollTimer now k todo due))

/-- A step in which the timer does not fire. -/
theorem Quiet.rest (h : Quiet d k e) (htimes : f.times k = e.times k)
    (hpolls : ∀ now todo due, f.machine.Holds (.pollTimer now k todo due) →
      e.machine.Holds (.pollTimer now k todo due)) : Quiet d k f := by
  cases h with
  | still hsame hbefore =>
    exact .still (htimes.trans hsame) fun now todo due hf =>
      hbefore now todo due (hpolls now todo due hf)
  | slipped hpoll hmore hnone =>
    exact .slipped hpoll (htimes.trans hmore) fun now todo due hf =>
      hnone now todo due (hpolls now todo due hf)

theorem Quiet.step (h : Quiet d k e) (hcancelled : e.machine.IsCancelled k)
    (scanning : f.machine.Scanning) (hstep : e.Step f) : Quiet d k f := by
  cases hstep with
  | @turn c heedStop self hturn =>
    have hpolls : ∀ now todo due, c.machine.Holds (.pollTimer now k todo due) →
        e.machine.Holds (.pollTimer now k todo due) := fun now todo due hf =>
      (Chronicle.holds_pollTimer hturn hf).resolve_right fun hopen => hopen hcancelled
    cases Chronicle.tick_turn hturn with
    | rest _ hfirings => exact h.rest (Chronicle.times_congr hfirings k) hpolls
    | @fire now j todo due b s rest hs hcode _ hfirings hnext =>
      have htimes := Chronicle.times_concat (k := k) hfirings
      by_cases hj : j = k
      · subst hj
        rw [if_pos rfl] at htimes
        have hpoll : e.machine.Holds (.pollTimer now j todo due) :=
          ⟨s, List.mem_of_getElem? hs, hcode ▸ List.mem_cons_self⟩
        cases h with
        | still hsame hbefore =>
          refine .slipped (hbefore _ _ _ hpoll) (htimes.trans (hsame ▸ rfl)) fun _ _ _ hf => ?_
          -- the ticker goes on to the next timer
          cases scanning.unique hf hnext rfl rfl
        | slipped _ _ hnone => exact absurd hpoll (hnone _ _ _)
      · rw [if_neg hj, List.append_nil] at htimes
        exact h.rest htimes hpolls
  | add delay repeating body hbody =>
    exact h.rest rfl fun _ _ _ hf => ((around_addTimer hbody).of_holds hf).resolve_right (·.1)
  | move hmove => exact h.rest rfl fun _ _ _ hf => (hmove.around.of_holds hf).resolve_right (·.1)

theorem Runs.quiet (h : d.Runs e) (hruns : (start config workers).Runs d)
    (hcancelled : d.machine.IsCancelled k) : Quiet d k e := by
  induction h with
  | refl => exact .still rfl fun _ _ _ hd => hd
  | step h hstep ih =>
    exact ih.step (h.later.cancelled k hcancelled) ((hruns.trans h).step hstep).reaches.scanning
      hstep

theorem Timed.exists_appointment (h : d.Timed) (hb : d.machine.timers[k]? = some b) :
    ∃ a, d.made[k]? = some a ∧ b.Keeps a (d.times k) := by
  have hlt : k < d.made.length := h.length ▸ (List.getElem?_eq_some_iff.mp hb).1
  have ha := List.getElem?_eq_getElem hlt
  exact ⟨_, ha, h.keeps k b _ hb ha⟩

/-- Only a timer that repeats fires after its cancellation is over. -/
theorem Runs.repeats_of_overtaken (h : (start config workers).Runs d) (hk : d.overtaken k = true) :
    ∃ a, d.made[k]? = some a ∧ a.repeating = true ∧ d.machine.IsCancelled k := by
  induction h with
  | refl => cases hk
  | @step d e hruns hstep ih =>
    have hlater := hstep.later
    -- what was so before
    have hold : (∃ a, d.made[k]? = some a ∧ a.repeating = true ∧ d.machine.IsCancelled k) →
        ∃ a, e.made[k]? = some a ∧ a.repeating = true ∧ e.machine.IsCancelled k := by
      rintro ⟨a, ha, hrepeating, hcancelled⟩
      obtain ⟨new, hmade⟩ := hlater.made
      refine ⟨a, ?_, hrepeating, hlater.cancelled k hcancelled⟩
      rw [← hmade, List.getElem?_append_left (List.getElem?_eq_some_iff.mp ha).1]
      exact ha
    cases hstep with
    | @turn c heedStop self hturn =>
      have hk : c.overtaken k = true := hk
      cases Chronicle.turn_turn hturn with
      | carried _ _ _ _ _ _ hevents =>
        unfold Chronicle.overtaken at hk
        rw [hevents, List.any_append, Bool.or_eq_true] at hk
        rcases hk with hk | hk
        · exact hold (ih hk)
        · rw [List.any_cons, List.any_nil, Bool.or_false] at hk
          obtain ⟨b, hb, hcancelled, hrepeats⟩ := Event.of_overtakes hk
          obtain ⟨a, ha, hkeeps⟩ := hruns.timed.exists_appointment hb
          obtain ⟨every, hevery⟩ := Option.isSome_iff_exists.mp hrepeats
          exact hold ⟨a, ha, (hkeeps.delay_eq hevery).1, b, hb, hcancelled⟩
      | found _ _ _ _ _ _ hevents =>
        unfold Chronicle.overtaken at hk
        rw [hevents] at hk
        exact hold (ih hk)
    | add delay repeating body hbody => exact hold (ih hk)
    | move => exact hold (ih hk)

/-! ### What is said of timers -/

/-- **How the timer `k`, which is as `b`, keeps the appointment `a`.** -/
structure Punctual (d : Timetable α) (k : Nat) (b : TimerCell α) (a : Appointment) : Prop where
  /-- It never fires before its time. -/
  notBefore : ∀ time ∈ d.times k, a.created + a.delay ≤ time
  /-- Consecutive firings are at least the delay apart. -/
  apart : (d.times k).IsChain fun s t => s + a.delay ≤ t
  counted : b.fired = (d.times k).length
  once : a.repeating = false → (d.times k).length ≤ 1
  /-- A timer that does not repeat keeps the task that it has handed out. -/
  handed : a.repeating = false → ∀ f ∈ d.firings, f.timer = k → f.task = b.armed
  /-- It is registered only as long as it is to fire. -/
  dropped : k ∈ d.machine.loop.timers → a.repeating = true ∨ d.times k = []
  /-- As long as it is to fire and not cancelled it is registered.  When the loop stops, it is about
  to be cancelled. -/
  registered : b.cancelled = false → a.repeating = true ∨ d.times k = [] →
    k ∈ d.machine.loop.timers ∨
      d.machine.loop.phase = .stopped ∧ d.machine.Holds (.cancelTimer k)

/-- **What is so when the timer `k`, which is as `b`, was cancelled.** -/
structure Retired (d : Timetable α) (k : Nat) (b : TimerCell α) (a : Appointment) : Prop where
  /-- It never fires again, unless the ticker has found that it was not cancelled and is about to
  let it fire.  Then it may do so, once. -/
  silent : ∀ e, d.Runs e → e.times k = d.times k ∨
    ∃ now todo due, d.machine.Holds (.pollTimer now k todo due) ∧ e.times k = d.times k ++ [now]
  /-- The next round drops it, for ever. -/
  dropped : ∀ n now e, d.machine.BeginsAt n now → d.Round n e → ¬ e.machine.LooksAt n →
    ∀ f, e.Runs f → k ∉ f.machine.loop.timers
  /-- A task that it has not handed out is cancelled, or a strand is about to cancel it and needs
  nobody else for that, unless the timer has fired after its cancellation was over. -/
  withdrawn : d.overtaken k = false → a.repeating = true ∨ d.times k = [] →
    d.machine.state b.armed = .cancelled ∨ d.machine.state b.armed = .pending ∧
      ∃ n, (d.machine.CancelsAt n b.armed ∨ d.machine.CancelsArmedAt n k) ∧
        d.machine.CancelsAlone n b.armed
  /-- Any task that it has armed has settled, or a strand is about to cancel it, unless the timer
  has fired after its cancellation was over. -/
  settled : d.overtaken k = false → (d.machine.state b.armed).isTerminal = true ∨
    d.machine.Cancelling b.armed ∨ ∃ n, d.machine.CancelsArmedAt n k

/-- **What is said of the timers at every moment.** -/
structure OnTime (d : Timetable α) : Prop where
  punctual : ∀ (k : Nat) (b : TimerCell α), d.machine.timers[k]? = some b →
    ∃ a, d.made[k]? = some a ∧ d.Punctual k b a ∧ (b.cancelled = true → d.Retired k b a)
  /-- No task is handed out twice. -/
  distinct : (d.firings.map Firing.task).Nodup
  /-- Whoever looks at timers begins with all that are registered, at the time that it is. -/
  begins : ∀ n e, d.Step e → ¬ d.machine.LooksAt n → e.machine.LooksAt n →
    e.machine.BeginsAt n e.machine.clock
  firesDue : ∀ n now e, d.machine.BeginsAt n now → d.Round n e → ¬ e.machine.LooksAt n →
    ∃ fired, d.FiresDue n now e fired
  ends : ∀ n, d.machine.LooksAt n → ∃ e, d.Round n e ∧ ¬ e.machine.LooksAt n
  /-- A call that cancels a timer cancels the task that the timer has armed, unless that has
  settled. -/
  cancels : ∀ (k n : Nat) (b : TimerCell α) (s : Strand α) (rest : List (Instr α)),
    d.machine.timers[k]? = some b → b.cancelled = false →
    (d.machine.state b.armed).isTerminal = false → d.machine.strands[n]? = some s →
    s.exited = false → s.code = .cancelTimer k :: rest → d.machine.CancelsAlone n b.armed
  /-- Only a timer that repeats fires after its cancellation is over. -/
  overtaken : ∀ k, d.overtaken k = true →
    ∃ a, d.made[k]? = some a ∧ a.repeating = true ∧ d.machine.IsCancelled k

/-- The first is not later than the others. -/
theorem le_of_isChain {delay time : Nat} {times : List Nat}
    (h : (time :: times).IsChain fun s t => s + delay ≤ t) : ∀ t ∈ times, time + delay ≤ t := by
  induction times generalizing time with
  | nil => exact fun _ ht => absurd ht List.not_mem_nil
  | cons next rest ih =>
    obtain ⟨hle, hrest⟩ := List.isChain_cons_cons.mp h
    refine List.forall_mem_cons.mpr ⟨hle, fun t ht => ?_⟩
    exact (hle.trans (Nat.le_add_right next delay)).trans (ih hrest t ht)

section Runs

variable (h : (start config workers).Runs d) (hb : d.machine.timers[k]? = some b)
  (hkeeps : b.Keeps a (d.times k))
include h hb hkeeps

theorem Runs.punctual : d.Punctual k b a where
  notBefore := le_of_isChain hkeeps.apart
  apart := hkeeps.apart.tail
  counted := hkeeps.fired
  once := hkeeps.once
  handed honce := by
    refine h.distinct.spent k b hb (Option.isNone_iff_eq_none.mp ?_)
    have hinterval := congrArg Option.isNone hkeeps.interval
    rwa [Option.isNone_map, honce] at hinterval
  dropped hk := by
    obtain ⟨c, hc, hloaded⟩ := h.reaches.roster.loaded k hk
    obtain rfl := Option.some.inj (hb.symm.trans hc)
    exact hkeeps.loaded_iff.mp hloaded
  registered hopen hloaded := h.reaches.roster.listed k b hb hopen (hkeeps.loaded_iff.mpr hloaded)

theorem Runs.retired (hcancelled : b.cancelled = true) : d.Retired k b a := by
  have hrevokes := h.reaches.revokes hb hcancelled
  refine
    { silent := fun e hruns => ?silent
      dropped := fun n now e hbegins hround hover f hruns => ?dropped
      withdrawn := fun hnot hloaded => ?withdrawn, settled := fun hnot => ?settled }
  case silent =>
    cases hruns.quiet h ⟨b, hb, hcancelled⟩ with
    | still htimes => exact Or.inl htimes
    | slipped hpoll htimes => exact Or.inr ⟨_, _, _, hpoll, htimes⟩
  case dropped =>
    have hlt := (List.getElem?_eq_some_iff.mp hb).1
    refine hruns.later.dropped k (hlt.trans_le hround.runs.later.length) ?_
    obtain ⟨fired, hfires⟩ := hround.firesDue h hbegins hover
    by_cases hk : k ∈ d.machine.loop.timers
    · exact hfires.dropped k hk ⟨b, hb, hcancelled⟩
    · exact hround.runs.later.dropped k hlt hk
  case withdrawn =>
    have w := h.custody.withdrawn k b hb hcancelled (hkeeps.loaded_iff.mpr hloaded)
    refine w.state.symm.imp_right fun hpending => ⟨hpending, ?_⟩
    have hopen : (d.machine.state b.armed).isTerminal = false := hpending ▸ rfl
    have ht := h.distinct.armed k b hb
    cases hrevokes with
    | settled hterminal => cases hopen.symm.trans hterminal
    | cancelling hcancelling =>
      obtain ⟨n, hn⟩ := hcancelling
      exact ⟨n, Or.inl hn, hn.cancelsAlone ht hopen w.wiped⟩
    | canceller hn => exact ⟨_, Or.inr hn, hn.cancelsAlone hb ht hopen⟩
    | forgotten hovertaken => cases hnot.symm.trans hovertaken
  case settled =>
    cases hrevokes with
    | settled hterminal => exact Or.inl hterminal
    | cancelling hcancelling => exact Or.inr (Or.inl hcancelling)
    | canceller hn => exact Or.inr (Or.inr ⟨_, hn⟩)
    | forgotten hovertaken => cases hnot.symm.trans hovertaken

end Runs

/-- **Timers fire when they should**, whatever the strands and the callers do. -/
theorem Runs.onTime (h : (start config workers).Runs d) : d.OnTime where
  punctual k b hb := by
    obtain ⟨a, ha, hkeeps⟩ := h.timed.exists_appointment hb
    exact ⟨a, ha, h.punctual hb hkeeps, h.retired hb hkeeps⟩
  distinct := h.distinct.nodup
  begins n e hstep hnot hlooks := hstep.begins h hnot hlooks
  firesDue n now e hbegins hround hover := hround.firesDue h hbegins hover
  ends n hlooks := Round.ends hlooks h
  cancels k n b s rest hb hopen hunsettled hs hexited hcode :=
    cancelsAlone_cancelTimer hb hopen (h.distinct.armed k b hb) hunsettled hs hexited hcode
  overtaken k hk := h.repeats_of_overtaken hk

/-! ### Runs -/

/-- Let strands take steps in the order of the list; those that have to wait take none. -/
def run (d : Timetable α) (selves : List Nat) : Timetable α :=
  { d with toChronicle := d.toChronicle.run selves }

theorem Runs.run (h : d.Runs e) (selves : List Nat) : d.Runs (e.run selves) := by
  induction selves generalizing e with
  | nil => exact h
  | cons self rest ih =>
    show d.Runs (({ e with toChronicle := (e.toChronicle.turn true self).getD _ } :
      Timetable α).run rest)
    cases hturn : e.toChronicle.turn true self with
    | none => exact ih h
    | some c => exact ih (h.step (.turn true self hturn))

/-- A loop with a timer that fires once, after 20 microseconds, and one that fires every 10. -/
def wound : Timetable Nat :=
  (((start { workers := 1 } 0).act startLoop).add 20 false
    (.script [] (.done (.returns (.ok 1))))).add 10 true (.script [] (.done (.returns (.ok 2))))

/-- The ticker, which is strand 2, looks at the timers after 10 milliseconds. -/
def rung : Timetable Nat := (wound.act (elapse · 10000)).run [2, 2, 2, 2, 2, 2]

/-- Then a caller cancels the second timer. -/
def silenced : Timetable Nat := (rung.act fun m => (m.call [.cancelTimer 1]).2).run [3]

theorem runs_wound : (start { workers := 1 } 0).Runs wound :=
  ((Runs.refl.step (.move .startLoop rfl (discreet_startLoop _))).step
    (.add 20 false _ rfl)).step (.add 10 true _ rfl)

theorem runs_rung : (start { workers := 1 } 0).Runs rung :=
  (runs_wound.step (.move (.elapse 10000) rfl (discreet_elapse _ _))).run _

/-- A caller may cancel a timer at any time. -/
theorem Runs.cancelTimer (h : d.Runs e) (k : Nat) :
    d.Runs (e.act fun m => (m.call [.cancelTimer k]).2) := by
  have hcode : ∀ i ∈ [(.cancelTimer k : Instr α)],
      i.IsCall ∧ i.Grounded e.machine.tasks.length :=
    List.forall_mem_singleton.mpr ⟨trivial, trivial⟩
  exact h.step (.move (.call _ hcode) rfl
    (discreet_call (List.forall_mem_singleton.mpr nofun)))

/-- Both timers fire when they are looked at; the second has been due for a while.  It is cancelled
before it fires again. -/
theorem onTime_silenced : silenced.firings = [⟨0, 10000, 0⟩, ⟨1, 10000, 1⟩] ∧
    silenced.overtaken 1 = false ∧
    (∃ b a, silenced.machine.timers[1]? = some b ∧ b.cancelled = true ∧
      silenced.made[1]? = some a ∧ a = ⟨0, 10, true⟩ ∧ silenced.Retired 1 b a) ∧
    silenced.OnTime := by
  have hfirings : silenced.firings = [⟨0, 10000, 0⟩, ⟨1, 10000, 1⟩] := by decide +kernel
  have onTime : silenced.OnTime := Runs.onTime ((runs_rung.cancelTimer 1).run [3])
  obtain ⟨a, ha, -, hretired⟩ := onTime.punctual 1 _ rfl
  obtain rfl := Option.some.inj (ha.symm.trans rfl)
  exact ⟨hfirings, by decide +kernel, ⟨_, _, rfl, rfl, ha, rfl, hretired rfl⟩, onTime⟩

/-- The ticker has found that the second timer is not cancelled.  Then a caller cancels it, and the
call returns. -/
def wavering : Timetable Nat :=
  (((wound.act (elapse · 10000)).run [2, 2, 2, 2]).act fun m => (m.call [.cancelTimer 1]).2).run
    (List.replicate 8 3)

/-- The ticker goes on and the worker, strand 0, runs what it hands out.  Then the ticker looks at
the timers once more. -/
def slipped : Timetable Nat :=
  ((wavering.run (List.replicate 8 2 ++ List.replicate 20 0)).act (elapse · 10000)).run
    (List.replicate 8 2)

/-- **A timer fires after it was cancelled**, and nobody cancels the task that it is armed with
then. -/
theorem fires_after_cancel :
    ((start { workers := 1 } 0).Runs wavering ∧ wavering.machine.IsCancelled 1 ∧
      wavering.machine.strands[3]?.map (fun s : Strand Nat => s.code.length) = some 0 ∧
      wavering.times 1 = []) ∧
    wavering.Runs slipped ∧ slipped.times 1 = [10000] ∧ 1 ∉ slipped.machine.loop.timers ∧
    slipped.machine.strands.map (·.code.length) = [0, 0, 0, 0] ∧
    ∃ b : TimerCell Nat,
      slipped.machine.timers[1]? = some b ∧ slipped.machine.state b.armed = .pending := by
  have hwavering : (start { workers := 1 } 0).Runs wavering :=
    (((runs_wound.step (.move (.elapse 10000) rfl (discreet_elapse _ _))).run _).cancelTimer
      1).run _
  have hslipped : wavering.Runs slipped :=
    ((Runs.refl.run _).step (.move (.elapse 10000) rfl (discreet_elapse _ _))).run _
  have hpending :
      slipped.machine.timers[1]?.map (fun b : TimerCell Nat => slipped.machine.state b.armed) =
        some .pending := by
    decide +kernel
  exact ⟨⟨hwavering, ⟨_, rfl, rfl⟩, by decide +kernel, by decide +kernel⟩, hslipped,
    by decide +kernel, by decide +kernel, by decide +kernel, Option.map_eq_some_iff.mp hpending⟩

end Timetable

end ManagedHost
