import ManagedHost.Proofs.Timer.Roster

/-!
# Who looks after the tasks that timers have armed

As long as a timer is to fire it keeps its task; when it fires, the task is handed out; and whoever
cancels the timer cancels the task.  A repeating timer that was found not to be cancelled may fire
even so after somebody has cancelled it, and the task that it is armed with then is forgotten if the
cancellation was over (`Chronicle.overtaken`).  There is no other way for such a task to be
forgotten: `Chronicle.Reaches.tends`.
-/

namespace ManagedHost

variable {α : Type}

/-- Whether the instruction cancels the task that the timer has armed. -/
def Instr.isCancelArmed (k : Nat) : Instr α → Bool
  | cancelArmed n => n = k
  | _ => false

theorem Instr.isCancelArmed_iff {k : Nat} {i : Instr α} :
    i.isCancelArmed k = true ↔ i = .cancelArmed k := by
  cases i with
  | cancelArmed n => simp [isCancelArmed]
  | _ => simp [isCancelArmed]

namespace Machine

variable {m m' m₁ : Machine α} {t : TaskId} {self n k : Nat} {heedStop : Bool} {i : Instr α}
  {code rest : List (Instr α)} {s : Strand α}

/-- Whether the next thing that the strand does is to cancel the task that the timer has armed. -/
def CancelsArmedAt (m : Machine α) (n k : Nat) : Prop :=
  ∃ s rest, m.strands[n]? = some s ∧ s.exited = false ∧ s.code = .cancelArmed k :: rest

/-- Whether that is the next thing that some strand does. -/
def cancelsArmed (m : Machine α) (k : Nat) : Bool :=
  m.strands.any fun s => !s.exited && s.code.head?.any (Instr.isCancelArmed k)

theorem cancelsArmed_iff : m.cancelsArmed k = true ↔ ∃ n, m.CancelsArmedAt n k := by
  unfold cancelsArmed CancelsArmedAt
  simp only [List.any_eq_true, Bool.and_eq_true, Bool.not_eq_true', Option.any_eq_true,
    Instr.isCancelArmed_iff, List.head?_eq_some_iff]
  constructor
  · rintro ⟨s, hs, hexited, _, ⟨rest, hcode⟩, rfl⟩
    obtain ⟨n, hn⟩ := List.mem_iff_getElem?.mp hs
    exact ⟨n, s, rest, hn, hexited, hcode⟩
  · rintro ⟨n, s, rest, hs, hexited, hcode⟩
    exact ⟨s, List.mem_of_getElem? hs, hexited, _, ⟨rest, hcode⟩, rfl⟩

theorem CancelsArmedAt.holds (h : m.CancelsArmedAt n k) : m.Holds (.cancelArmed k) := by
  obtain ⟨s, rest, hs, -, hcode⟩ := h
  exact ⟨s, List.mem_of_getElem? hs, hcode ▸ List.mem_cons_self⟩

theorem CancelsArmedAt.carried {answer : Option (TaskResult Unit)} {added : List (Strand α)}
    (h : m.CancelsArmedAt n k) (hs : m.strands[self]? = some s) (hcode : s.code = i :: rest)
    (hm' : m'.strands = m.strands.set self { s with code := code ++ rest, answer } ++ added) :
    m'.CancelsArmedAt n k ∨ n = self ∧ i = .cancelArmed k := by
  obtain ⟨r, rest', hr, hexited, hcode'⟩ := h
  by_cases hn : n = self
  · subst hn
    obtain rfl := Option.some.inj (hs.symm.trans hr)
    exact Or.inr ⟨rfl, (List.cons.inj (hcode.symm.trans hcode')).1⟩
  · exact Or.inl ⟨r, rest', strand_ne hm' hr hn, hexited, hcode'⟩

theorem CancelsArmedAt.found {exited : Bool} (h : m.CancelsArmedAt n k)
    (hs : m.strands[self]? = some s) (hcode : s.code = [])
    (hm' : m'.strands = m.strands.set self { s with code, exited }) :
    m'.CancelsArmedAt n k := by
  obtain ⟨r, rest', hr, hexited, hcode'⟩ := h
  have hn : n ≠ self := by
    rintro rfl
    obtain rfl := Option.some.inj (hs.symm.trans hr)
    cases hcode.symm.trans hcode'
  exact ⟨r, rest', strand_ne_set hm' hr hn, hexited, hcode'⟩

theorem CancelsArmedAt.around (h : m.CancelsArmedAt n k) (hm' : m.Around m') :
    m'.CancelsArmedAt n k := by
  obtain ⟨r, rest', hr, hexited, hcode⟩ := h
  obtain ⟨new, hstrands, -⟩ := hm'.strands
  refine ⟨r, rest', ?_, hexited, hcode⟩
  rw [hstrands, List.getElem?_append_left (List.getElem?_eq_some_iff.mp hr).1]
  exact hr

end Machine

/-- Whether a repeating timer fires that was cancelled, and of which nobody is any more about to
cancel the task that it has armed. -/
def Event.overtakes (k : Nat) (v : Event α) : Bool :=
  match v.instr with
  | .pollTimer now n _ _ =>
    n = k && (v.before.timers[k]?.any fun b =>
      b.cancelled && b.repeating.isSome && b.nextRun ≤ now) && !v.before.cancelsArmed k
  | _ => false

theorem Event.overtakes_eq_true {v : Event α} {now k : Nat} {todo : List Nat} {due : List TaskId}
    {b : TimerCell α} (hinstr : v.instr = .pollTimer now k todo due)
    (hb : v.before.timers[k]? = some b) (hcancelled : b.cancelled = true)
    (hrepeats : b.repeating.isSome = true) (hdue : b.nextRun ≤ now)
    (hnobody : ∀ n, ¬ v.before.CancelsArmedAt n k) : v.overtakes k = true := by
  have hnot : v.before.cancelsArmed k = false :=
    Bool.eq_false_iff.mpr fun h => (Machine.cancelsArmed_iff.mp h).elim hnobody
  simp [overtakes, hinstr, hb, hcancelled, hrepeats, hdue, hnot]

theorem Event.of_overtakes {v : Event α} {k : Nat} (h : v.overtakes k = true) :
    ∃ b, v.before.timers[k]? = some b ∧ b.cancelled = true ∧ b.repeating.isSome = true := by
  unfold overtakes at h
  split at h
  · simp only [Bool.and_eq_true, Option.any_eq_true] at h
    obtain ⟨⟨-, b, hb, ⟨hcancelled, hrepeats⟩, -⟩, -⟩ := h
    exact ⟨b, hb, hcancelled, hrepeats⟩
  · cases h

namespace Chronicle

open Machine

variable {c d : Chronicle α} {heedStop : Bool} {self k : Nat} {b : TimerCell α}
  {config : LoopConfig} {workers : Nat}

/-- Whether the timer has fired after it was cancelled and the cancellation was over. -/
def overtaken (c : Chronicle α) (k : Nat) : Bool := c.events.any (·.overtakes k)

theorem overtaken_turn (h : c.turn heedStop self = some d) (hk : c.overtaken k = true) :
    d.overtaken k = true := by
  obtain ⟨m, -, rfl⟩ := Option.map_eq_some_iff.mp h
  unfold overtaken at hk ⊢
  rw [List.any_append, hk, Bool.true_or]

/-- **When a repeating timer fires that was cancelled**, somebody is still about to cancel the task
that it is armed with then, or that is forgotten. -/
theorem canceller_or_overtaken {s : Strand α} {now : Nat} {todo : List Nat} {due : List TaskId}
    {rest code : List (Instr α)} {answer : Option (TaskResult Unit)} {added : List (Strand α)}
    (hs : c.machine.strands[self]? = some s) (hcode : s.code = .pollTimer now k todo due :: rest)
    (hstrands : d.machine.strands =
      c.machine.strands.set self { s with code := code ++ rest, answer } ++ added)
    (hevents : d.events = c.events ++ [⟨c.machine, d.machine, self, .pollTimer now k todo due⟩])
    (hb : c.machine.timers[k]? = some b) (hcancelled : b.cancelled = true)
    (hrepeats : b.repeating.isSome = true) (hdue : b.nextRun ≤ now) :
    (∃ n, d.machine.CancelsArmedAt n k) ∨ d.overtaken k = true := by
  by_cases hsomebody : ∃ n, c.machine.CancelsArmedAt n k
  · obtain ⟨n, hn⟩ := hsomebody
    refine Or.inl ⟨n, (hn.carried hs hcode hstrands).resolve_right ?_⟩
    rintro ⟨-, hi⟩
    cases hi
  · refine Or.inr ?_
    have hnow := Event.overtakes_eq_true
      (v := ⟨c.machine, d.machine, self, .pollTimer now k todo due⟩) rfl hb hcancelled hrepeats hdue
      fun n hn => hsomebody ⟨n, hn⟩
    unfold overtaken
    rw [hevents, List.any_append, List.any_cons, hnow, Bool.true_or, Bool.or_true]

/-- **Who looks after the task that the timer has armed**: somebody who has it in hand, the timer
itself, or whoever has cancelled the timer; or it is forgotten. -/
inductive Tends (c : Chronicle α) (k : Nat) (b : TimerCell α) : Prop where
  | attended (h : c.machine.Attends b.armed)
  | timer (hopen : b.cancelled = false) (hloaded : b.Loaded)
  | canceller {n : Nat} (h : c.machine.CancelsArmedAt n k)
  | forgotten (h : c.overtaken k = true)

theorem Tends.carried {s : Strand α} {i : Instr α} {rest code : List (Instr α)} {m₁ : Machine α}
    {answer : Option (TaskResult Unit)} {added : List (Strand α)} (h : c.Tends k b)
    (hturn : c.turn heedStop self = some d) (hs : c.machine.strands[self]? = some s)
    (hcode : s.code = i :: rest) (hexec : c.machine.exec heedStop self i = some (m₁, code))
    (hadded : ∀ a ∈ added, a.IsSetup)
    (hd : d.machine = { m₁ with
      strands := c.machine.strands.set self { s with code := code ++ rest, answer } ++ added })
    (hb : c.machine.timers[k]? = some b)
    (hattends : c.machine.Attends b.armed → d.machine.Attends b.armed) : d.Tends k b := by
  obtain ⟨-, -, hgains, -⟩ := holds_carried hs hcode hadded (congrArg strands hd)
  cases h with
  | attended h => exact .attended (hattends h)
  | timer hopen hloaded => exact .timer hopen hloaded
  | canceller h =>
    rcases h.carried hs hcode (congrArg strands hd) with h | ⟨-, rfl⟩
    · exact .canceller h
    · -- the task is cancelled now
      cases exec_ruled hexec with
      | cancelArmed hc =>
        obtain rfl := Option.some.inj (hb.symm.trans hc)
        exact .attended (.of_holds (hgains _ (List.mem_singleton_self _)) rfl)
      | cancelArmedNone hnone => cases hnone.symm.trans hb
  | forgotten h => exact .forgotten (overtaken_turn hturn h)

theorem Tends.found {s : Strand α} {code : List (Instr α)} {m₁ : Machine α}
    {exited : Bool} (h : c.Tends k b) (hturn : c.turn heedStop self = some d)
    (hs : c.machine.strands[self]? = some s) (hcode : s.code = [])
    (hd : d.machine = { m₁ with strands := c.machine.strands.set self { s with code, exited } })
    (hattends : c.machine.Attends b.armed → d.machine.Attends b.armed) : d.Tends k b := by
  cases h with
  | attended h => exact .attended (hattends h)
  | timer hopen hloaded => exact .timer hopen hloaded
  | canceller h => exact .canceller (h.found hs hcode (congrArg strands hd))
  | forgotten h => exact .forgotten (overtaken_turn hturn h)

theorem Tends.around {m : Machine α} (h : c.Tends k b) (haround : c.machine.Around m) :
    Tends { c with machine := m } k b := by
  cases h with
  | attended h => exact .attended (h.around haround)
  | timer hopen hloaded => exact .timer hopen hloaded
  | canceller h => exact .canceller (h.around haround)
  | forgotten h => exact .forgotten h

/-- When a timer fires it hands out its task, or is armed with a new one. -/
theorem tends_fire {s : Strand α} {now : Nat} {todo : List Nat} {due : List TaskId}
    {rest : List (Instr α)} {answer : Option (TaskResult Unit)} {added : List (Strand α)}
    (hs : c.machine.strands[self]? = some s) (hcode : s.code = .pollTimer now k todo due :: rest)
    (hadded : ∀ a ∈ added, a.IsSetup)
    (hstrands : d.machine.strands = c.machine.strands.set self
      { s with code := [.scanTimers now todo (due ++ [b.armed])] ++ rest, answer } ++ added)
    (hevents : d.events = c.events ++ [⟨c.machine, d.machine, self, .pollTimer now k todo due⟩])
    (hb : c.machine.timers[k]? = some b) (hdue : b.nextRun ≤ now) :
    d.Tends k (b.fire now c.machine.tasks.length) := by
  obtain ⟨-, -, hgains, -⟩ := holds_carried hs hcode hadded hstrands
  cases hrepeating : b.repeating with
  | none =>
    -- the task is handed out
    have harmed : (b.fire now c.machine.tasks.length).armed = b.armed :=
      TimerCell.fire_armed_once hrepeating
    refine .attended (.of_holds (hgains _ (List.mem_singleton_self _)) ?_)
    rw [harmed]
    exact List.mem_append_right _ (List.mem_singleton_self _)
  | some again =>
    have hrepeats : b.repeating.isSome = true := hrepeating ▸ rfl
    by_cases hcancelled : b.cancelled = true
    · exact (canceller_or_overtaken hs hcode hstrands hevents hb hcancelled hrepeats hdue).elim
        (fun ⟨_, hn⟩ => .canceller hn) .forgotten
    · refine .timer ?_ (Or.inl ?_)
      · rw [TimerCell.fire_cancelled]
        exact Bool.eq_false_iff.mpr hcancelled
      · rw [TimerCell.fire_repeating, hrepeats]

/-- **The task that a timer has armed is looked after** as long as it is pending, or forgotten. -/
theorem Reaches.tends (h : (start config workers).Reaches c)
    (hb : c.machine.timers[k]? = some b) (hpending : c.machine.state b.armed = .pending) :
    c.Tends k b := by
  induction h generalizing b with
  | refl => exact absurd hb (Option.not_mem_none _)
  | @turn c d hreach heedStop self hturn ih =>
    -- a task that was armed before stays in good hands
    have hold : ∀ b₀, c.machine.timers[k]? = some b₀ → b.armed = b₀.armed →
        c.Tends k b₀ ∧ (c.machine.Attends b₀.armed → d.machine.Attends b₀.armed) := by
      intro b₀ hb₀ harmed
      have hpending' : d.machine.state b₀.armed = .pending := harmed ▸ hpending
      obtain ⟨hpending₀, hattends⟩ := hreach.governed.attends_step (turn_step hturn)
        (hreach.attended.timers k b₀ hb₀).1 hpending'
      exact ⟨ih hb₀ hpending₀, hattends⟩
    cases turn_turn hturn with
    | @carried s i rest code m₁ answer added hs hexited hcode hexec hadded hd hevents =>
      have htimers : TimerEffect c.machine.tasks.length c.machine.timers i code d.machine.timers :=
        hd ▸ (exec_ruled hexec).timers
      obtain ⟨b₀, hb₀, rfl | ⟨-, rfl, rfl, rfl⟩ | ⟨now, todo, due, hdue, rfl, rfl, rfl⟩⟩ :=
        htimers.cell hb
      · obtain ⟨htends, hattends⟩ := hold b hb₀ rfl
        exact htends.carried hturn hs hcode hexec hadded hd hb₀ hattends
      · exact .canceller ⟨_, _, strand_self hs (congrArg strands hd), hexited, rfl⟩
      · exact tends_fire hs hcode hadded (congrArg strands hd) hevents hb₀ hdue
    | @found s role code m₁ exited hs hrole hexited hcode hfinds hd =>
      have htimers : d.machine.timers = c.machine.timers := hd ▸ hfinds.timers_eq.1
      obtain ⟨htends, hattends⟩ := hold b (htimers ▸ hb) rfl
      exact htends.found hturn hs hcode hd hattends
  | @move c hreach m hmove ih =>
    have haround := hmove.around
    have hold : c.machine.timers[k]? = some b → Tends { c with machine := m } k b := by
      intro hb₀
      have hcell := List.getElem?_eq_getElem (hreach.attended.timers k b hb₀).1
      have hcell' : m.tasks[b.armed]? = some _ := haround.beside.getElem?_tasks hcell
      have hpending₀ : c.machine.state b.armed = .pending :=
        (cell_eq hcell).1.trans ((cell_eq hcell').1.symm.trans hpending)
      exact (ih hb₀ hpending₀).around haround
    rcases hmove.timers_eq with ⟨delay, repeating, body, -, hm⟩ | ⟨htimers, -⟩
    · subst hm
      rcases cell_addTimer hb with hb | ⟨-, rfl⟩
      · exact hold hb
      · exact .timer rfl (Or.inr rfl)
    · exact hold (htimers ▸ hb)

end Chronicle

end ManagedHost
