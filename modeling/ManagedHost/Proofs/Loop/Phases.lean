import ManagedHost.Proofs.Loop.Counting

/-!
# The phases of a loop

A loop goes from idle to running when it is started, and from running to stopped when a call of stop
marks it; there is no other way (`Chronicle.Reaches.loop_phase`).  A call of stop that finds the
loop idle returns at once and leaves no trace (`Chronicle.Reaches.stop_idle`).  A call that finds it
running or stopped has left it stopped when it returns (`Chronicle.Reaches.stopped_of_stop`), but
only the one that stopped it has waited for its threads.
-/

namespace ManagedHost

variable {α : Type}

namespace Machine

variable {m m' : Machine α} {self n : Nat} {heedStop : Bool} {code : List (Instr α)}

/-! ### The parts of a call of stop -/

/-- Whether nothing is left to do of a call of stop before the strand, in which it marks the loop,
waits for its threads and empties it. -/
def PastStop (m : Machine α) (n : Nat) : Prop :=
  ∀ s, m.strands[n]? = some s → ∀ j ∈ s.code, j.isStopping = false

/-- A loop that was started is not started again. -/
theorem startLoop_eq_self (hphase : m.loop.phase ≠ .idle) : m.startLoop = m := if_neg hphase

theorem stopped_of_not_running (hrunning : m.loop.phase ≠ .running)
    (hidle : m.loop.phase ≠ .idle) : m.loop.phase = .stopped := by
  cases hphase : m.loop.phase with
  | idle => exact absurd hphase hidle
  | running => exact absurd hphase hrunning
  | stopped => rfl

/-- A call that stops the loop goes on to mark it, unless the loop has stopped. -/
theorem exec_stopLoop (h : m.exec heedStop self .stopLoop = some (m', code))
    (hidle : m.loop.phase ≠ .idle) : .markStopped ∈ code ∨ m.loop.phase = .stopped := by
  cases exec_ruled h with
  | stopLoop => exact Or.inl (List.mem_singleton_self _)
  | stopLoopLate hlate => exact Or.inr (stopped_of_not_running hlate hidle)

theorem exec_markStopped (h : m.exec heedStop self .markStopped = some (m', code))
    (hidle : m.loop.phase ≠ .idle) : m'.loop.phase = .stopped := by
  cases exec_ruled h with
  | markStopped => rfl
  | markStoppedLate _ hlate => exact stopped_of_not_running hlate hidle

theorem Around.phase_stopped (h : m.Around m') (hphase : m.loop.phase = .stopped) :
    m'.loop.phase = .stopped := by
  refine (h.loop.phase.resolve_right fun hidle => ?_).trans hphase
  cases hphase.symm.trans hidle.1

end Machine

namespace Chronicle

open Machine

variable {c d : Chronicle α} {heedStop : Bool} {self n : Nat} {config : LoopConfig}
  {workers : Nat}

/-! ### Steps -/

theorem events_turn (hturn : c.turn heedStop self = some d) : c.events <+: d.events := by
  obtain ⟨m, hm, rfl⟩ := Option.map_eq_some_iff.mp hturn
  exact List.prefix_append _ _

theorem mem_last {v : Event α} (h : d.events = c.events ++ [v]) : v ∈ d.events := by
  rw [h]
  exact List.mem_append_right _ (List.mem_singleton_self v)

/-- **An instruction that is before a strand stays there or is carried out now.** -/
theorem strand_turn (h : c.turn heedStop self = some d) {r : Strand α}
    (hr : c.machine.strands[n]? = some r) :
    ∃ r', d.machine.strands[n]? = some r' ∧ r'.role = r.role ∧ ∀ j ∈ r.code, j ∈ r'.code ∨
      n = self ∧ ∃ m₁ code, c.machine.exec heedStop self j = some (m₁, code) ∧
        (∀ k ∈ code, k ∈ r'.code) ∧ m₁.tasks = d.machine.tasks ∧ m₁.loop = d.machine.loop := by
  cases turn_turn h with
  | @carried s i rest code m₁ answer added hs _ hcode hexec hadded hd =>
    by_cases hn : n = self
    · subst hn
      obtain rfl := Option.some.inj (hs.symm.trans hr)
      refine ⟨_, strand_self hs (congrArg strands hd), rfl, fun j hj => ?_⟩
      rw [hcode] at hj
      rcases List.mem_cons.mp hj with rfl | hj
      · refine Or.inr ⟨rfl, m₁, code, hexec, fun k hk => List.mem_append_left _ hk, ?_, ?_⟩
        · rw [hd]
        · rw [hd]
      · exact Or.inl (List.mem_append_right _ hj)
    · exact ⟨r, strand_ne (congrArg strands hd) hr hn, rfl, fun j hj => Or.inl hj⟩
  | @found s role code m₁ exited hs _ _ hcode _ hd =>
    have hstrands := (congrArg strands hd).trans (List.append_nil _).symm
    by_cases hn : n = self
    · subst hn
      obtain rfl := Option.some.inj (hs.symm.trans hr)
      refine ⟨_, strand_self hs hstrands, rfl, fun j hj => ?_⟩
      rw [hcode] at hj
      exact absurd hj List.not_mem_nil
    · exact ⟨r, strand_ne hstrands hr hn, rfl, fun j hj => Or.inl hj⟩

/-- The loop is stopped by whoever marks it so. -/
theorem phase_turn (h : c.turn heedStop self = some d) :
    d.machine.loop.phase = c.machine.loop.phase ∨
      d.machine.loop.phase = .stopped ∧ self ∈ d.stoppers := by
  cases turn_turn h with
  | @carried s i rest code m₁ answer added hs hexited hcode hexec hadded hd hevents =>
    have hloop := (exec_executes heedStop i m₁ code hexec).loop
    rw [show m₁.loop = d.machine.loop by rw [hd]] at hloop
    generalize d.machine.loop = l at hloop ⊢
    cases hloop with
    | marked hphase =>
      refine Or.inr ⟨rfl, ?_⟩
      unfold stoppers
      rw [hevents]
      exact mem_filterMap_concat.mpr (Or.inr (if_pos hphase))
    | _ => exact Or.inl rfl
  | found _ _ _ _ hfinds hd =>
    rw [hd]
    exact Or.inl hfinds.loop_eq.1

/-- A loop that was started is not idle again, and one that has stopped is not started again. -/
theorem loop_turn (h : c.turn heedStop self = some d) :
    (c.machine.loop.phase ≠ .idle → d.machine.loop.phase ≠ .idle) ∧
      (c.machine.loop.phase = .stopped → d.machine.loop.phase = .stopped) := by
  rcases phase_turn h with hsame | ⟨hstopped, -⟩
  · rw [hsame]
    exact ⟨id, id⟩
  · rw [hstopped]
    exact ⟨fun _ => LoopPhase.noConfusion, fun _ => rfl⟩

/-- A loop that has stopped was stopped by somebody. -/
theorem Reaches.exists_stopper
    (h : (start config workers).Reaches c) (hphase : c.machine.loop.phase = .stopped) :
    ∃ n, n ∈ c.stoppers := by
  induction h with
  | refl => cases hphase
  | turn _ heedStop self hturn ih =>
    rcases phase_turn hturn with hsame | ⟨-, hstopper⟩
    · obtain ⟨n, hn⟩ := ih (hsame.symm.trans hphase)
      exact ⟨n, mem_stoppers_turn hturn hn⟩
    · exact ⟨_, hstopper⟩
  | move _ hmove ih =>
    rcases hmove.around.loop.phase with hsame | ⟨-, hrunning⟩
    · exact ih (hsame.symm.trans hphase)
    · cases hrunning.symm.trans hphase

/-! ### Runs -/

/-- A loop that was started is not idle again, and one that has stopped stays stopped. -/
theorem Reaches.loop_phase (h : c.Reaches d) :
    (c.machine.loop.phase ≠ .idle → d.machine.loop.phase ≠ .idle) ∧
      (c.machine.loop.phase = .stopped → d.machine.loop.phase = .stopped) := by
  induction h with
  | refl => exact ⟨id, id⟩
  | turn _ heedStop self hturn ih =>
    obtain ⟨hstarted, hstopped⟩ := loop_turn hturn
    exact ⟨hstarted ∘ ih.1, hstopped ∘ ih.2⟩
  | @move d _ m hmove ih =>
    have haround := hmove.around
    refine ⟨fun hphase hidle => ?_, fun hphase => haround.phase_stopped (ih.2 hphase)⟩
    rcases haround.loop.phase with hsame | ⟨-, hrunning⟩
    · exact ih.1 hphase (hsame.symm.trans hidle)
    · cases hrunning.symm.trans hidle

/-- **A call of stop that finds the loop idle does nothing.** -/
theorem Reaches.stop_idle (h : (start config workers).Reaches c) :
    ∀ v ∈ c.events, v.instr = .stopLoop → v.before.loop.phase = .idle →
      v.after.loop = v.before.loop ∧ v.after.tasks = v.before.tasks ∧
        v.after.timers = v.before.timers := by
  induction h with
  | refl => simp [start]
  | @turn c d hreach heedStop self hturn ih =>
    intro v hv hinstr hphase
    cases turn_turn hturn with
    | @carried s i rest code m₁ answer added hs _ hcode hexec hadded hd hevents =>
      rw [hevents] at hv
      rcases List.mem_append.mp hv with hv | hv
      · exact ih v hv hinstr hphase
      · obtain rfl := List.mem_singleton.mp hv
        obtain rfl : i = .stopLoop := hinstr
        change c.machine.loop.phase = .idle at hphase
        cases exec_ruled hexec with
        | stopLoop hrunning => cases hphase.symm.trans hrunning
        | stopLoopLate =>
          show d.machine.loop = _ ∧ d.machine.tasks = _ ∧ d.machine.timers = _
          rw [hd]
          exact ⟨rfl, rfl, rfl⟩
    | found _ _ _ _ _ _ hevents => exact ih v (hevents ▸ hv) hinstr hphase
  | move _ _ ih => exact ih

/-- Where a call of stop is that found the loop started: the loop has stopped, or the call is about
to mark it. -/
theorem Reaches.stop_underway (h : (start config workers).Reaches c) :
    ∀ v ∈ c.events, v.instr = .stopLoop → v.before.loop.phase ≠ .idle →
      c.machine.loop.phase = .stopped ∨ c.machine.loop.phase ≠ .idle ∧
        ∃ s, c.machine.strands[v.strand]? = some s ∧ .markStopped ∈ s.code := by
  induction h with
  | refl => simp [start]
  | @turn c d hreach heedStop self hturn ih =>
    intro v hv hinstr hphase
    obtain ⟨hstarted, hstopped⟩ := loop_turn hturn
    -- a call that was under way before
    have hold : v ∈ c.events → d.machine.loop.phase = .stopped ∨ d.machine.loop.phase ≠ .idle ∧
        ∃ s, d.machine.strands[v.strand]? = some s ∧ .markStopped ∈ s.code := by
      intro hv
      rcases ih v hv hinstr hphase with hdone | ⟨hbegun, s, hs, hmark⟩
      · exact Or.inl (hstopped hdone)
      · obtain ⟨s', hs', -, hcode⟩ := strand_turn hturn hs
        rcases hcode _ hmark with hmark | ⟨-, m₁, code, hexec, -, -, hloop⟩
        · exact Or.inr ⟨hstarted hbegun, s', hs', hmark⟩
        · refine Or.inl ?_
          rw [← hloop]
          exact exec_markStopped hexec hbegun
    cases turn_turn hturn with
    | @carried s i rest code m₁ answer added hs _ hcode hexec hadded hd hevents =>
      rw [hevents] at hv
      rcases List.mem_append.mp hv with hv | hv
      · exact hold hv
      · -- it begins now
        obtain rfl := List.mem_singleton.mp hv
        obtain rfl : i = .stopLoop := hinstr
        rcases exec_stopLoop hexec hphase with hmark | hdone
        · exact Or.inr ⟨hstarted hphase, _, strand_self hs (congrArg strands hd),
            List.mem_append_left _ hmark⟩
        · exact Or.inl (hstopped hdone)
    | found _ _ _ _ _ _ hevents => exact hold (hevents ▸ hv)
  | @move c hreach m hmove ih =>
    intro v hv hinstr hphase
    have haround := hmove.around
    rcases ih v hv hinstr hphase with hdone | ⟨hbegun, s, hs, hmark⟩
    · exact Or.inl (haround.phase_stopped hdone)
    · refine Or.inr ⟨((Reaches.refl (c := c)).move hmove).loop_phase.1 hbegun, s, ?_, hmark⟩
      obtain ⟨new, hstrands, -⟩ := haround.strands
      show m.strands[v.strand]? = some s
      rw [hstrands, List.getElem?_append_left (List.getElem?_eq_some_iff.mp hs).1]
      exact hs

/-- **A call of stop that has returned and found the loop started has left it stopped.** -/
theorem Reaches.stopped_of_stop (h : (start config workers).Reaches c) {v : Event α}
    (hv : v ∈ c.events) (hinstr : v.instr = .stopLoop) (hphase : v.before.loop.phase ≠ .idle)
    (hpast : c.machine.PastStop v.strand) : c.machine.loop.phase = .stopped := by
  refine (h.stop_underway v hv hinstr hphase).resolve_right ?_
  rintro ⟨-, s, hs, hmark⟩
  cases hpast s hs _ hmark

end Chronicle

end ManagedHost
