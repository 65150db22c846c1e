import ManagedHost.Proofs.Loop.Bearers
import ManagedHost.Proofs.Loop.Rest

/-!
# Cancelling a task

A cancellation attempts to settle its task in the state in which it found it, and begins anew when
somebody else was faster.  So a task that was cancelled has settled, or there is still somebody
about to settle it (`Reaches.cancelling`), who does not have to wait for anything.
-/

namespace ManagedHost

variable {α : Type}

/-- Whether the instruction cancels the task, however often it has to try. -/
def Instr.Cancels (t : TaskId) : Instr α → Prop
  | cancel k => k = t
  | settle k _ _ mode => k = t ∧ mode = .cancel
  | _ => False

theorem Instr.cancels_of_cancelled? {i : Instr α} {t : TaskId} (h : i.cancelled? = some t) :
    i.Cancels t := by
  cases i with
  | cancel => exact Option.some.inj h
  | _ => cases h

namespace Machine

variable {m m₁ : Machine α} {t : TaskId} {self n : Nat} {heedStop : Bool} {i : Instr α}
  {code : List (Instr α)}

/-- The strand is about to go on with a cancellation of the task. -/
def CancelsAt (m : Machine α) (n : Nat) (t : TaskId) : Prop :=
  ∃ s i rest, m.strands[n]? = some s ∧ s.exited = false ∧ s.code = i :: rest ∧ i.Cancels t

/-- There is somebody about to go on with a cancellation of the task. -/
def Cancelling (m : Machine α) (t : TaskId) : Prop := ∃ n, m.CancelsAt n t

theorem exec_cancels_ne_none (h : i.Cancels t) : m.exec heedStop self i ≠ none := by
  intro hnone
  cases exec_waits hnone <;> exact h

/-- **A cancellation is tried until the task has settled.** -/
theorem exec_cancels (hi : i.Cancels t) (h : m.exec heedStop self i = some (m₁, code)) :
    (m₁.state t).isTerminal = true ∨ ∃ j more, code = j :: more ∧ j.Cancels t := by
  cases exec_ruled h with
  | @cancel k => exact Or.inr ⟨_, [], rfl, hi, rfl⟩
  | @cancelLate k hterminal =>
    obtain rfl : k = t := hi
    exact Or.inl hterminal
  | @settle k _ result _ _ hc =>
    obtain ⟨rfl, -⟩ : k = t ∧ _ := hi
    refine Or.inl ?_
    rw [(cell_eq (getElem?_modify_self hc _)).1]
    exact TaskResult.isTerminal_state result
  | settleLate =>
    obtain ⟨rfl, rfl⟩ := hi
    exact Or.inr ⟨_, [], rfl, rfl⟩
  | _ => exact hi.elim

theorem CancelsAt.around {m' : Machine α} (h : m.CancelsAt n t) (hm' : m.Around m') :
    m'.CancelsAt n t := by
  obtain ⟨s, i, rest, hs, hrest⟩ := h
  obtain ⟨new, hstrands, -⟩ := hm'.strands
  refine ⟨s, i, rest, ?_, hrest⟩
  rw [hstrands, List.getElem?_append_left (List.getElem?_eq_some_iff.mp hs).1]
  exact hs

/-- After an instruction the cancellation has settled the task, or it is still under way. -/
theorem CancelsAt.carried {m' : Machine α} {s : Strand α} {rest : List (Instr α)}
    {answer : Option (TaskResult Unit)} {added : List (Strand α)} (h : m.CancelsAt n t)
    (hs : m.strands[self]? = some s) (hcode : s.code = i :: rest)
    (hexec : m.exec heedStop self i = some (m₁, code))
    (hm' : m' = { m₁ with
      strands := m.strands.set self { s with code := code ++ rest, answer } ++ added }) :
    (m'.state t).isTerminal = true ∨ m'.CancelsAt n t := by
  obtain ⟨r, k, more, hr, hexited, hr', hk⟩ := h
  have hstrands := congrArg strands hm'
  by_cases hself : self = n
  · subst hself
    obtain rfl := Option.some.inj (hs.symm.trans hr)
    obtain ⟨rfl, rfl⟩ := List.cons.inj (hcode.symm.trans hr')
    refine (exec_cancels hk hexec).imp (fun hterminal => ?_) ?_
    · rw [hm']
      exact hterminal
    · rintro ⟨j, left, rfl, hj⟩
      exact ⟨_, j, left ++ rest, strand_self hs hstrands, hexited, rfl, hj⟩
  · exact Or.inr ⟨r, k, more, strand_ne hstrands hr (Ne.symm hself), hexited, hr', hk⟩

/-- A strand that has nothing to do is not cancelling anything. -/
theorem CancelsAt.found {m' : Machine α} {s s' : Strand α} (h : m.CancelsAt n t)
    (hs : m.strands[self]? = some s) (hcode : s.code = [])
    (hm' : m'.strands = m.strands.set self s') : m'.CancelsAt n t := by
  obtain ⟨r, k, more, hr, hexited, hr', hk⟩ := h
  have hself : n ≠ self := by
    rintro rfl
    obtain rfl := Option.some.inj (hs.symm.trans hr)
    cases hcode.symm.trans hr'
  exact ⟨r, k, more, strand_ne_set hm' hr hself, hexited, hr', hk⟩

/-- Nobody is about to cancel anything when nothing will happen any more. -/
theorem AtRest.not_cancelling (h : m.AtRest) : ¬ m.Cancelling t := by
  rintro ⟨n, s, i, rest, hs, hexited, hcode, hi⟩
  exact exec_cancels_ne_none hi (h.exec_eq_none hs hexited hcode true)

end Machine

namespace Chronicle

open Machine

variable {c d : Chronicle α} {heedStop : Bool} {self n : Nat} {t : TaskId} {config : LoopConfig}
  {workers : Nat}

/-- After a step the cancellation has settled the task, or it is still under way. -/
theorem cancelsAt_turn (h : c.turn heedStop self = some d)
    (hn : c.machine.CancelsAt n t) :
    (d.machine.state t).isTerminal = true ∨ d.machine.CancelsAt n t := by
  cases turn_turn h with
  | carried hs _ hcode hexec _ hd _ => exact hn.carried hs hcode hexec hd
  | found hs _ _ hcode _ hd _ => exact Or.inr (hn.found hs hcode (congrArg Machine.strands hd))

/-- **A task that was cancelled has settled, or somebody is just about to settle it.** -/
theorem Reaches.cancelling (h : (start config workers).Reaches c) :
    ∀ t ∈ c.cancels, (c.machine.state t).isTerminal = true ∨ c.machine.Cancelling t := by
  induction h with
  | refl => exact fun _ ht => absurd ht List.not_mem_nil
  | @turn c d hreach heedStop self hturn ih =>
    have g := hreach.governed
    intro t ht
    have hold : t ∈ c.cancels →
        (d.machine.state t).isTerminal = true ∨ d.machine.Cancelling t := fun ht => by
      rcases ih t ht with hterminal | ⟨n, hn⟩
      · exact Or.inl ((g.advances_step (turn_step hturn)).final t hterminal ▸ hterminal)
      · exact (cancelsAt_turn hturn hn).imp_right fun hn => ⟨n, hn⟩
    unfold cancels at ht
    cases turn_turn hturn with
    | carried hs hexited hcode hexec hadded hd hevents =>
      rw [hevents] at ht
      rcases mem_filterMap_concat.mp ht with ht | ht
      · exact hold ht
      · -- the cancellation begins now
        have hi := Instr.cancels_of_cancelled? ht
        exact (cancelsAt_turn hturn ⟨_, _, _, hs, hexited, hcode, hi⟩).imp_right fun hn => ⟨_, hn⟩
    | found _ _ _ _ _ _ hevents =>
      rw [hevents] at ht
      exact hold ht
  | @move c hreach m hmove ih =>
    intro t ht
    rcases ih t ht with hterminal | ⟨n, hn⟩
    · exact Or.inl (hmove.around.advances.final t hterminal ▸ hterminal)
    · exact Or.inr ⟨n, hn.around hmove.around⟩

end Chronicle

end ManagedHost
