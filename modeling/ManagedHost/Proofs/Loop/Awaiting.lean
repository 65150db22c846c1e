import ManagedHost.Proofs.Loop.Bearers
import ManagedHost.Proofs.Loop.Rest

/-!
# Bodies that wait

The body of a promise, or of a task that waits for others, is a loop that can wait at any time and
at last settles its task.  A `Chronicle.Conduct` says of such a body where a strand can be with it,
and what it gives; `Chronicle.Minded` is then true of the task at any time.

From this follow the two sides of what such a task does, for every run: it settles with what its
body gives unless it is cancelled (`Conduct.result_eq`), and whoever is at the body has settled it a
few steps after there is something to give (`Conduct.goes_on`).
-/

namespace ManagedHost

variable {α : Type}

namespace Machine

/-- The strand `n` is about to carry out the instruction, which is part of the task's body. -/
def AtBody (m : Machine α) (n : Nat) (t : TaskId) (j : Instr α) : Prop :=
  ∃ s rest, m.strands[n]? = some s ∧ s.exited = false ∧ s.code = j :: rest ∧ j.Bears t

theorem AtBody.holds {m : Machine α} {n : Nat} {t : TaskId} {j : Instr α} (h : m.AtBody n t j) :
    m.Holds j ∧ j.Bears t := by
  obtain ⟨s, rest, hs, -, hcode, hbears⟩ := h
  exact ⟨⟨s, List.mem_of_getElem? hs, hcode ▸ List.mem_cons_self⟩, hbears⟩

theorem AtBody.around {m m' : Machine α} {n : Nat} {t : TaskId} {j : Instr α} (h : m.AtBody n t j)
    (hm' : m.Around m') : m'.AtBody n t j := by
  obtain ⟨s, rest, hs, hrest⟩ := h
  obtain ⟨new, hstrands, -⟩ := hm'.strands
  refine ⟨s, rest, ?_, hrest⟩
  rw [hstrands, List.getElem?_append_left (List.getElem?_eq_some_iff.mp hs).1]
  exact hs

/-- An outcome that is known stays as it is. -/
theorem Around.outcome {m m' : Machine α} (h : m.Around m') {k : TaskId} {r : TaskResult α}
    (hr : m.outcome k = some r) : m'.outcome k = some r := by
  obtain ⟨x, hx, hr⟩ := Option.bind_eq_some_iff.mp hr
  rw [(cell_eq (h.beside.getElem?_tasks hx)).2.1]
  exact hr

end Machine

namespace Chronicle

open Machine

variable {c d : Chronicle α} {heedStop : Bool} {self n : Nat} {t : TaskId} {body : Body α}
  {config : LoopConfig} {workers : Nat}

/-! ### What is known stays known -/

theorem Reaches.outcome_later (h : (start config workers).Reaches c) (h' : c.Reaches d)
    {k : TaskId} {r : TaskResult α} (hr : c.machine.outcome k = some r) :
    d.machine.outcome k = some r := by
  induction h' with
  | refl => exact hr
  | turn hreach _ _ hturn ih => exact (h.trans hreach).governed.outcome_step (turn_step hturn) ih
  | move _ hmove ih => exact hmove.around.outcome ih

/-- What was begun stays so. -/
theorem Reaches.mem_begun (h : c.Reaches d) {x : Nat × TaskId} (hx : x ∈ c.begun) :
    x ∈ d.begun := by
  induction h with
  | refl => exact hx
  | turn _ heedStop self hturn ih =>
    cases turn_turn hturn with
    | carried _ _ _ _ _ _ hevents =>
      unfold begun
      rw [hevents]
      exact mem_filterMap_concat.mpr (Or.inl ih)
    | found _ _ _ _ _ _ hevents =>
      unfold begun
      rw [hevents]
      exact ih
  | move _ _ ih => exact ih

/-- A task has an outcome when it has settled. -/
theorem Reaches.isSome_outcome (h : (start config workers).Reaches c) (t : TaskId) :
    (c.machine.outcome t).isSome = (c.machine.state t).isTerminal := by
  cases hx : c.machine.tasks[t]? with
  | none => simp [outcome, state, hx, TaskState.isTerminal]
  | some x =>
    obtain ⟨hstate, houtcome, -⟩ := cell_eq hx
    rw [hstate, houtcome]
    exact h.governed.isSome_eq hx

/-- How many instructions the strand has carried out. -/
def stepsOf (c : Chronicle α) (n : Nat) : Nat := c.events.countP (·.strand = n)

/-! ### Conducts -/

/-- **How a body is worked through that waits**, one instruction after the other: where a strand can
be with it, how many steps are left then at most, and what the body gives.  All of this is about
what can be reached. -/
structure Conduct (config : LoopConfig) (workers : Nat) (t : TaskId) (body : Body α) where
  stage : Machine α → Instr α → Prop
  gives : Machine α → TaskResult α → Prop
  stepsLeft : Instr α → Nat
  enter : ∀ m, stage m (.enter t)
  settle : ∀ m r, stage m (.settle t .running r .run) → gives m r
  stepsLeft_le : ∀ m i, i.Bears t → stage m i →
    0 < stepsLeft i ∧ stepsLeft i ≤ stepsLeft (.enter t)
  exec : ∀ (c : Chronicle α), (start config workers).Reaches c → ∀ heedStop self i m₁ code,
    c.machine.Holds i → i.Bears t → stage c.machine i →
    (i = .enter t → c.machine.tasks[t]?.bind TaskCell.body = some body) →
    c.machine.exec heedStop self i = some (m₁, code) →
      (∃ j, code = [j] ∧ j.Bears t ∧ stepsLeft j < stepsLeft i ∧
        ∀ m : Machine α, m.tasks = m₁.tasks → m.promises = m₁.promises → stage m j) ∨
      ∃ r, i = .settle t .running r .run
  ready : ∀ (c : Chronicle α), (start config workers).Reaches c → ∀ i r, i.Bears t →
    stage c.machine i → gives c.machine r → ∀ heedStop self, c.machine.exec heedStop self i ≠ none
  stage_turn : ∀ c d : Chronicle α, (start config workers).Reaches c →
    ∀ heedStop self, c.turn heedStop self = some d →
      ∀ i, stage c.machine i → stage d.machine i
  stage_move : ∀ c : Chronicle α, (start config workers).Reaches c →
    ∀ m, c.machine.Move m → ∀ i, stage c.machine i → stage m i
  gives_turn : ∀ c d : Chronicle α, (start config workers).Reaches c →
    ∀ heedStop self, c.turn heedStop self = some d →
      ∀ r, gives c.machine r → gives d.machine r
  gives_move : ∀ c : Chronicle α, (start config workers).Reaches c →
    ∀ m, c.machine.Move m → ∀ r, gives c.machine r → gives m r

variable {D : Conduct config workers t body}

/-- **What is true of a task whose body waits**, at any time. -/
structure Minded (D : Conduct config workers t body) (c : Chronicle α) : Prop where
  furnished : c.machine.Furnished t body
  bodies : ∀ j, c.machine.Holds j → j.Bears t →
    (c.machine.state t).isTerminal = true ∨ D.stage c.machine j
  result : ∀ r, c.machine.outcome t = some r →
    r = .error .cancelled ∧ t ∈ c.cancels ∨ t ∉ c.starts ∨ D.gives c.machine r
  head : ∀ n, (n, t) ∈ c.begun →
    (c.machine.state t).isTerminal = true ∨ ∃ j, c.machine.AtBody n t j

theorem Minded.stage_of_open (M : c.Minded D) (hopen : (c.machine.state t).isTerminal = false)
    {j : Instr α} (hj : c.machine.Holds j) (hbears : j.Bears t) : D.stage c.machine j :=
  (M.bodies j hj hbears).resolve_left (Bool.eq_false_iff.mp hopen)

/-- The body is there for who is about to take it. -/
theorem Minded.body_eq (M : c.Minded D) (hopen : (c.machine.state t).isTerminal = false)
    {i : Instr α} (hi : c.machine.Holds i) :
    i = .enter t → c.machine.tasks[t]?.bind TaskCell.body = some body := by
  rintro rfl
  obtain ⟨x, hx, hbody⟩ := M.furnished
  rw [(cell_eq hx).1] at hopen
  rw [hx]
  exact (hbody (Or.inr hi)).resolve_left (Bool.eq_false_iff.mp hopen)

section Turn

variable (M : c.Minded D) (h : (start config workers).Reaches c)
  (hturn : c.turn heedStop self = some d)
include M h hturn

/-- **One step of any strand, as the strand at the body sees it**: the task settles, or the strand
has gone on by a step, or it was the step of another strand. -/
theorem Minded.atBody_turn {i : Instr α} (hi : c.machine.AtBody n t i)
    (hbegun : c.machine.state t ≠ .pending) :
    (d.machine.state t).isTerminal = true ∨
      (d.stepsOf n = c.stepsOf n ∧ d.machine.AtBody n t i) ∨
      ∃ j, d.machine.AtBody n t j ∧ d.stepsOf n = c.stepsOf n + 1 ∧
        D.stepsLeft j < D.stepsLeft i := by
  have hfinal := (h.governed.advances_step (turn_step hturn)).final t
  cases hopen : (c.machine.state t).isTerminal with
  | true => exact Or.inl (hfinal hopen ▸ hopen)
  | false =>
  obtain ⟨hheld, hbears⟩ := hi.holds
  obtain ⟨s, rest, hs, hexited, hcode, -⟩ := hi
  cases turn_turn hturn with
  | @carried s' i' rest' code m₁ answer added hs' _ hcode' hexec hadded hd hevents =>
    have hstrands := congrArg Machine.strands hd
    have hsteps : d.stepsOf n = c.stepsOf n + if self = n then 1 else 0 := by
      unfold stepsOf
      rw [hevents, List.countP_append, List.countP_singleton]
      simp only [decide_eq_true_eq]
    by_cases hself : self = n
    · subst hself
      obtain rfl := Option.some.inj (hs.symm.trans hs')
      obtain ⟨rfl, rfl⟩ := List.cons.inj (hcode.symm.trans hcode')
      rw [if_pos rfl] at hsteps
      rcases D.exec c h _ _ _ _ _ hheld hbears (M.stage_of_open hopen hheld hbears)
        (M.body_eq hopen hheld) hexec with ⟨j, rfl, hj, hless, -⟩ | ⟨r, rfl⟩
      · exact Or.inr (Or.inr ⟨j, ⟨_, rest, strand_self hs hstrands, hexited, rfl, hj⟩, hsteps,
          hless⟩)
      · have hstate : m₁.state t = d.machine.state t := by rw [hd]; rfl
        exact Or.inl (hstate ▸ exec_settle_running hexec hbegun)
    · rw [if_neg hself] at hsteps
      have hsame := strand_ne hstrands hs (Ne.symm hself)
      exact Or.inr (Or.inl ⟨hsteps, s, rest, hsame, hexited, hcode, hbears⟩)
  | @found s' role code m₁ exited hs' _ _ hcode' hfinds hd hevents =>
    have hsteps : d.stepsOf n = c.stepsOf n := by
      unfold stepsOf
      rw [hevents]
    have hself : self ≠ n := by
      rintro rfl
      obtain rfl := Option.some.inj (hs.symm.trans hs')
      cases hcode.symm.trans hcode'
    have hsame := strand_ne_set (congrArg Machine.strands hd) hs
      (Ne.symm hself)
    exact Or.inr (Or.inl ⟨hsteps, s, rest, hsame, hexited, hcode, hbears⟩)

theorem Minded.bodies_turn : ∀ j, d.machine.Holds j → j.Bears t →
    (d.machine.state t).isTerminal = true ∨ D.stage d.machine j := by
  intro j hj hbears
  cases hopen : (c.machine.state t).isTerminal with
  | true =>
    have hfinal := (h.governed.advances_step (turn_step hturn)).final t hopen
    exact Or.inl (hfinal ▸ hopen)
  | false =>
    refine Or.inr ?_
    have hold : ∀ i, c.machine.Holds i → i.Bears t → D.stage d.machine i := fun i hi hbears =>
      D.stage_turn c d h heedStop self hturn i (M.stage_of_open hopen hi hbears)
    cases turn_turn hturn with
    | @carried s i rest code m₁ answer added hs _ hcode hexec hadded hd hevents =>
      obtain ⟨hi, -, -, hfrom⟩ := holds_carried hs hcode hadded (congrArg Machine.strands hd)
      rcases hfrom j hj with hj | hj | ⟨p, setup, rfl⟩
      · rcases (exec_bodies heedStop i m₁ code hexec).of_bears hj hbears with hi' | ⟨-, rfl⟩
        · rcases D.exec c h _ _ _ _ _ hi hi' (M.stage_of_open hopen hi hi') (M.body_eq hopen hi)
            hexec with ⟨k, rfl, -, -, hk⟩ | ⟨r, rfl⟩
          · obtain rfl := List.mem_singleton.mp hj
            exact hk _ (by rw [hd]) (by rw [hd])
          · -- the settlement at the end of a body leaves nothing of it behind
            rcases (exec_settle hexec).2 with ⟨-, hcode⟩ | hcode
            · rcases hcode j hj with rfl | rfl | ⟨rfl, -⟩ <;> exact hbears.elim
            · obtain ⟨rfl, -⟩ := hcode j hj
              exact hbears.elim
        · exact D.enter _
      · exact hold j hj hbears
      · exact hbears.elim
    | found hs _ _ hcode hfinds hd _ =>
      obtain ⟨-, -, hfrom⟩ := holds_found hs hcode (congrArg Machine.strands hd)
      rcases hfrom j hj with hj | hj
      · have haloof := Instr.bearer?_of_isAloof (List.all_eq_true.mp hfinds.all_isAloof j hj)
        cases haloof.symm.trans (Instr.bearer?_eq_some.mpr hbears)
      · exact hold j hj hbears

theorem Minded.result_turn : ∀ r, d.machine.outcome t = some r →
    r = .error .cancelled ∧ t ∈ d.cancels ∨ t ∉ d.starts ∨ D.gives d.machine r := by
  intro r hr
  have hterminal : (d.machine.state t).isTerminal = true := by
    rw [← (h.turn heedStop self hturn).isSome_outcome t, hr]
    rfl
  -- who is not started before it settles is not started at all
  have hstarts : t ∉ c.starts → t ∉ d.starts := by
    intro hnot hmem
    obtain ⟨x, hx, rfl⟩ := List.mem_map.mp hmem
    rcases begun_turn hturn hx with hx | ⟨-, -, hrunning⟩
    · exact hnot (List.mem_map.mpr ⟨x, hx, rfl⟩)
    · rw [hrunning] at hterminal
      cases hterminal
  have hgives := D.gives_turn c d h heedStop self hturn r
  rcases h.borne.outcome_turn hturn hr with hr | ⟨hrunning, hi⟩ | ⟨hcut, hcancel⟩ | ⟨hpending, -⟩
  · exact (M.result r hr).imp (And.imp_right (mem_cancels_turn hturn)) (Or.imp hstarts hgives)
  · have hstage := M.stage_of_open (hrunning ▸ rfl) hi ⟨rfl, rfl, rfl⟩
    exact Or.inr (Or.inr (hgives (D.settle _ r hstage)))
  · exact Or.inl ⟨hcut, mem_cancels_turn hturn hcancel⟩
  · refine Or.inr (Or.inl (hstarts fun hmem => ?_))
    obtain ⟨x, hx, rfl⟩ := List.mem_map.mp hmem
    exact h.ne_pending_of_begun x hx hpending

theorem Minded.head_turn : ∀ n, (n, t) ∈ d.begun →
    (d.machine.state t).isTerminal = true ∨ ∃ j, d.machine.AtBody n t j := by
  have hadv := h.governed.advances_step (turn_step hturn)
  intro n hn
  rcases begun_turn hturn hn with hold | ⟨rfl, hpending, -⟩
  · rcases M.head n hold with hterminal | ⟨i, hi⟩
    · exact Or.inl (hadv.final t hterminal ▸ hterminal)
    · rcases M.atBody_turn h hturn hi (h.ne_pending_of_begun _ hold) with
        hterminal | ⟨-, hi⟩ | ⟨j, hj, -⟩
      · exact Or.inl hterminal
      · exact Or.inr ⟨i, hi⟩
      · exact Or.inr ⟨j, hj⟩
  · -- it begins now
    have hnew : (n, t) ∉ c.begun := fun hn => h.ne_pending_of_begun _ hn hpending
    unfold begun at hn
    cases turn_turn hturn with
    | @carried s i rest code m₁ answer added hs hexited hcode hexec hadded hd hevents =>
      rw [hevents] at hn
      obtain ⟨-, rfl, hstart⟩ := begun?_eq_some ((mem_filterMap_concat.mp hn).resolve_left hnew)
      have hself := strand_self hs (congrArg Machine.strands hd)
      cases exec_ruled hexec with
      | start => exact Or.inr ⟨.enter t, _, rest, hself, hexited, rfl, rfl⟩
      | startLate hlate => cases start?_eq_none hlate ▸ hstart
    | found _ _ _ _ _ _ hevents =>
      rw [hevents] at hn
      exact absurd hn hnew

theorem Minded.turn : d.Minded D where
  furnished := h.borne.furnished_turn h.governed hturn M.furnished
  bodies := M.bodies_turn h hturn
  result := M.result_turn h hturn
  head := M.head_turn h hturn

end Turn

theorem Minded.move {m : Machine α} (M : c.Minded D) (h : (start config workers).Reaches c)
    (hmove : c.machine.Move m) : Minded D { c with machine := m } := by
  have haround := hmove.around
  have hterminal : (c.machine.state t).isTerminal = true → (m.state t).isTerminal = true :=
    fun hterminal => haround.advances.final t hterminal ▸ hterminal
  obtain ⟨x, hx, hbody⟩ := M.furnished
  have hx' := haround.beside.getElem?_tasks hx
  refine
    { furnished := ⟨x, hx', fun hneeded => hbody (hneeded.imp_right fun hheld => ?furnished)⟩,
      bodies := fun j hj hbears => ?bodies, result := fun r hr => ?result,
      head := fun n hn => ?head }
  case furnished => exact (haround.of_holds hheld).resolve_right fun hcall => hcall.1
  case bodies =>
    rcases haround.of_holds hj with hj | ⟨hcall, -⟩
    · exact (M.bodies j hj hbears).imp hterminal (D.stage_move c h m hmove j)
    · have haloof := Instr.bearer?_of_isAloof hcall.isAloof
      cases haloof.symm.trans (Instr.bearer?_eq_some.mpr hbears)
  case result =>
    refine (M.result r ?_).imp_right (Or.imp_right (D.gives_move c h m hmove r))
    rw [(cell_eq hx).2.1]
    exact (cell_eq hx').2.1 ▸ hr
  case head => exact (M.head n hn).imp hterminal fun ⟨j, hj⟩ => ⟨j, hj.around haround⟩

/-- A task that waits to be started. -/
theorem Reaches.minded_of_pending {x : TaskCell α} (h : (start config workers).Reaches c)
    (hx : c.machine.tasks[t]? = some x) (hbody : x.body = some body)
    (hpending : x.state = .pending) (D : Conduct config workers t body) : c.Minded D := by
  have hstate : c.machine.state t = .pending := (cell_eq hx).1.trans hpending
  have hnot : ∀ n, (n, t) ∉ c.begun := fun n hn => h.ne_pending_of_begun _ hn hstate
  refine ⟨⟨x, hx, fun _ => Or.inr hbody⟩, fun j hj hbears => ?_, fun r hr => ?_,
    fun n hn => absurd hn (hnot n)⟩
  · refine absurd (mem_held.mpr ⟨j, hj, ?_⟩) (h.borne.begun t hstate)
    exact Instr.bearer?_eq_some.mpr hbears
  · have hsome := h.isSome_outcome t
    rw [hr, hstate] at hsome
    cases hsome

/-! ### Runs -/

/-- Let a task be there that waits to be started, and let the machine run in any way. -/
theorem Conduct.minded {c₀ : Chronicle α} {x : TaskCell α} (D : Conduct config workers t body)
    (h₀ : (start config workers).Reaches c₀) (hx : c₀.machine.tasks[t]? = some x)
    (hbody : x.body = some body) (hpending : x.state = .pending) (h : c₀.Reaches c) :
    c.Minded D := by
  induction h with
  | refl => exact h₀.minded_of_pending hx hbody hpending D
  | turn hreach heedStop self hturn ih => exact ih.turn (h₀.trans hreach) hturn
  | move hreach hmove ih => exact ih.move (h₀.trans hreach) hmove

theorem Conduct.gives_later (D : Conduct config workers t body)
    (hc : (start config workers).Reaches c) (h : c.Reaches d) {r : TaskResult α}
    (hr : D.gives c.machine r) : D.gives d.machine r := by
  induction h with
  | refl => exact hr
  | turn hreach heedStop self hturn ih =>
    exact D.gives_turn _ _ (hc.trans hreach) heedStop self hturn r ih
  | move hreach hmove ih => exact D.gives_move _ (hc.trans hreach) _ hmove r ih

theorem Minded.later (M : c.Minded D) (hc : (start config workers).Reaches c) (h : c.Reaches d) :
    d.Minded D := by
  induction h with
  | refl => exact M
  | turn hreach heedStop self hturn ih => exact ih.turn (hc.trans hreach) hturn
  | move hreach hmove ih => exact ih.move (hc.trans hreach) hmove

/-- **A task that was started and not cancelled settles with what its body gives.** -/
theorem Minded.result_eq (M : c.Minded D) (hn : (n, t) ∈ c.begun) {r : TaskResult α}
    (hr : c.machine.outcome t = some r) :
    r = .error .cancelled ∧ t ∈ c.cancels ∨ D.gives c.machine r :=
  (M.result r hr).imp_right (Or.resolve_left · (not_not.mpr (List.mem_map.mpr ⟨_, hn, rfl⟩)))

/-- The task settles, or each of its steps brings the strand at the body nearer to the end. -/
theorem Minded.nearer (M : c.Minded D) (hc : (start config workers).Reaches c)
    (hn : (n, t) ∈ c.begun) (h : c.Reaches d) :
    (d.machine.state t).isTerminal = true ∨ ∃ j, d.machine.AtBody n t j ∧
      d.stepsOf n + D.stepsLeft j ≤ c.stepsOf n + D.stepsLeft (.enter t) := by
  induction h with
  | refl =>
    rcases M.head n hn with hterminal | ⟨j, hj⟩
    · exact Or.inl hterminal
    · obtain ⟨hheld, hbears⟩ := hj.holds
      refine (M.bodies j hheld hbears).imp_right fun hstage => ⟨j, hj, ?_⟩
      exact Nat.add_le_add_left (D.stepsLeft_le _ j hbears hstage).2 _
  | @turn d e hreach heedStop self hturn ih =>
    have hd := hc.trans hreach
    rcases ih with hterminal | ⟨j, hj, hle⟩
    · exact Or.inl ((hd.governed.advances_step (turn_step hturn)).final t hterminal ▸ hterminal)
    · have hbegun := hd.ne_pending_of_begun _ (hreach.mem_begun hn)
      rcases (M.later hc hreach).atBody_turn hd hturn hj hbegun with
        hterminal | ⟨hsteps, hj⟩ | ⟨k, hk, hsteps, hless⟩
      · exact Or.inl hterminal
      · exact Or.inr ⟨j, hj, hsteps ▸ hle⟩
      · exact Or.inr ⟨k, hk, by omega⟩
  | @move d hreach m hmove ih =>
    rcases ih with hterminal | ⟨j, hj, hle⟩
    · exact Or.inl (hmove.around.advances.final t hterminal ▸ hterminal)
    · exact Or.inr ⟨j, hj.around hmove.around, hle⟩

/-- **Whoever is at the body does not wait when there is something to give**, however things go on,
and has settled the task after as many steps as a body takes. -/
theorem Minded.goes_on (M : c.Minded D) (hc : (start config workers).Reaches c)
    (hn : (n, t) ∈ c.begun) (h : c.Reaches d) {r : TaskResult α} (hr : D.gives c.machine r)
    (hopen : d.machine.outcome t = none) :
    (∀ heedStop, d.turn heedStop n ≠ none)
      ∧ d.stepsOf n < c.stepsOf n + D.stepsLeft (.enter t) := by
  have hd := hc.trans h
  have hopen' := hd.isSome_outcome t
  rw [hopen] at hopen'
  obtain ⟨j, hj, hle⟩ := (M.nearer hc hn h).resolve_left (Bool.eq_false_iff.mp hopen'.symm)
  obtain ⟨hheld, hbears⟩ := hj.holds
  have hstage := (M.later hc h).stage_of_open hopen'.symm hheld hbears
  refine ⟨fun heedStop hnone => ?_, ?_⟩
  · obtain ⟨s, rest, hs, hexited, hcode, -⟩ := hj
    have hstep := Option.map_eq_none_iff.mp hnone
    simp only [step, hs, hexited, hcode] at hstep
    exact D.ready d hd j r hbears hstage (D.gives_later hc h hr) heedStop n
      (Option.map_eq_none_iff.mp hstep)
  · have hpos := (D.stepsLeft_le _ j hbears hstage).1
    omega

/-- At rest a task that was started has settled if its body has something to give. -/
theorem Minded.isSome_of_atRest (M : c.Minded D) (hc : (start config workers).Reaches c)
    (hn : (n, t) ∈ c.begun) (hrest : c.machine.AtRest) {r : TaskResult α}
    (hr : D.gives c.machine r) : ∃ r', c.machine.outcome t = some r' := by
  cases hopen : c.machine.outcome t with
  | some r' => exact ⟨r', rfl⟩
  | none =>
    have hturn := (M.goes_on hc hn .refl hr hopen).1 false
    exact absurd (Option.map_eq_none_iff.mpr (hrest 0 false n)) hturn

end Chronicle

end ManagedHost
