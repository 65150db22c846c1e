import ManagedHost.Proofs.Loop.Phases
import Mathlib.Data.List.Nodup

/-!
# Which timers are registered

A timer is registered when it is added, and is taken off the list when it is looked at and turns out
to be cancelled, when it fires for the last time, or when the loop is stopped.  `Machine.Roster`
says which timers are on the list at any time: each once, only such that are still to fire, and of
these all that are not cancelled, until the loop is stopped (`Machine.Reaches.roster`).
-/

namespace ManagedHost

variable {α : Type}

/-- Whether the timer has not handed out the task that it has armed. -/
def TimerCell.Loaded (b : TimerCell α) : Prop := b.repeating.isSome = true ∨ b.fired = 0

/-- A timer that has fired and can fire again repeats. -/
theorem TimerCell.isSome_of_loaded_fire {b : TimerCell α} {now : Nat} {fresh : TaskId}
    (h : (b.fire now fresh).Loaded) : b.repeating.isSome = true := by
  refine (b.fire_repeating ▸ h.resolve_right ?_ : b.repeating.isSome = true)
  rw [fire_fired]
  exact Nat.succ_ne_zero _

/-- A timer that is to fire and not cancelled was so before. -/
theorem TimerEffect.open_before {fresh : TaskId}
    {timers timers' : List (TimerCell α)} {i : Instr α} {code : List (Instr α)} {k : Nat}
    {b' : TimerCell α}
    (h : TimerEffect fresh timers i code timers') (hb' : timers'[k]? = some b')
    (hopen : b'.cancelled = false) (hloaded : b'.Loaded) :
    ∃ b, timers[k]? = some b ∧ b.cancelled = false ∧ b.Loaded := by
  obtain ⟨b, hb, rfl | ⟨-, rfl, -⟩ | ⟨now, todo, due, -, rfl, -⟩⟩ := h.cell hb'
  · exact ⟨b', hb, hopen, hloaded⟩
  · cases hopen
  · exact ⟨b, hb, b.fire_cancelled ▸ hopen, Or.inl (TimerCell.isSome_of_loaded_fire hloaded)⟩

namespace Machine

variable {m m' m₁ : Machine α} {t : TaskId} {self : Nat} {heedStop : Bool} {i j : Instr α}
  {code rest : List (Instr α)} {s : Strand α}

/-! ### What an instruction does to the list -/

/-- **What an instruction does to the list of the registered timers**: nothing, or it drops one that
has nothing to hand out any more or is cancelled, or it cancels all of them. -/
inductive Enrols (m : Machine α) (i : Instr α) (code : List (Instr α)) (registered : List Nat)
    (timers : List (TimerCell α)) : Prop where
  | same (hsame : registered = m.loop.timers)
      (hloaded : ∀ (k : Nat) (b b' : TimerCell α), m.timers[k]? = some b →
        timers[k]? = some b' → b.Loaded → b'.Loaded)
  | dropped {n : Nat} (hdropped : registered = m.loop.timers.erase n)
      (hspent : ∀ b : TimerCell α, timers[n]? = some b → b.cancelled = true ∨ ¬ b.Loaded)
      (hother : ∀ k, k ≠ n → timers[k]? = m.timers[k]?)
  | swept (hi : i = .sweepLoop) (hnone : registered = [])
      (hcancels : ∀ n ∈ m.loop.timers, .cancelTimer n ∈ code)

theorem enrols_same : m.Enrols i code m.loop.timers m.timers := by
  refine .same rfl fun k b b' hb hb' hloaded => ?_
  obtain rfl := Option.some.inj (hb.symm.trans hb')
  exact hloaded

/-- A timer is changed that is still to fire if it was before. -/
theorem enrols_set {k : Nat} {b c : TimerCell α} (hb : m.timers[k]? = some b)
    (hloaded : b.Loaded → c.Loaded) : m.Enrols i code m.loop.timers (m.timers.set k c) := by
  refine .same rfl fun n a a' ha ha' h => ?_
  by_cases hn : k = n
  · subst hn
    rw [List.getElem?_set_self (List.getElem?_eq_some_iff.mp hb).1] at ha'
    obtain rfl := Option.some.inj ha'
    obtain rfl := Option.some.inj (hb.symm.trans ha)
    exact hloaded h
  · rw [List.getElem?_set_ne hn] at ha'
    obtain rfl := Option.some.inj (ha.symm.trans ha')
    exact h

theorem Rule.enrols (h : m.Rule heedStop self i m' code) :
    m.Enrols i code m'.loop.timers m'.timers := by
  cases h with
  | scanDrop hlate => exact .dropped rfl (fun b hb => Or.inl (hlate b hb)) fun _ _ => rfl
  | fireOnce hc hdue honce =>
    refine .dropped rfl (fun b hb => Or.inr fun hloaded => ?_) fun k hk =>
      List.getElem?_set_ne hk.symm
    obtain rfl := Option.some.inj
      ((List.getElem?_set_self (List.getElem?_eq_some_iff.mp hc).1).symm.trans hb)
    have hrepeats := TimerCell.isSome_of_loaded_fire hloaded
    rw [honce] at hrepeats
    cases hrepeats
  | fireAgain hc hdue hagain =>
    refine enrols_set hc fun _ => Or.inl ?_
    rw [TimerCell.fire_repeating, hagain]
    rfl
  | cancelTimer hc => exact enrols_set hc id
  | sweepLoop =>
    exact .swept rfl rfl fun n hn => List.mem_append_left _ (List.mem_map_of_mem hn)
  | @submitRefused t who | @enqueueRefused t who | @enqueue t who => cases who <;> exact enrols_same
  | _ => exact enrols_same

/-! ### The list -/

/-- **Which timers are registered**: each once, only such that are still to fire, and of these all
that are not cancelled, until the loop is stopped. -/
structure Roster (m : Machine α) : Prop where
  nodup : m.loop.timers.Nodup
  loaded : ∀ k ∈ m.loop.timers, ∃ b, m.timers[k]? = some b ∧ b.Loaded
  listed : ∀ (k : Nat) (b : TimerCell α), m.timers[k]? = some b → b.cancelled = false → b.Loaded →
    k ∈ m.loop.timers ∨ m.loop.phase = .stopped ∧ m.Holds (.cancelTimer k)
  /-- The timers are taken off the list when the loop has stopped. -/
  closing : m.Holds .joinThreads ∨ m.Holds .sweepLoop → m.loop.phase = .stopped

theorem roster_initial (config : LoopConfig) (workers : Nat) :
    (initial config workers : Machine α).Roster where
  nodup := List.nodup_nil
  loaded _ hk := absurd hk List.not_mem_nil
  listed _ _ hb := absurd hb (Option.not_mem_none _)
  closing h := by
    rcases h with ⟨_, hs, _⟩ | ⟨_, hs, _⟩
    · exact absurd hs List.not_mem_nil
    · exact absurd hs List.not_mem_nil

/-- A call of stop waits for the threads of the loop only after it has stopped the loop. -/
theorem Roster.closing_carried (h : m.Roster) (hi : m.Holds i)
    (hexec : m.exec heedStop self i = some (m₁, code)) (hj : j ∈ code)
    (hj' : j = .joinThreads ∨ j = .sweepLoop) : m₁.loop.phase = .stopped := by
  have hexecutes := exec_executes heedStop i m₁ code hexec
  cases hexecutes.leaves j hj with
  | grounded _ hsequel =>
    rcases hj' with rfl | rfl
    · exact absurd trivial hsequel
    · exact absurd trivial hsequel
  | submitted => exact absurd hj' (by simp)
  | told => exact absurd hj' (by simp)
  | marked =>
    have hloop := hexecutes.loop
    generalize m₁.loop = l at hloop ⊢
    cases hloop with
    | same hi => exact absurd trivial hi
    | marked => rfl
    | idle => exact absurd hj List.not_mem_nil
    | dropped hi => exact hi.elim
  | joined => exact hexecutes.loop.phase_stopped (h.closing (Or.inl hi))

theorem Enrols.nodup (h : m.Enrols i code m'.loop.timers m'.timers) (roster : m.Roster) :
    m'.loop.timers.Nodup := by
  cases h with
  | same hsame => exact hsame ▸ roster.nodup
  | dropped hdropped => exact hdropped ▸ roster.nodup.erase _
  | swept _ hnone => exact hnone ▸ List.nodup_nil

theorem Enrols.loaded (h : m.Enrols i code m'.loop.timers m'.timers) (roster : m.Roster)
    (hlength : m'.timers.length = m.timers.length) {k : Nat} (hk : k ∈ m'.loop.timers) :
    ∃ b, m'.timers[k]? = some b ∧ b.Loaded := by
  cases h with
  | same hsame hloaded =>
    obtain ⟨b, hb, hb'⟩ := roster.loaded k (hsame ▸ hk)
    have hlt : k < m'.timers.length := hlength ▸ (List.getElem?_eq_some_iff.mp hb).1
    have hnow := List.getElem?_eq_getElem hlt
    exact ⟨_, hnow, hloaded k b _ hb hnow hb'⟩
  | @dropped n hdropped _ hother =>
    rw [hdropped] at hk
    obtain ⟨hne, hmem⟩ := (List.Nodup.mem_erase_iff roster.nodup).mp hk
    obtain ⟨b, hb, hb'⟩ := roster.loaded k hmem
    exact ⟨b, (hother k hne).trans hb, hb'⟩
  | swept _ hnone => exact absurd (hnone ▸ hk) List.not_mem_nil

/-- A timer that is to fire and not cancelled stays on the list until all are cancelled. -/
theorem Enrols.listed (h : m.Enrols i code m'.loop.timers m'.timers) {k : Nat} {b : TimerCell α}
    (hb : m'.timers[k]? = some b) (hopen : b.cancelled = false) (hloaded : b.Loaded)
    (hk : k ∈ m.loop.timers) :
    k ∈ m'.loop.timers ∨ i = .sweepLoop ∧ .cancelTimer k ∈ code := by
  cases h with
  | same hsame => exact Or.inl (hsame ▸ hk)
  | @dropped n hdropped hspent =>
    have hne : k ≠ n := by
      rintro rfl
      rcases hspent b hb with hcancelled | hspent
      · cases hopen.symm.trans hcancelled
      · exact hspent hloaded
    exact Or.inl (hdropped ▸ (List.mem_erase_of_ne hne).mpr hk)
  | swept hi _ hcancels => exact Or.inr ⟨hi, hcancels k hk⟩

theorem Roster.carried {answer : Option (TaskResult Unit)} {added : List (Strand α)}
    (h : m.Roster) (hs : m.strands[self]? = some s) (hcode : s.code = i :: rest)
    (hexec : m.exec heedStop self i = some (m₁, code)) (hadded : ∀ a ∈ added, a.IsSetup)
    (hm' : m' = { m₁ with
      strands := m.strands.set self { s with code := code ++ rest, answer } ++ added }) :
    m'.Roster := by
  obtain ⟨hi, hstays, hnew, hfrom⟩ := holds_carried hs hcode hadded (congrArg strands hm')
  have hrule := exec_ruled hexec
  have hloop : LoopEffect m.loop i code m'.loop := hm' ▸ hrule.loop
  have htimers : TimerEffect m.tasks.length m.timers i code m'.timers := hm' ▸ hrule.timers
  have henrols : m.Enrols i code m'.loop.timers m'.timers := hm' ▸ hrule.enrols
  refine
    { nodup := henrols.nodup h, loaded := fun k => henrols.loaded h htimers.length_eq,
      listed := fun k b' hb' hopen hloaded => ?listed, closing := fun hclosing => ?closing }
  case listed =>
    obtain ⟨b, hb, hopen', hloaded'⟩ := htimers.open_before hb' hopen hloaded
    rcases h.listed k b hb hopen' hloaded' with hk | ⟨hphase, hholds⟩
    · refine (henrols.listed hb' hopen hloaded hk).imp_right fun ⟨hi', hcancels⟩ => ?_
      exact ⟨hloop.phase_stopped (h.closing (Or.inr (hi' ▸ hi))), hnew _ hcancels⟩
    · refine Or.inr ⟨hloop.phase_stopped hphase, (hstays _ hholds).resolve_left fun heq => ?_⟩
      subst heq
      cases hopen.symm.trans (htimers.cancelled_of hb')
  case closing =>
    have hheld : ∀ j : Instr α, m'.Holds j → j = .joinThreads ∨ j = .sweepLoop →
        m'.loop.phase = .stopped := by
      intro j hj hj'
      rcases hfrom j hj with hj | hj | ⟨p, setup, rfl⟩
      · have hphase := h.closing_carried hi hexec hj hj'
        rw [hm']
        exact hphase
      · exact hloop.phase_stopped (h.closing (by rcases hj' with rfl | rfl <;> simp [hj]))
      · exact absurd hj' (by simp)
    exact hclosing.elim (hheld _ · (Or.inl rfl)) (hheld _ · (Or.inr rfl))

theorem Roster.found {role : Role} {exited : Bool} (h : m.Roster)
    (hs : m.strands[self]? = some s) (hcode : s.code = []) (hfinds : m.Finds role m₁ code exited)
    (hm' : m' = { m₁ with strands := m.strands.set self { s with code, exited } }) :
    m'.Roster := by
  obtain ⟨hstays, -, hfrom⟩ := holds_found hs hcode (congrArg strands hm')
  have htimers : m'.timers = m.timers := hm' ▸ hfinds.timers_eq.1
  have hregistered : m'.loop.timers = m.loop.timers := hm' ▸ hfinds.timers_eq.2
  have hphase : m'.loop.phase = m.loop.phase := hm' ▸ hfinds.loop_eq.1
  have hheld : ∀ j : Instr α, m'.Holds j → j.IsSequel → m.Holds j := fun j hj hsequel =>
    (hfrom j hj).resolve_left fun hj => hfinds.not_isSequel j hj hsequel
  refine
    { nodup := hregistered ▸ h.nodup, loaded := ?loaded,
      listed := fun k b hb hopen hloaded => ?listed, closing := fun hclosing => ?closing }
  case loaded =>
    rw [hregistered, htimers]
    exact h.loaded
  case listed =>
    rw [hregistered, hphase]
    exact (h.listed k b (htimers ▸ hb) hopen hloaded).imp_right (And.imp_right (hstays _))
  case closing =>
    rw [hphase]
    exact h.closing (hclosing.imp (hheld _ · trivial) (hheld _ · trivial))

theorem Roster.step (h : m.Roster) (hstep : m.step heedStop self = some m') : m'.Roster := by
  cases step_turn hstep with
  | carried hs _ hcode hexec hadded hm' => exact h.carried hs hcode hexec hadded hm'
  | found hs _ _ hcode hfinds hm' => exact h.found hs hcode hfinds hm'

/-! ### Callers -/

section AddTimer

variable {delay : Nat} {repeating : Bool} {body : Body α}

/-- What adding a timer does to the timers and the tasks. -/
theorem addTimer_frame (m : Machine α) (delay : Nat) (repeating : Bool) (body : Body α) :
    (m.addTimer delay repeating body).2.timers = m.timers ++
        [{ repeating := if repeating then some (delay, body) else none
           nextRun := m.clock + delay
           armed := m.tasks.length }] ∧
      (m.addTimer delay repeating body).2.tasks = m.tasks ++ [TaskCell.ofBody body] := by
  unfold addTimer
  dsimp only
  by_cases hphase : (m.newTask body).2.loop.phase = .stopped
  · rw [if_pos hphase]
    exact ⟨rfl, rfl⟩
  · rw [if_neg hphase]
    exact ⟨rfl, rfl⟩

/-- A timer was there before another was added, or it is the new one. -/
theorem cell_addTimer {k : Nat} {b : TimerCell α}
    (hb : (m.addTimer delay repeating body).2.timers[k]? = some b) :
    m.timers[k]? = some b ∨ k = m.timers.length ∧ b =
      { repeating := if repeating then some (delay, body) else none
        nextRun := m.clock + delay
        armed := m.tasks.length } := by
  rw [(m.addTimer_frame delay repeating body).1] at hb
  rcases Nat.lt_or_ge k m.timers.length with hk | hk
  · rw [List.getElem?_append_left hk] at hb
    exact Or.inl hb
  · exact Or.inr (eq_of_getElem?_append_one hk hb)

/-- A new timer is registered unless the loop has stopped. -/
theorem addTimer_registered (m : Machine α) (delay : Nat) (repeating : Bool) (body : Body α) :
    (m.addTimer delay repeating body).2.loop.timers =
      m.loop.timers ++ if m.loop.phase = .stopped then [] else [m.timers.length] := by
  unfold addTimer
  dsimp only
  by_cases hphase : m.loop.phase = .stopped
  · rw [if_pos hphase, if_pos (by exact hphase), List.append_nil]
    rfl
  · rw [if_neg hphase, if_neg (by exact hphase)]
    rfl

end AddTimer

/-- Only adding a timer changes the timers or registers one. -/
theorem Move.timers_eq (h : m.Move m') : (∃ (delay : Nat) (repeating : Bool) (body : Body α),
    (TaskCell.ofBody body).parent = none ∧ m' = (m.addTimer delay repeating body).2) ∨
    m'.timers = m.timers ∧ m'.loop.timers = m.loop.timers := by
  cases h with
  | addTimer delay repeating body hbody => exact Or.inl ⟨delay, repeating, body, hbody, rfl⟩
  | startLoop =>
    refine Or.inr ?_
    unfold Machine.startLoop
    split_ifs <;> exact ⟨rfl, rfl⟩
  | startScheduler =>
    refine Or.inr ?_
    unfold Machine.startScheduler Machine.startLoop
    split_ifs <;> exact ⟨rfl, rfl⟩
  | schedule t priority deadline h =>
    obtain ⟨scheduler, rfl⟩ := schedule_eq h
    exact Or.inr ⟨rfl, rfl⟩
  | resolve t result h =>
    obtain ⟨promises, rfl⟩ := resolve?_eq h
    exact Or.inr ⟨rfl, rfl⟩
  | release =>
    obtain ⟨gate, hgate⟩ := m.release_eq
    rw [hgate]
    exact Or.inr ⟨rfl, rfl⟩
  | _ => exact Or.inr ⟨rfl, rfl⟩

theorem Roster.closing_around (h : m.Roster) (hm' : m.Around m')
    (hclosing : m'.Holds .joinThreads ∨ m'.Holds .sweepLoop) : m'.loop.phase = .stopped := by
  refine hm'.phase_stopped (h.closing (hclosing.imp (fun hj => ?_) fun hj => ?_))
  · exact (hm'.of_holds hj).resolve_right fun hcall => hcall.1
  · exact (hm'.of_holds hj).resolve_right fun hcall => hcall.1

theorem Roster.addTimer (h : m.Roster) {delay : Nat} {repeating : Bool} {body : Body α}
    (hbody : (TaskCell.ofBody body).parent = none) :
    (m.addTimer delay repeating body).2.Roster := by
  have hm' : m.Around (m.addTimer delay repeating body).2 := around_addTimer hbody
  obtain ⟨htimers, -⟩ := m.addTimer_frame delay repeating body
  have hnew := m.addTimer_registered delay repeating body
  have hunlisted : m.timers.length ∉ m.loop.timers := by
    intro hk
    obtain ⟨b, hb, -⟩ := h.loaded _ hk
    exact absurd (List.getElem?_eq_some_iff.mp hb).1 (Nat.lt_irrefl _)
  refine
    { nodup := ?nodup, loaded := fun k hk => ?loaded, listed := fun k b hb hopen hloaded => ?listed,
      closing := h.closing_around hm' }
  case nodup =>
    rw [hnew]
    split_ifs
    · rw [List.append_nil]
      exact h.nodup
    · exact List.nodup_append.mpr ⟨h.nodup, List.nodup_singleton _, fun a ha b hb heq =>
        hunlisted (List.mem_singleton.mp hb ▸ heq ▸ ha)⟩
  case loaded =>
    rw [hnew] at hk
    rcases List.mem_append.mp hk with hk | hk
    · obtain ⟨b, hb, hloaded⟩ := h.loaded k hk
      refine ⟨b, ?_, hloaded⟩
      rw [htimers, List.getElem?_append_left (List.getElem?_eq_some_iff.mp hb).1]
      exact hb
    · split_ifs at hk
      · exact absurd hk List.not_mem_nil
      · rw [List.mem_singleton.mp hk, htimers]
        exact ⟨_, List.getElem?_concat_length, Or.inr rfl⟩
  case listed =>
    rcases cell_addTimer hb with hb | ⟨rfl, -⟩
    · refine (h.listed k b hb hopen hloaded).imp (fun hk => ?_) fun ⟨hphase, hholds⟩ =>
        ⟨hm'.phase_stopped hphase, hm'.holds hholds⟩
      rw [hnew]
      exact List.mem_append_left _ hk
    · by_cases hphase : m.loop.phase = .stopped
      · refine Or.inr ⟨hm'.phase_stopped hphase, ?_⟩
        unfold Machine.addTimer
        dsimp only
        rw [if_pos (by exact hphase)]
        exact ⟨_, List.mem_append_right _ (List.mem_singleton_self _), List.mem_singleton_self _⟩
      · rw [hnew, if_neg hphase]
        exact Or.inl (List.mem_append_right _ (List.mem_singleton_self _))

/-- What callers do keeps the list of the registered timers in order. -/
theorem Roster.move (h : m.Roster) (hmove : m.Move m') : m'.Roster := by
  rcases hmove.timers_eq with ⟨_, _, _, hbody, rfl⟩ | ⟨htimers, hregistered⟩
  · exact h.addTimer hbody
  · have haround := hmove.around
    refine ⟨hregistered ▸ h.nodup, ?_, fun k b hb hopen hloaded => ?_, h.closing_around haround⟩
    · rw [hregistered, htimers]
      exact h.loaded
    · rw [hregistered]
      exact (h.listed k b (htimers ▸ hb) hopen hloaded).imp_right fun ⟨hphase, hholds⟩ =>
        ⟨haround.phase_stopped hphase, haround.holds hholds⟩

/-- **In every run** the registered timers are those that are still to fire and not cancelled, until
the loop is stopped. -/
theorem Reaches.roster (h : m.Reaches m') (roster : m.Roster) : m'.Roster := by
  induction h with
  | refl => exact roster
  | step _ heedStop self hstep ih => exact ih.step hstep
  | move _ hmove ih => exact ih.move hmove

/-- A timer of a loop that has no timers registered is cancelled, has fired for the last time, or is
about to be cancelled. -/
theorem Roster.of_nil (h : m.Roster) (hnone : m.loop.timers = []) {k : Nat} {b : TimerCell α}
    (hb : m.timers[k]? = some b) :
    b.cancelled = true ∨ ¬ b.Loaded ∨ m.Holds (.cancelTimer k) := by
  by_cases hcancelled : b.cancelled = true
  · exact Or.inl hcancelled
  by_cases hloaded : b.Loaded
  · rcases h.listed k b hb (Bool.eq_false_iff.mpr hcancelled) hloaded with hmem | ⟨-, hholds⟩
    · rw [hnone] at hmem
      exact absurd hmem List.not_mem_nil
    · exact Or.inr (Or.inr hholds)
  · exact Or.inr (Or.inl hloaded)

end Machine

theorem Chronicle.Reaches.roster {config : LoopConfig} {workers : Nat} {c : Chronicle α}
    (h : (Chronicle.start config workers).Reaches c) : c.machine.Roster :=
  h.machine.roster (Machine.roster_initial config workers)

end ManagedHost
