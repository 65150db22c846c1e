import ManagedHost.Proofs.Timer.Roster

/-!
# Looking at timers

The ticker looks at the registered timers one after the other: one that it finds to be cancelled is
dropped, and any other fires if its time has come.  While it is at that it does nothing else, and
there is only one ticker (`Machine.Scanning`).  So a timer that it has yet to look at has not fired
since the round began, and is still to hand out its task.
-/

namespace ManagedHost

variable {α : Type}

namespace Instr

/-- The timers that are still to be looked at, if the instruction is part of a look at them. -/
def ahead? : Instr α → Option (List Nat)
  | scanTimers _ todo _ => some todo
  | pollTimer _ k todo _ => some (k :: todo)
  | _ => none

theorem IsCall.ahead?_eq_none {i : Instr α} (h : i.IsCall) : i.ahead? = none := by
  cases i with
  | scanTimers => exact h.elim
  | pollTimer => exact h.elim
  | _ => rfl

theorem ahead?_eq_none_of_all {code : List (Instr α)} (h : code.all (·.ahead?.isNone) = true) :
    ∀ j ∈ code, j.ahead? = none := fun j hj =>
  Option.isNone_iff_eq_none.mp (List.all_eq_true.mp h j hj)

end Instr

/-- A timer that is to hand out its task is so after any instruction that does not let it fire. -/
theorem TimerEffect.loaded {fresh : TaskId} {timers timers' : List (TimerCell α)} {k : Nat}
    {i : Instr α} {code : List (Instr α)} (h : TimerEffect fresh timers i code timers')
    (hk : ∃ b, timers[k]? = some b ∧ b.Loaded)
    (hnot : ∀ now todo due, i ≠ .pollTimer now k todo due) :
    ∃ b, timers'[k]? = some b ∧ b.Loaded := by
  obtain ⟨b, hb, hloaded⟩ := hk
  have hlt : k < timers'.length := h.length_eq ▸ (List.getElem?_eq_some_iff.mp hb).1
  refine ⟨_, List.getElem?_eq_getElem hlt, ?_⟩
  obtain ⟨c, hc, heq | ⟨-, heq, -⟩ | ⟨now, todo, due, -, -, hi, -⟩⟩ :=
    h.cell (List.getElem?_eq_getElem hlt)
  · obtain rfl := Option.some.inj (hb.symm.trans hc)
    rwa [heq]
  · obtain rfl := Option.some.inj (hb.symm.trans hc)
    rw [heq]
    exact hloaded
  · exact absurd hi (hnot now todo due)

namespace Machine

variable {m m' m₁ : Machine α} {self : Nat} {heedStop : Bool} {i j : Instr α}
  {code rest : List (Instr α)} {s : Strand α}

/-! ### Parts of a look -/

/-- **A look goes on with the timers that are left**, and no other instruction begins one. -/
theorem Rule.ahead? (h : m.Rule heedStop self i m' code) :
    (∀ j ∈ code, j.ahead? = none) ∨ ∃ j todo, code = [j] ∧ j.ahead? = some todo ∧
      ((∃ now due, i = .scanTimers now todo due) ∨ ∃ k, i.ahead? = some (k :: todo)) := by
  cases h with
  | scanDrop | pollEarly | fireOnce | fireAgain =>
    exact Or.inr ⟨_, _, rfl, rfl, Or.inr ⟨_, rfl⟩⟩
  | scanFind => exact Or.inr ⟨_, _, rfl, rfl, Or.inl ⟨_, _, rfl⟩⟩
  -- the others are not looks, or end one
  | scanDone => exact Or.inl (Instr.ahead?_eq_none_of_all (all_due (fun _ => rfl) _))
  | settle => exact Or.inl (Instr.ahead?_eq_none_of_all (all_settled rfl rfl rfl _ _))
  | settleLate => exact Or.inl (Instr.ahead?_eq_none_of_all (all_retried rfl _))
  | dispatch =>
    exact Or.inl (Instr.ahead?_eq_none_of_all (all_dispatched (fun _ => rfl) (fun _ => rfl) _ _))
  | @submitRefused t who | @enqueueRefused t who | @enqueue t who =>
    cases who <;> exact Or.inl (Instr.ahead?_eq_none_of_all rfl)
  | @microtask t caller | @microtaskRefused t caller =>
    cases caller <;> exact Or.inl (Instr.ahead?_eq_none_of_all rfl)
  | sweepLoop =>
    exact Or.inl (Instr.ahead?_eq_none_of_all (all_swept (fun _ => rfl) (fun _ => rfl) _ _))
  | stopScheduler =>
    exact Or.inl (Instr.ahead?_eq_none_of_all (all_drained rfl (fun _ => rfl) rfl _))
  | _ => exact Or.inl (Instr.ahead?_eq_none_of_all rfl)

/-- What a thread finds to do is not the rest of a look, but the ticker may begin one. -/
theorem Finds.ahead? {role : Role} {exited : Bool} (h : m.Finds role m' code exited) :
    (∀ j ∈ code, j.ahead? = none) ∨
      role = .timers ∧ code = [.scanTimers m.clock m.loop.timers []] := by
  cases h with
  | timers => exact Or.inr ⟨rfl, rfl⟩
  | microtasks =>
    refine Or.inl fun j hj => ?_
    obtain ⟨t, -, hj⟩ := List.mem_flatMap.mp hj
    have hnone : (runTask t : List (Instr α)).all (·.ahead?.isNone) = true := rfl
    exact Instr.ahead?_eq_none_of_all hnone j hj
  | _ => exact Or.inl (Instr.ahead?_eq_none_of_all rfl)

/-! ### The ticker -/

/-- Where the only ticker can be. -/
def TickerAt (strands : List (Strand α)) (n : Nat) : Prop :=
  ∀ k s, strands[k]? = some s → s.role = .timers → k = n

theorem tickerAt_of_none {strands : List (Strand α)} (h : ∀ s ∈ strands, s.role ≠ .timers)
    (n : Nat) : TickerAt strands n :=
  fun _ s hs hrole => absurd hrole (h s (List.mem_of_getElem? hs))

theorem tickerAt_append {strands added : List (Strand α)} {n k : Nat} (h : TickerAt strands n)
    (hadded : TickerAt added k)
    (hone : (∀ s ∈ strands, s.role ≠ .timers) ∨ ∀ s ∈ added, s.role ≠ .timers) :
    ∃ n, TickerAt (strands ++ added) n := by
  have hcases : ∀ l r, (strands ++ added)[l]? = some r → strands[l]? = some r ∨
      strands.length ≤ l ∧ added[l - strands.length]? = some r := by
    intro l r hr
    rcases Nat.lt_or_ge l strands.length with hl | hl
    · exact Or.inl (List.getElem?_append_left hl ▸ hr)
    · exact Or.inr ⟨hl, List.getElem?_append_right hl ▸ hr⟩
  rcases hone with hnone | hnone
  · refine ⟨strands.length + k, fun l r hr hrole => ?_⟩
    rcases hcases l r hr with hr | ⟨hl, hr⟩
    · exact absurd hrole (hnone r (List.mem_of_getElem? hr))
    · have := hadded _ r hr hrole
      omega
  · refine ⟨n, fun l r hr hrole => ?_⟩
    rcases hcases l r hr with hr | ⟨hl, hr⟩
    · exact h l r hr hrole
    · exact absurd hrole (hnone r (List.mem_of_getElem? hr))

/-- One of the threads of a loop is the ticker that looks at its timers. -/
theorem tickerAt_threads (workers : Nat) :
    TickerAt (List.replicate workers { role := .worker } ++
      [{ role := .microtasks }, { role := .timers }] : List (Strand α)) (workers + 1) := by
  intro k s hs hrole
  rcases Nat.lt_or_ge k workers with hk | hk
  · rw [List.getElem?_append_left (by rwa [List.length_replicate]),
      List.getElem?_replicate_of_lt hk] at hs
    obtain rfl := Option.some.inj hs
    cases hrole
  · rw [List.getElem?_append_right (by rwa [List.length_replicate]), List.length_replicate] at hs
    obtain ⟨l, rfl⟩ := Nat.exists_eq_add_of_le hk
    rw [Nat.add_sub_cancel_left] at hs
    match l, hs with
    | 0, hs =>
      obtain rfl := Option.some.inj hs
      cases hrole
    | 1, _ => rfl

/-- What is added to the strands by a move: no ticker, unless it starts the loop. -/
inductive Mans (m m' : Machine α) : Prop where
  | callers {new : List (Strand α)} (hstrands : m'.strands = m.strands ++ new)
      (hnone : ∀ s ∈ new, s.role ≠ .timers)
  | threads {new : List (Strand α)} (hstrands : m'.strands = m.strands ++ new) {n : Nat}
      (hone : TickerAt new n) (hidle : m.loop.phase = .idle) (hrunning : m'.loop.phase = .running)

theorem mans_of_eq (h : m'.strands = m.strands) : m.Mans m' :=
  .callers (h.trans (List.append_nil _).symm) fun _ hs => absurd hs List.not_mem_nil

theorem mans_startLoop (m : Machine α) : m.Mans m.startLoop := by
  unfold startLoop
  split_ifs with hidle
  · exact .threads rfl (tickerAt_threads _) hidle rfl
  · exact mans_of_eq rfl

theorem mans_startScheduler (m : Machine α) : m.Mans m.startScheduler := by
  unfold startScheduler
  split_ifs
  · -- the dispatcher comes behind the threads of the loop
    have hdispatcher : ∀ s ∈ [({ role := .dispatcher } : Strand α)], s.role ≠ .timers :=
      List.forall_mem_singleton.mpr nofun
    cases m.mans_startLoop with
    | callers hstrands hnone =>
      refine .callers ?_ (List.forall_mem_append.mpr ⟨hnone, hdispatcher⟩)
      exact (congrArg (· ++ _) hstrands).trans (List.append_assoc ..)
    | threads hstrands hone hidle hrunning =>
      obtain ⟨n, hn⟩ := tickerAt_append hone (tickerAt_of_none hdispatcher 0) (Or.inr hdispatcher)
      exact .threads ((congrArg (· ++ _) hstrands).trans (List.append_assoc ..)) hn hidle hrunning
  · exact mans_of_eq rfl

/-- **Only starting the loop adds a ticker**, and it adds one. -/
theorem Move.mans (h : m.Move m') : m.Mans m' := by
  cases h with
  | newTask | handles | elapse => exact mans_of_eq rfl
  | continueWith | call => exact .callers rfl (List.forall_mem_singleton.mpr nofun)
  | addTimer delay repeating body =>
    unfold Machine.addTimer
    dsimp only
    by_cases hphase : (m.newTask body).2.loop.phase = .stopped
    · rw [if_pos hphase]
      exact .callers rfl (List.forall_mem_singleton.mpr nofun)
    · rw [if_neg hphase]
      exact mans_of_eq rfl
  | startLoop => exact m.mans_startLoop
  | startScheduler => exact m.mans_startScheduler
  | schedule t priority deadline h =>
    obtain ⟨scheduler, rfl⟩ := schedule_eq h
    exact mans_of_eq rfl
  | resolve t result h =>
    obtain ⟨promises, rfl⟩ := resolve?_eq h
    exact mans_of_eq rfl
  | release =>
    obtain ⟨gate, hgate⟩ := m.release_eq
    rw [hgate]
    exact mans_of_eq rfl

/-! ### Rounds under way -/

/-- **How the timers are looked at**: there is at most one ticker, and none before the loop is
started; only the ticker looks at the timers, does nothing else meanwhile, and has yet to look at
timers that are to hand out their tasks, each once. -/
structure Scanning (m : Machine α) : Prop where
  one : ∃ n, TickerAt m.strands n
  idle : m.loop.phase = .idle → ∀ s ∈ m.strands, s.role ≠ .timers
  looks : ∀ s ∈ m.strands, ∀ j ∈ s.code, ∀ todo, j.ahead? = some todo →
    s.role = .timers ∧ s.code = [j] ∧ todo.Nodup ∧
      ∀ k ∈ todo, ∃ b, m.timers[k]? = some b ∧ b.Loaded

theorem scanning_initial (config : LoopConfig) (workers : Nat) :
    (initial config workers : Machine α).Scanning where
  one := ⟨0, tickerAt_of_none (fun _ hs => absurd hs List.not_mem_nil) 0⟩
  idle _ _ hs := absurd hs List.not_mem_nil
  looks _ hs := absurd hs List.not_mem_nil

/-- Only one strand looks at the timers. -/
theorem Scanning.strand_eq {k l : Nat} {r : Strand α} (h : m.Scanning)
    (hs : m.strands[k]? = some s) (hi : i ∈ s.code) (hi' : i.ahead?.isSome = true)
    (hr : m.strands[l]? = some r) (hj : j ∈ r.code) (hj' : j.ahead?.isSome = true) : k = l := by
  obtain ⟨n, hn⟩ := h.one
  obtain ⟨todo, hi'⟩ := Option.isSome_iff_exists.mp hi'
  obtain ⟨more, hj'⟩ := Option.isSome_iff_exists.mp hj'
  have hrole := (h.looks s (List.mem_of_getElem? hs) i hi todo hi').1
  have hrole' := (h.looks r (List.mem_of_getElem? hr) j hj more hj').1
  exact (hn k s hs hrole).trans (hn l r hr hrole').symm

/-- **Two looks are one.** -/
theorem Scanning.unique (h : m.Scanning) (hi : m.Holds i) (hj : m.Holds j)
    (hi' : i.ahead?.isSome = true) (hj' : j.ahead?.isSome = true) : i = j := by
  obtain ⟨s, hs, hi⟩ := hi
  obtain ⟨r, hr, hj⟩ := hj
  obtain ⟨k, hs⟩ := List.mem_iff_getElem?.mp hs
  obtain ⟨l, hr⟩ := List.mem_iff_getElem?.mp hr
  obtain rfl := h.strand_eq hs hi hi' hr hj hj'
  obtain rfl := Option.some.inj (hs.symm.trans hr)
  obtain ⟨todo, hi'⟩ := Option.isSome_iff_exists.mp hi'
  obtain ⟨more, hj'⟩ := Option.isSome_iff_exists.mp hj'
  have hcode := (h.looks s (List.mem_of_getElem? hs) i hi todo hi').2.1
  have hcode' := (h.looks s (List.mem_of_getElem? hs) j hj more hj').2.1
  exact List.singleton_inj.mp (hcode.symm.trans hcode')

/-- Timers that are looked at are still to hand out their tasks. -/
theorem Scanning.loaded {now k : Nat} {todo : List Nat} {due : List TaskId} {b : TimerCell α}
    (h : m.Scanning) (hholds : m.Holds (.pollTimer now k todo due))
    (hb : m.timers[k]? = some b) : b.Loaded := by
  obtain ⟨s, hs, hj⟩ := hholds
  obtain ⟨-, -, -, hloaded⟩ := h.looks s hs _ hj _ rfl
  obtain ⟨c, hc, hc'⟩ := hloaded k List.mem_cons_self
  obtain rfl := Option.some.inj (hb.symm.trans hc)
  exact hc'

/-- What is left of a look that goes on. -/
theorem Scanning.rest_of_look (h : m.Scanning) (hrule : m.Rule heedStop self i m₁ code)
    (hs : s ∈ m.strands) (hi : i ∈ s.code) (hj : j ∈ code) {todo : List Nat}
    (hahead : j.ahead? = some todo) : s.role = .timers ∧ s.code = [i] ∧ code = [j] ∧ todo.Nodup ∧
      ∀ k ∈ todo, (∃ b, m.timers[k]? = some b ∧ b.Loaded) ∧
        ∀ now more due, i ≠ .pollTimer now k more due := by
  obtain ⟨j', todo', rfl, hj', hbefore⟩ := hrule.ahead?.resolve_left fun hnone => by
    cases (hnone j hj).symm.trans hahead
  obtain rfl := List.mem_singleton.mp hj
  obtain rfl := Option.some.inj (hj'.symm.trans hahead)
  rcases hbefore with ⟨now, due, rfl⟩ | ⟨n, hn⟩
  · obtain ⟨hrole, hcode, hnodup, hloaded⟩ := h.looks s hs _ hi _ rfl
    exact ⟨hrole, hcode, rfl, hnodup, fun k hk => ⟨hloaded k hk, nofun⟩⟩
  · obtain ⟨hrole, hcode, hnodup, hloaded⟩ := h.looks s hs i hi _ hn
    obtain ⟨hnot, hnodup⟩ := List.nodup_cons.mp hnodup
    refine ⟨hrole, hcode, rfl, hnodup, fun k hk => ⟨hloaded k (List.mem_cons_of_mem n hk), ?_⟩⟩
    -- the timer that is looked at now is not looked at again
    rintro now more due rfl
    obtain ⟨rfl, -⟩ := List.cons.inj (Option.some.inj hn)
    exact hnot hk

/-- A strand that takes no step, or has just taken one, has the role that it had; one that a step
has added is not the ticker. -/
theorem role_of_step (hstep : m.step heedStop self = some m') {k : Nat} {r : Strand α}
    (hr : m'.strands[k]? = some r) (hrole : r.role = .timers) :
    ∃ r', m.strands[k]? = some r' ∧ r'.role = .timers := by
  cases step_turn hstep with
  | @carried s i rest code m₁ answer added hs _ hcode hexec hadded hm' =>
    rcases strand_cases (congrArg strands hm') hr with ⟨rfl, rfl⟩ | ⟨-, hr⟩ | hr
    · exact ⟨s, hs, hrole⟩
    · exact ⟨r, hr, hrole⟩
    · cases (hadded r hr).1.symm.trans hrole
  | @found s role code m₁ exited hs hself _ hcode hfinds hm' =>
    rcases strand_cases_set (congrArg strands hm') hr with ⟨rfl, rfl⟩ | ⟨-, hr⟩
    · exact ⟨s, hs, hrole⟩
    · exact ⟨r, hr, hrole⟩

/-- No step makes a loop idle. -/
theorem idle_of_step (hstep : m.step heedStop self = some m') (hidle : m'.loop.phase = .idle) :
    m.loop.phase = .idle := by
  cases step_turn hstep with
  | @carried s i rest code m₁ answer added hs _ hcode hexec hadded hm' =>
    have hloop : LoopEffect m.loop i code m'.loop := hm' ▸ (exec_ruled hexec).loop
    generalize m'.loop = l at hloop hidle
    cases hloop with
    | marked => cases hidle
    | _ => exact hidle
  | found _ _ _ _ hfinds hm' =>
    have hphase : m'.loop.phase = m.loop.phase := hm' ▸ hfinds.loop_eq.1
    exact hphase.symm.trans hidle

/-- **A look was under way before the step**, or it has yet to look at all timers that are
registered. -/
theorem look_of_step (hstep : m.step heedStop self = some m') {k : Nat} {r : Strand α}
    (hr : m'.strands[k]? = some r) (hj : j ∈ r.code) (hj' : j.ahead?.isSome = true) :
    (∃ s, m.strands[k]? = some s ∧ ∃ i ∈ s.code, i.ahead?.isSome = true) ∨
      r.code = [.scanTimers m'.clock m'.loop.timers []] := by
  obtain ⟨todo, hahead⟩ := Option.isSome_iff_exists.mp hj'
  cases step_turn hstep with
  | @carried s i rest code m₁ answer added hs _ hcode hexec hadded hm' =>
    refine Or.inl ?_
    rcases strand_cases (congrArg strands hm') hr with ⟨rfl, rfl⟩ | ⟨-, hr⟩ | hr
    · rcases List.mem_append.mp hj with hj | hj
      · have hrule := exec_ruled hexec
        obtain ⟨_, _, -, -, hbefore⟩ := hrule.ahead?.resolve_left fun hnone => by
          cases (hnone j hj).symm.trans hahead
        refine ⟨s, hs, i, hcode ▸ List.mem_cons_self, ?_⟩
        rcases hbefore with ⟨_, _, rfl⟩ | ⟨_, hi⟩
        · rfl
        · exact hi ▸ rfl
      · exact ⟨s, hs, j, hcode ▸ List.mem_cons_of_mem i hj, hj'⟩
    · exact ⟨r, hr, j, hj, hj'⟩
    · obtain ⟨-, -, p, setup, hsetup⟩ := hadded r hr
      obtain rfl := List.mem_singleton.mp (hsetup ▸ hj)
      cases hj'
  | @found s role code m₁ exited hs _ _ _ hfinds hm' =>
    rcases strand_cases_set (congrArg strands hm') hr with ⟨rfl, rfl⟩ | ⟨-, hr⟩
    · rcases hfinds.ahead? with hnone | ⟨-, hcode⟩
      · cases (hnone j hj).symm.trans hahead
      · have hclock : m'.clock = m.clock := by
          rw [hm']
          cases hfinds <;> rfl
        have hregistered : m'.loop.timers = m.loop.timers := hm' ▸ hfinds.timers_eq.2
        rw [hclock, hregistered]
        exact Or.inr hcode
    · exact Or.inl ⟨r, hr, j, hj, hj'⟩

/-- No call from outside the loop is part of a look at timers. -/
theorem look_of_around (h : m.Around m') {k : Nat} {r : Strand α} (hr : m'.strands[k]? = some r)
    (hj : j ∈ r.code) (hj' : j.ahead?.isSome = true) : m.strands[k]? = some r := by
  obtain ⟨new, hstrands, hnew⟩ := h.strands
  rw [hstrands] at hr
  rcases Nat.lt_or_ge k m.strands.length with hk | hk
  · exact (List.getElem?_append_left hk).symm.trans hr
  · rw [List.getElem?_append_right hk] at hr
    have hcall := ((hnew r (List.mem_of_getElem? hr)).2.2.2 j hj).1
    rw [hcall.ahead?_eq_none] at hj'
    cases hj'

/-- **Every step keeps the looks in order.** -/
theorem Scanning.looks_step (h : m.Scanning) (roster : m.Roster)
    (hstep : m.step heedStop self = some m') : ∀ s ∈ m'.strands, ∀ j ∈ s.code, ∀ todo,
      j.ahead? = some todo → s.role = .timers ∧ s.code = [j] ∧ todo.Nodup ∧
        ∀ k ∈ todo, ∃ b, m'.timers[k]? = some b ∧ b.Loaded := by
  intro r hr j hj todo hahead
  obtain ⟨k, hr⟩ := List.mem_iff_getElem?.mp hr
  cases step_turn hstep with
  | @carried s i rest code m₁ answer added hs _ hcode hexec hadded hm' =>
    have hrule := exec_ruled hexec
    have htimers : TimerEffect m.tasks.length m.timers i code m'.timers := hm' ▸ hrule.timers
    have hs' := List.mem_of_getElem? hs
    have hi : i ∈ s.code := hcode ▸ List.mem_cons_self
    rcases strand_cases (congrArg strands hm') hr with ⟨-, rfl⟩ | ⟨hne, hr⟩ | hr
    · rcases List.mem_append.mp hj with hj | hj
      · -- the look that was under way goes on
        obtain ⟨hrole, hcode', rfl, hnodup, hleft⟩ := h.rest_of_look hrule hs' hi hj hahead
        obtain ⟨-, rfl⟩ := List.cons.inj (hcode.symm.trans hcode')
        exact ⟨hrole, List.append_nil _, hnodup, fun k hk =>
          htimers.loaded (hleft k hk).1 (hleft k hk).2⟩
      · -- a look is all that a strand has to do
        obtain ⟨-, hcode', -⟩ := h.looks s hs' j (hcode ▸ List.mem_cons_of_mem i hj) todo hahead
        obtain ⟨-, rfl⟩ := List.cons.inj (hcode.symm.trans hcode')
        exact absurd hj List.not_mem_nil
    · obtain ⟨hrole, hcode', hnodup, hloaded⟩ :=
        h.looks r (List.mem_of_getElem? hr) j hj todo hahead
      refine ⟨hrole, hcode', hnodup, fun l hl => htimers.loaded (hloaded l hl) ?_⟩
      -- another strand is not looking at timers
      rintro now more due rfl
      exact hne (h.strand_eq hr hj (hahead ▸ rfl) hs hi rfl)
    · obtain ⟨-, -, p, setup, hsetup⟩ := hadded r hr
      obtain rfl := List.mem_singleton.mp (hsetup ▸ hj)
      cases hahead
  | @found s role code m₁ exited hs hself _ hcode hfinds hm' =>
    have htimers : m'.timers = m.timers := hm' ▸ hfinds.timers_eq.1
    rw [htimers]
    rcases strand_cases_set (congrArg strands hm') hr with ⟨-, rfl⟩ | ⟨-, hr⟩
    · rcases hfinds.ahead? with hnone | ⟨rfl, rfl⟩
      · cases (hnone j hj).symm.trans hahead
      · -- a round begins
        obtain rfl := List.mem_singleton.mp hj
        obtain rfl := Option.some.inj hahead
        exact ⟨hself, rfl, roster.nodup, roster.loaded⟩
    · exact h.looks r (List.mem_of_getElem? hr) j hj todo hahead

theorem Scanning.step (h : m.Scanning) (roster : m.Roster)
    (hstep : m.step heedStop self = some m') : m'.Scanning where
  one := by
    obtain ⟨n, hn⟩ := h.one
    refine ⟨n, fun k r hr hrole => ?_⟩
    obtain ⟨r', hr', hrole'⟩ := role_of_step hstep hr hrole
    exact hn k r' hr' hrole'
  idle hidle r hr hrole := by
    obtain ⟨k, hr⟩ := List.mem_iff_getElem?.mp hr
    obtain ⟨r', hr', hrole'⟩ := role_of_step hstep hr hrole
    exact h.idle (idle_of_step hstep hidle) r' (List.mem_of_getElem? hr') hrole'
  looks := h.looks_step roster hstep

theorem Scanning.move (h : m.Scanning) (hmove : m.Move m') : m'.Scanning := by
  have haround := hmove.around
  have hold : ∀ k : Nat, (∃ b, m.timers[k]? = some b ∧ b.Loaded) →
      ∃ b, m'.timers[k]? = some b ∧ b.Loaded := by
    rintro k ⟨b, hb, hloaded⟩
    obtain ⟨new, htimers⟩ := haround.timers
    refine ⟨b, ?_, hloaded⟩
    rw [htimers, List.getElem?_append_left (List.getElem?_eq_some_iff.mp hb).1]
    exact hb
  have hlooks : ∀ s ∈ m'.strands, ∀ j ∈ s.code, ∀ todo, j.ahead? = some todo →
      s.role = .timers ∧ s.code = [j] ∧ todo.Nodup ∧
        ∀ k ∈ todo, ∃ b, m'.timers[k]? = some b ∧ b.Loaded := by
    intro s hs j hj todo hahead
    obtain ⟨new, hstrands, hnew⟩ := haround.strands
    rw [hstrands] at hs
    rcases List.mem_append.mp hs with hs | hs
    · obtain ⟨hrole, hcode, hnodup, hloaded⟩ := h.looks s hs j hj todo hahead
      exact ⟨hrole, hcode, hnodup, fun k hk => hold k (hloaded k hk)⟩
    · cases ((hnew s hs).2.2.2 j hj).1.ahead?_eq_none.symm.trans hahead
  obtain ⟨n, hn⟩ := h.one
  cases hmove.mans with
  | callers hstrands hnone =>
    refine ⟨hstrands ▸ tickerAt_append hn (tickerAt_of_none hnone 0) (Or.inr hnone),
      fun hidle => ?_, hlooks⟩
    rw [hstrands]
    refine List.forall_mem_append.mpr ⟨h.idle ?_, hnone⟩
    exact haround.loop.phase.elim (fun hsame => hsame.symm.trans hidle) And.left
  | threads hstrands hone hidle hrunning =>
    refine ⟨hstrands ▸ tickerAt_append hn hone (Or.inl (h.idle hidle)), fun hidle' => ?_, hlooks⟩
    cases hidle'.symm.trans hrunning

/-- **In every run** there is at most one look at the timers under way. -/
theorem Reaches.scanning (h : m.Reaches m') (scanning : m.Scanning) (roster : m.Roster) :
    m'.Scanning := by
  induction h with
  | refl => exact scanning
  | step hreach heedStop self hstep ih => exact ih.step (hreach.roster roster) hstep
  | move _ hmove ih => exact ih.move hmove

end Machine

theorem Chronicle.Reaches.scanning {config : LoopConfig} {workers : Nat} {c : Chronicle α}
    (h : (Chronicle.start config workers).Reaches c) : c.machine.Scanning :=
  h.machine.scanning (Machine.scanning_initial config workers)
    (Machine.roster_initial config workers)

end ManagedHost
