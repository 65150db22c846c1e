import ManagedHost.Proofs.Loop.Sequel

/-!
# How a family is brought up

What is true at any time in a run of a family (`Family.Tended`) is kept by each step of a strand
(`Tended.turn`) and by everything that callers do in between; hence it holds throughout every run
(`Unfolds.tended`).
-/

namespace ManagedHost

variable {α : Type}

namespace Family

open Machine

variable {F : Family α} {c d : Chronicle α} {heedStop : Bool} {self : Nat} {i : Instr α}
  {code : List (Instr α)} {m₁ : Machine α}

/-! ### Steps -/

/-- **A step in a run of the family.**  A strand carries out an instruction, or a thread of the loop
takes tasks that it finds there. -/
inductive Turns (F : Family α) (c : Chronicle α) (heedStop : Bool) (self : Nat) (d : Chronicle α) :
    Prop where
  | carried {s : Strand α} {i : Instr α} {rest code : List (Instr α)} {m₁ : Machine α}
      {answer : Option (TaskResult Unit)} (hs : c.machine.strands[self]? = some s)
      (hcode : s.code = i :: rest) (hi : F.Admits c i)
      (hexec : c.machine.exec heedStop self i = some (m₁, code)) (hsequel : F.Sequel c d i code)
      (hd : d.machine = { m₁ with
        strands := c.machine.strands.set self { s with code := code ++ rest, answer } })
      (hevents : d.events = c.events ++ [⟨c.machine, d.machine, self, i⟩])
  | taken {s : Strand α} {code : List (Instr α)} {l : EventLoop}
      (hs : c.machine.strands[self]? = some s) (hcode : s.code = [])
      (hd : d.machine = { c.machine with
        loop := l, strands := c.machine.strands.set self { s with code } })
      (hevents : d.events = c.events)
      (hphase : l.phase = c.machine.loop.phase) (hsignal : l.stopSignal = c.machine.loop.stopSignal)
      (htimers : l.timers = c.machine.loop.timers)
      (hqueue : ∀ t ∈ l.queue, t ∈ c.machine.loop.queue)
      (hmicrotasks : ∀ t ∈ l.microtasks, t ∈ c.machine.loop.microtasks)
      (hnew : ∀ j ∈ code,
        (∃ t, j = .start t ∧ (t ∈ c.machine.loop.queue ∨ t ∈ c.machine.loop.microtasks)) ∨
          ∃ t, j = .leave t ∨ j = .record t)
      (hcount : ∃ n, 0 < n ∧ code.length = 3 * n ∧ l.queue.length + l.microtasks.length + n =
        c.machine.loop.queue.length + c.machine.loop.microtasks.length)

theorem mem_runTask {t : TaskId} {j : Instr α} (h : j ∈ runTask t) :
    j = .start t ∨ j = .leave t ∨ j = .record t := by
  simpa [runTask] using h

/-- The strands of a machine on duty, after one of them has got other code. -/
theorem strands_set {m : Machine α} {s r : Strand α} (hduty : F.OnDuty m)
    (hs : m.strands[self]? = some s) (hrole : r.role = s.role) (hexited : r.exited = s.exited)
    (hcode : s.role ≠ .caller → ∀ j ∈ r.code, ¬ j.IsSubmission) :
    (∀ x ∈ m.strands.set self r, x.exited = false ∧ x.role ≠ .dispatcher ∧
      (x.role ≠ .caller → ∀ j ∈ x.code, ¬ j.IsSubmission)) ∧
    ∀ role, (∃ x ∈ m.strands, x.role = role) → ∃ x ∈ m.strands.set self r, x.role = role := by
  obtain ⟨hlt, hget⟩ := List.getElem?_eq_some_iff.mp hs
  refine ⟨fun x hx => ?_, ?_⟩
  · rcases List.mem_or_eq_of_mem_set hx with hx | rfl
    · exact hduty.strands x hx
    · obtain ⟨hstays, hdispatcher, -⟩ := hduty.strands s (List.mem_of_getElem? hs)
      exact ⟨hexited.trans hstays, hrole ▸ hdispatcher, fun h => hcode (hrole ▸ h)⟩
  · rintro role ⟨x, hx, hrole'⟩
    obtain ⟨n, hn, rfl⟩ := List.mem_iff_getElem.mp hx
    by_cases hself : self = n
    · subst hself
      exact ⟨r, List.mem_set hlt r, by rw [hrole, ← hget, hrole']⟩
    · refine ⟨m.strands[n], List.mem_iff_getElem?.mpr ⟨n, ?_⟩, hrole'⟩
      rw [List.getElem?_set_ne hself, List.getElem?_eq_getElem hn]

/-! ### Tasks -/

/-- There are no timers in a run of the family. -/
theorem Admits.not_rearms {x : TaskCell α} (hi : F.Admits c i) : ¬ c.machine.Rearms i x := by
  rintro ⟨now, n, todo, due, -, -, -, rfl, -⟩
  cases hi

/-- The cell of a task is changed as `TaskEffect` says. -/
theorem Admits.cell {t : TaskId} {x' : TaskCell α} (hi : F.Admits c i)
    (hexec : c.machine.exec heedStop self i = some (m₁, code)) (hx' : m₁.tasks[t]? = some x') :
    ∃ x, c.machine.tasks[t]? = some x ∧ TaskEffect t x i x' code :=
  (exec_cell hexec hx').elim (fun ⟨x, hx, heffect, _⟩ => ⟨x, hx, heffect⟩)
    fun h => absurd h.2 hi.not_rearms

/-- The instructions of a family's run create no tasks. -/
theorem Admits.length_eq (hi : F.Admits c i)
    (hexec : c.machine.exec heedStop self i = some (m₁, code)) :
    m₁.tasks.length = c.machine.tasks.length := by
  have hretains := (exec_executes heedStop i m₁ code hexec).tasks
  refine Nat.le_antisymm (Nat.le_of_not_lt fun hlt => ?_) hretains.length
  exact hi.not_rearms (hretains.new _ _ (Nat.le_refl _) (List.getElem?_eq_getElem hlt))

/-! ### What is recorded -/

theorem starts_concat (hevents : d.events = c.events ++ [⟨c.machine, d.machine, self, i⟩]) :
    d.starts = c.starts ++ (starting? c.machine i).toList := by
  unfold Chronicle.starts Chronicle.begun
  rw [hevents, List.filterMap_append, List.map_append]
  congr 1
  cases i with
  | start t =>
    cases hstart : (c.machine.tasks[t]?.bind TaskCell.start?).isSome with
    | true => simp [Event.begun?, starting?, hstart]
    | false => simp [Event.begun?, starting?, hstart]
  | _ => rfl

theorem applied_concat (hevents : d.events = c.events ++ [⟨c.machine, d.machine, self, i⟩]) :
    d.applied = c.applied ++ i.applied?.toList := by
  unfold Chronicle.applied
  rw [hevents, List.filterMap_append]
  congr 1

/-- What is noted does not change once the parent has settled. -/
theorem noteNow?_congr (hext : c.Extends d) {t : TaskId} (hready : F.Ready c.machine t) :
    F.noteNow? c.machine t = F.noteNow? d.machine t := by
  cases t with
  | zero => rfl
  | succ k =>
    cases hn : F.nodes[k]? with
    | none => simp [noteNow?, hn]
    | some n =>
      obtain ⟨q, hq⟩ := Option.isSome_iff_exists.mp (hready n.parent (parent?_of_node hn))
      simp [noteNow?, hn, hq, hext.outcome _ q hq]

/-- Nothing has happened but that tasks may have been created. -/
theorem Recorded.quiet (R : F.Recorded c) (hext : c.Extends d) (hevents : d.events = c.events)
    (hnotes : d.machine.notes = c.machine.notes)
    (hcell : ∀ (t : TaskId) (x : TaskCell α), c.machine.tasks[t]? = some x →
      d.machine.tasks[t]? = some x)
    (hnew : ∀ (t : TaskId) (x : TaskCell α), c.machine.tasks[t]? = none →
      d.machine.tasks[t]? = some x → x.outcome = none ∧ x.body ≠ none)
    (hwork : ∀ t, d.machine.work.countP (fun w => w.2.isEntry t) =
        c.machine.work.countP (fun w => w.2.isEntry t) ∧
      d.machine.work.countP (fun w => w.2.isEnter t) =
        c.machine.work.countP (fun w => w.2.isEnter t)) : F.Recorded d := by
  have hstarts : d.starts = c.starts := by
    unfold Chronicle.starts Chronicle.begun
    rw [hevents]
  have happlied : d.applied = c.applied := by
    unfold Chronicle.applied
    rw [hevents]
  have hcancels : d.cancels = c.cancels := by
    unfold Chronicle.cancels
    rw [hevents]
  constructor
  · intro t r hr
    cases hx : c.machine.tasks[t]? with
    | some x =>
      rw [(cell_eq (hcell t x hx)).2.1, ← (cell_eq hx).2.1] at hr
      exact (R.outcome t r hr).mono hext
    | none =>
      obtain ⟨x, hx', hr⟩ := Option.bind_eq_some_iff.mp hr
      cases (hnew t x hx hx').1.symm.trans hr
  · exact hstarts ▸ R.once
  · intro t hpending
    rw [hstarts]
    refine R.pending t ?_
    cases hx : c.machine.tasks[t]? with
    | some x => rw [(cell_eq hx).1, ← (cell_eq (hcell t x hx)).1, hpending]
    | none => simp [state, hx]
  · intro t
    rw [hstarts, happlied, (hwork t).1]
    exact R.entries t
  · intro t ht hcut
    rw [hstarts, happlied, (hwork t).1]
    exact R.exact t ht (hcancels ▸ hcut)
  · intro t x' hx' hbody
    rw [(hwork t).2]
    cases hx : c.machine.tasks[t]? with
    | some x =>
      obtain rfl := Option.some.inj ((hcell t x hx).symm.trans hx')
      exact (R.entering t x hx hbody).imp_left (·.mono hext)
    | none => exact absurd hbody (hnew t x' hx hx').2
  · exact happlied ▸ fun t ht => (R.applied t ht).imp_right (·.mono hext)
  · rw [hnotes, happlied, R.notes]
    exact List.filterMap_congr fun t ht => noteNow?_congr hext (R.applied t ht).2

theorem starting?_eq_some {m : Machine α} {t : TaskId} (h : starting? m i = some t) :
    i = .start t ∧ ∃ x, m.tasks[t]? = some x ∧ x.state = .pending := by
  unfold starting? at h
  split at h
  · next k =>
    split_ifs at h with hsome
    obtain rfl := Option.some.inj h
    obtain ⟨y, hy⟩ := Option.isSome_iff_exists.mp hsome
    obtain ⟨x, hx, hstart⟩ := Option.bind_eq_some_iff.mp hy
    unfold TaskCell.start? at hstart
    split_ifs at hstart with hpending
    exact ⟨rfl, x, hx, hpending⟩
  · cases h

theorem count_toList_of_ne {o : Option TaskId} {t : TaskId} (h : o ≠ some t) :
    o.toList.count t = 0 := by
  rw [List.count_eq_zero, Option.mem_toList]
  exact h

section Carried

variable {s : Strand α} {rest : List (Instr α)} {answer : Option (TaskResult Unit)}
  (T : F.Tended c) (g : c.machine.Governed) (hext : c.Extends d)
  (hs : c.machine.strands[self]? = some s) (hcode : s.code = i :: rest) (hi : F.Admits c i)
  (hexec : c.machine.exec heedStop self i = some (m₁, code)) (hsequel : F.Sequel c d i code)
  (hd : d.machine = { m₁ with
    strands := c.machine.strands.set self { s with code := code ++ rest, answer } })
  (hevents : d.events = c.events ++ [⟨c.machine, d.machine, self, i⟩])

include T hext hi hexec hd in
theorem outcome_carried : ∀ t r, d.machine.outcome t = some r → F.Explains d t r := by
  intro t r hr
  have hfrom : c.machine.outcome t = some r ∨ ∃ old mode, i = .settle t old r mode := by
    obtain ⟨x', hx', hr⟩ := Option.bind_eq_some_iff.mp hr
    rw [show d.machine.tasks = m₁.tasks by rw [hd]] at hx'
    obtain ⟨x, hx, heffect⟩ := hi.cell hexec hx'
    exact (heffect.of_outcome hr).imp_left (cell_eq hx).2.1.trans
  rcases hfrom with hbefore | ⟨old, mode, rfl⟩
  · exact (T.recorded.outcome t r hbefore).mono hext
  · cases hi with
    | ending hbegun hgives => exact Or.inl ⟨hext.mem_starts hbegun, hgives.mono hext⟩
    | late hspent =>
      -- too late: the outcome is still the one that the task had
      obtain ⟨q, hq⟩ := Option.isSome_iff_exists.mp hspent.1
      obtain rfl := Option.some.inj ((hext.outcome t q hq).symm.trans hr)
      exact (T.recorded.outcome t q hq).mono hext
    | cancelling hcut => exact Or.inr (Or.inl ⟨rfl, hext.mem_filterMap hcut⟩)
    | failing he => exact Or.inr (Or.inr ⟨rfl, _, hext.mem_filterMap he, rfl⟩)

include T hi hexec hd hevents in
/-- A body begins only if the task is pending, which it is not afterwards. -/
theorem starts_carried : (∀ t, d.starts.count t ≤ 1) ∧
    ∀ t, d.machine.state t = .pending → d.starts.count t = 0 := by
  have hcount : ∀ t, d.starts.count t =
      c.starts.count t + (starting? c.machine i).toList.count t := by
    intro t
    rw [starts_concat hevents, List.count_append]
  have hcell : ∀ (t : TaskId) (x' : TaskCell α), d.machine.tasks[t]? = some x' →
      ∃ x, c.machine.tasks[t]? = some x ∧ TaskEffect t x i x' code := by
    intro t x' hx'
    rw [show d.machine.tasks = m₁.tasks by rw [hd]] at hx'
    obtain ⟨x, hx, heffect⟩ := hi.cell hexec hx'
    exact ⟨x, hx, heffect⟩
  have hlength : d.machine.tasks.length = c.machine.tasks.length := by
    rw [show d.machine.tasks = m₁.tasks by rw [hd]]
    exact hi.length_eq hexec
  refine ⟨fun t => ?_, fun t hpending => ?_⟩
  · by_cases hstart : starting? c.machine i = some t
    · obtain ⟨rfl, x, hx, hpending⟩ := starting?_eq_some hstart
      have hnone := T.recorded.pending t ((cell_eq hx).1.trans hpending)
      simp [hcount, hstart, hnone]
    · have honce := T.recorded.once t
      rw [hcount, count_toList_of_ne hstart]
      exact honce
  · cases hx' : d.machine.tasks[t]? with
    | none =>
      have hx : c.machine.tasks[t]? = none := by
        rw [List.getElem?_eq_none_iff, ← hlength]
        exact List.getElem?_eq_none_iff.mp hx'
      rw [hcount, T.recorded.pending t (by simp [state, hx]), count_toList_of_ne fun hstart => ?_]
      obtain ⟨-, x, hsome, -⟩ := starting?_eq_some hstart
      cases hx.symm.trans hsome
    | some x' =>
      obtain ⟨x, hx, heffect⟩ := hcell t x' hx'
      rw [(cell_eq hx').1] at hpending
      have hbefore := heffect.pending_of_pending hpending
      rw [hcount, T.recorded.pending t ((cell_eq hx).1.trans hbefore),
        count_toList_of_ne fun hstart => ?_]
      obtain ⟨rfl, -⟩ := starting?_eq_some hstart
      cases heffect with
      | started => cases hpending
      | idle hidle => exact hidle rfl hbefore

include T hs hcode hsequel hd hevents in
/-- Each body that was begun is carried out once, except that of a task that is cancelled. -/
theorem entries_carried :
    (∀ t, d.applied.count t + d.machine.work.countP (fun w => w.2.isEntry t) ≤ d.starts.count t) ∧
    ∀ t, t ≠ 0 → t ∉ c.cancels →
      d.applied.count t + d.machine.work.countP (fun w => w.2.isEntry t) = d.starts.count t := by
  have hstrands := (congrArg strands hd).trans (List.append_nil _).symm
  have hwork := fun t => countP_work_carried (Instr.isEntry t) (fun _ _ => rfl) hs hcode
    (fun _ ha => absurd ha List.not_mem_nil) hstrands
  have hcount : ∀ t, d.applied.count t = c.applied.count t + i.applied?.toList.count t ∧
      d.starts.count t = c.starts.count t + (starting? c.machine i).toList.count t := by
    intro t
    rw [applied_concat hevents, starts_concat hevents, List.count_append, List.count_append]
    exact ⟨rfl, rfl⟩
  refine ⟨fun t => ?_, fun t ht hcut => ?_⟩
  · have hbefore := T.recorded.entries t
    have hnow := hsequel.entries t
    have hsame := hwork t
    rw [(hcount t).1, (hcount t).2]
    omega
  · have hbefore := T.recorded.exact t ht hcut
    have hnow := hsequel.exact t ht hcut
    have hsame := hwork t
    rw [(hcount t).1, (hcount t).2]
    omega

include T hext hs hcode hi hexec hsequel hd in
/-- The body of a task that is to be taken up is there, or the task is spent. -/
theorem entering_carried : ∀ (t : TaskId) (x : TaskCell α), d.machine.tasks[t]? = some x →
    x.body = none → Spent d t ∨ d.machine.work.countP (fun w => w.2.isEnter t) = 0 := by
  intro t x' hx' hbody'
  have hstrands := (congrArg strands hd).trans (List.append_nil _).symm
  have hwork := countP_work_carried (Instr.isEnter t) (fun _ _ => rfl) hs hcode
    (fun _ ha => absurd ha List.not_mem_nil) hstrands
  rw [hsequel.enters] at hwork
  rw [show d.machine.tasks = m₁.tasks by rw [hd]] at hx'
  obtain ⟨x, hx, heffect⟩ := hi.cell hexec hx'
  rcases ((exec_executes heedStop i m₁ code hexec).tasks.cell t x x' hx hx').body with
    hsame | ⟨-, rfl | rfl⟩
  · have hbody := hsame.symm.trans hbody'
    refine (T.recorded.entering t x hx hbody).imp (·.mono hext) fun hzero => ?_
    -- the body of a task that begins now is there
    have hstart : starting? c.machine i ≠ some t := by
      intro hstart
      obtain ⟨-, y, hy, hpending⟩ := starting?_eq_some hstart
      obtain rfl := Option.some.inj (hy.symm.trans hx)
      exact (T.cell t y hx).unused hpending hbody
    rw [count_toList_of_ne hstart] at hwork
    omega
  · -- the body is taken up now, and by nobody else
    refine Or.inr ?_
    have hle : c.machine.work.countP (fun w => w.2.isEnter t) ≤
        c.machine.work.countP (fun w => w.2.isEntry t) := by
      exact List.countP_mono_left fun w _ => Instr.isEntry_of_isEnter
    have hentries := T.recorded.entries t
    have honce := T.recorded.once t
    rw [show starting? c.machine (.enter t) = none from rfl,
      if_pos (show (Instr.enter t : Instr α).isEnter t = true from decide_eq_true rfl)] at hwork
    simp only [Option.toList_none, List.count_nil] at hwork
    omega
  · cases hi with
    | dropBody hspent => exact Or.inl (hspent.mono hext)

include T hext hsequel hevents in
theorem notes_carried : (∀ t ∈ d.applied, t ≠ 0 ∧ F.Ready d.machine t) ∧
    d.machine.notes = d.applied.filterMap (F.noteNow? d.machine) := by
  have happlied := applied_concat hevents
  have hready : ∀ t ∈ d.applied, t ≠ 0 ∧ F.Ready c.machine t := by
    intro t ht
    rw [happlied] at ht
    rcases List.mem_append.mp ht with ht | ht
    · exact T.recorded.applied t ht
    · exact hsequel.ready t (Option.mem_toList.mp ht)
  refine ⟨fun t ht => (hready t ht).imp_right (·.mono hext), ?_⟩
  calc d.machine.notes
      = c.applied.filterMap (F.noteNow? c.machine) ++
          (i.applied?.bind (F.noteNow? c.machine)).toList := by
        rw [hsequel.notes, T.recorded.notes]
    _ = d.applied.filterMap (F.noteNow? c.machine) := by
        rw [happlied, List.filterMap_append]
        cases i.applied? with
        | none => rfl
        | some t => cases hnote : F.noteNow? c.machine t <;> simp [hnote]
    _ = d.applied.filterMap (F.noteNow? d.machine) :=
        List.filterMap_congr fun t ht => noteNow?_congr hext (hready t ht).2

end Carried

theorem mem_queue_enqueue {m : Machine α} {t : TaskId} (hsignal : m.loop.stopSignal = false)
    (hexec : m.exec heedStop self (.enqueue t .caller) = some (m₁, code)) : t ∈ m₁.loop.queue := by
  cases exec_ruled hexec with
  | enqueue => exact List.mem_append_right _ (List.mem_singleton_self t)
  | enqueueRefused hstop => cases hsignal.symm.trans hstop

/-- Whoever asks for the root to be run or settled sees to it. -/
theorem urges_carried {x x' : TaskCell α} (g : c.machine.Governed) (hi : F.Admits c i)
    (hheld : c.machine.Holds i) (hexec : c.machine.exec heedStop self i = some (m₁, code))
    (hurges : i.Urges 0) (hx : c.machine.tasks[0]? = some x) (hpending : x.state = .pending)
    (hx' : m₁.tasks[0]? = some x') (hpending' : x'.state = .pending) :
    0 ∈ m₁.loop.queue ∨ 0 ∈ m₁.loop.microtasks ∨ (∃ j ∈ code, j.Carries 0) ∨
      .enqueue 0 .caller ∈ code := by
  have hcarried : i.Carries 0 → 0 ∈ m₁.loop.queue ∨ 0 ∈ m₁.loop.microtasks ∨
      (∃ j ∈ code, j.Carries 0) ∨ .enqueue 0 .caller ∈ code := fun hcarries =>
    (exec_carries hx hpending hcarries (g.grounded i hheld) hexec hx' hpending').imp_right
      (Or.imp_right Or.inl)
  cases hi with
  | start => exact hcarried hurges
  | cancel => exact hcarried hurges
  | fail => exact hcarried hurges
  | submit hphase =>
    cases exec_ruled hexec with
    | submit => exact Or.inr (Or.inr (Or.inr (List.mem_singleton_self _)))
    | submitRefused hrefused => exact absurd hphase hrefused
  | microtask hready hphase =>
    obtain rfl : _ = 0 := hurges
    cases exec_ruled hexec with
    | microtask => exact Or.inr (Or.inl (List.mem_append_right _ (List.mem_singleton_self 0)))
    | microtaskRefused hstopped => cases hphase.symm.trans hstopped
  | _ => exact hurges.elim

section Turn

variable (T : F.Tended c) (g : c.machine.Governed) (hturn : c.turn heedStop self = some d)
include T g hturn

theorem Tended.turn_extends : c.Extends d := by
  have houtcome := fun t r => g.outcome_step (t := t) (r := r) (Chronicle.turn_step hturn)
  have hrank := rank_step (Chronicle.turn_step hturn)
  have hlength := (step_tasks (Chronicle.turn_step hturn)).1
  cases Chronicle.turn_turn hturn with
  | @carried s i rest code m₁ answer added hs hexited hcode hexec hadded hd hevents hpromise =>
    refine ⟨hlength, hrank, houtcome, fun hphase => ?_, ⟨_, hevents⟩⟩
    have hi := T.holds i ⟨s, List.mem_of_getElem? hs, hcode ▸ List.mem_cons_self⟩
    have hloop := (exec_executes heedStop i m₁ code hexec).loop
    rw [show d.machine.loop = m₁.loop by rw [hd]]
    rcases hloop.phase_eq.1 with heq | rfl
    · exact heq.trans hphase
    · cases hi
  | found hs hrole hexited hcode hfinds hd hevents =>
    refine ⟨hlength, hrank, houtcome, fun hphase => ?_, [],
      hevents.trans (List.append_nil _).symm⟩
    rw [hd]
    exact hfinds.loop_eq.1.trans hphase

theorem Tended.turns : F.Turns c heedStop self d := by
  have hext := T.turn_extends g hturn
  cases Chronicle.turn_turn hturn with
  | @carried s i rest code m₁ answer added hs hexited hcode hexec hadded hd hevents hpromise =>
    have hheld : c.machine.Holds i := ⟨s, List.mem_of_getElem? hs, hcode ▸ List.mem_cons_self⟩
    have hi := T.holds i hheld
    have hsequel := exec_sequel T g hext hi hheld hexec ⟨_, hd⟩
      (hevents ▸ List.mem_append_right _ (List.mem_singleton_self _))
    -- no task of the family waits for a promise
    have hnone : added = [] := by
      refine hpromise.resolve_right ?_
      rintro ⟨t, p, hmem⟩
      cases hsequel.admits _ hmem
    subst hnone
    exact .carried hs hcode hi hexec hsequel (by rw [hd, List.append_nil]) hevents
  | @found s role code m₁ exited hs hrole hexited hcode hfinds hd hevents =>
    obtain ⟨-, hdispatcher, -⟩ := T.duty.strands s (List.mem_of_getElem? hs)
    have hput : ∀ code, ({ s with code, exited := false } : Strand α) = { s with code } :=
      fun code => by rw [← hexited]
    have hrun : ∀ (t : TaskId) (j : Instr α),
        t ∈ c.machine.loop.queue ∨ t ∈ c.machine.loop.microtasks → j ∈ runTask t →
        (∃ t, j = .start t ∧ (t ∈ c.machine.loop.queue ∨ t ∈ c.machine.loop.microtasks)) ∨
          ∃ t, j = .leave t ∨ j = .record t := by
      intro t j ht hj
      exact (mem_runTask hj).imp (fun hj => ⟨t, hj, ht⟩) fun hj => ⟨t, hj⟩
    cases hfinds with
    | leaves hsignal => cases T.duty.signal.symm.trans (hsignal (hrole ▸ hdispatcher))
    | @task t rest hqueue =>
      rw [hput] at hd
      refine .taken hs hcode hd hevents rfl rfl rfl (fun t ht => ?_) (fun _ => id)
        (fun j hj => ?_) ⟨1, Nat.one_pos, rfl, ?_⟩
      · rw [hqueue]
        exact List.mem_cons_of_mem _ ht
      · exact hrun t j (Or.inl (hqueue ▸ List.mem_cons_self)) hj
      · rw [hqueue]
        exact Nat.add_right_comm _ _ _
    | microtasks hsome =>
      rw [hput] at hd
      refine .taken hs hcode hd hevents rfl rfl rfl (fun _ => id) (fun t ht => ?_)
        (fun j hj => ?_)
        ⟨c.machine.loop.microtasks.length, List.length_pos_iff.mpr hsome, ?_, rfl⟩
      · exact absurd ht List.not_mem_nil
      · obtain ⟨t, ht, hj⟩ := List.mem_flatMap.mp hj
        exact hrun t j (Or.inr ht) hj
      · rw [List.length_flatMap]
        simp [runTask, Nat.mul_comm]
    | timers hsome => exact absurd T.duty.timers hsome
    | due => exact absurd hrole hdispatcher

theorem Tended.cell_turn :
    ∀ (t : TaskId) (x : TaskCell α), d.machine.tasks[t]? = some x → F.Cell d.machine t x := by
  have hext := T.turn_extends g hturn
  intro t x' hx'
  cases T.turns g hturn with
  | @carried s i rest code m₁ answer hs hcode hi hexec hsequel hd hevents =>
    rw [show d.machine.tasks = m₁.tasks by rw [hd]] at hx'
    obtain ⟨x, hx, heffect⟩ := hi.cell hexec hx'
    have hkept := (exec_executes heedStop i m₁ code hexec).tasks.cell t x x' hx hx'
    have hcell := T.cell t x hx
    refine
      { parent := hkept.parent.trans hcell.parent, body := ?body, unused := fun hpending => ?unused,
        bound := fun hbound => ?bound, continuations := fun k hk => ?continuations }
    case body =>
      rcases hkept.body with heq | ⟨hnone, -⟩
      · exact heq ▸ hcell.body
      · exact Or.inl hnone
    case unused =>
      have hbefore := heffect.pending_of_pending hpending
      have hstate : c.machine.state t = .pending := (cell_eq hx).1.trans hbefore
      rcases hkept.body with heq | ⟨-, rfl | rfl⟩
      · exact heq ▸ hcell.unused hbefore
      · -- whoever takes the body has begun it
        cases hi with
        | enter _ hbegun =>
          have hpos := List.count_pos_iff.mpr hbegun
          have hzero := T.recorded.pending t hstate
          omega
      · cases hi with
        | dropBody hspent =>
          have hsettled := hspent.1
          rw [(cell_eq hx).2.1, g.isSome_eq hx, hbefore] at hsettled
          cases hsettled
    case bound =>
      rcases hkept.bound with heq | ⟨who, rfl⟩ | ⟨caller, rfl⟩
      · exact hext.phase (hcell.bound (heq ▸ hbound))
      · cases hi with
        | submit hphase => exact hext.phase hphase
      · cases hi with
        | microtask _ hphase => exact hext.phase hphase
    case continuations =>
      rcases heffect.of_mem_continuations hk with hk | rfl
      · exact hcell.continuations k hk
      · cases hi with
        | register hparent => exact hparent
  | @taken s code l hs hcode hd hevents hphase hsignal htimers hqueue hmicrotasks hnew =>
    rw [show d.machine.tasks = c.machine.tasks by rw [hd]] at hx'
    obtain ⟨hparent, hbody, hunused, hbound, hcontinuations⟩ := T.cell t x' hx'
    exact ⟨hparent, hbody, hunused, fun h => hext.phase (hbound h), hcontinuations⟩

theorem Tended.holds_turn : ∀ j, d.machine.Holds j → F.Admits d j := by
  have hext := T.turn_extends g hturn
  intro j hj
  cases T.turns g hturn with
  | carried hs hcode hi hexec hsequel hd hevents =>
    obtain ⟨-, -, hfrom⟩ := holds_set hs ((congrArg strands hd).trans (List.append_nil _).symm)
    rcases hfrom j hj with hj | hj | ⟨a, ha, -⟩
    · rcases List.mem_append.mp hj with hj | hj
      · exact hsequel.admits j hj
      · exact (T.holds j ⟨_, List.mem_of_getElem? hs, hcode ▸ List.mem_cons_of_mem _ hj⟩).mono hext
    · exact (T.holds j hj).mono hext
    · exact absurd ha List.not_mem_nil
  | taken hs hcode hd hevents hphase hsignal htimers hqueue hmicrotasks hnew =>
    obtain ⟨-, -, hfrom⟩ := holds_set hs ((congrArg strands hd).trans (List.append_nil _).symm)
    rcases hfrom j hj with hj | hj | ⟨a, ha, -⟩
    · rcases hnew j hj with ⟨t, rfl, ht | ht⟩ | ⟨t, rfl | rfl⟩
      · obtain ⟨rfl, -⟩ := T.duty.queue t ht
        exact .start nofun
      · exact .start ((T.duty.microtasks t ht).1.mono hext)
      · exact .leave
      · exact .record
    · exact (T.holds j hj).mono hext
    · exact absurd ha List.not_mem_nil

theorem Tended.duty_turn : F.OnDuty d.machine := by
  have hext := T.turn_extends g hturn
  have hduty := T.duty
  cases T.turns g hturn with
  | @carried s i rest code m₁ answer hs hcode hi hexec hsequel hd hevents =>
    have hloop := (exec_executes heedStop i m₁ code hexec).loop
    rw [show m₁.loop = d.machine.loop by rw [hd]] at hloop
    obtain ⟨hphase, hsignal, htimers⟩ := hloop.phase_eq
    have hphase : d.machine.loop.phase = c.machine.loop.phase := by
      refine hphase.resolve_right ?_
      rintro rfl
      cases hi
    have hsignal : d.machine.loop.stopSignal = c.machine.loop.stopSignal := by
      refine hsignal.resolve_right ?_
      rintro rfl
      cases hi
    obtain ⟨hexited, hdispatcher, hsubmits⟩ := hduty.strands s (List.mem_of_getElem? hs)
    have hstrands := strands_set (r := { s with code := code ++ rest, answer }) hduty hs rfl rfl
      fun hrole j hj h => by
        rcases List.mem_append.mp hj with hj | hj
        · exact hsubmits hrole i (hcode ▸ List.mem_cons_self) (hsequel.submissions j hj h)
        · exact hsubmits hrole j (hcode ▸ List.mem_cons_of_mem _ hj) h
    rw [show c.machine.strands.set self _ = d.machine.strands by rw [hd]] at hstrands
    refine
      { signal := hsignal.trans hduty.signal, phase := hphase ▸ hduty.phase,
        timers := htimers hduty.timers, queue := fun t ht => ?queue,
        microtasks := fun t ht => ?microtasks, strands := hstrands.1,
        threads := fun hrunning => ?threads }
    case queue =>
      rcases hloop.of_mem.1 ht with ht | ⟨who, rfl⟩
      · exact (hduty.queue t ht).imp_right hext.phase
      · cases hi with
        | enqueue hrunning => exact ⟨rfl, hext.phase hrunning⟩
    case microtasks =>
      rcases hloop.of_mem.2 ht with ht | ⟨caller, rfl⟩
      · exact (hduty.microtasks t ht).imp (·.mono hext) hext.phase
      · cases hi with
        | microtask hready hrunning => exact ⟨hready.mono hext, hext.phase hrunning⟩
    case threads =>
      exact (hduty.threads (hphase.symm.trans hrunning)).imp (hstrands.2 _) (hstrands.2 _)
  | @taken s code l hs hcode hd hevents hphase hsignal htimers hqueue hmicrotasks hnew =>
    have hstrands := strands_set (r := { s with code }) hduty hs rfl rfl fun _ j hj h => by
      rcases hnew j hj with ⟨t, rfl, -⟩ | ⟨t, rfl | rfl⟩ <;> exact h
    rw [show c.machine.strands.set self _ = d.machine.strands by rw [hd]] at hstrands
    obtain rfl : d.machine.loop = l := by rw [hd]
    refine
      { signal := hsignal.trans hduty.signal, phase := hphase ▸ hduty.phase,
        timers := htimers.trans hduty.timers, queue := fun t ht => ?queue,
        microtasks := fun t ht => ?microtasks, strands := hstrands.1,
        threads := fun hrunning => ?threads }
    case queue => exact (hduty.queue t (hqueue t ht)).imp_right hext.phase
    case microtasks => exact (hduty.microtasks t (hmicrotasks t ht)).imp (·.mono hext) hext.phase
    case threads =>
      exact (hduty.threads (hphase.symm.trans hrunning)).imp (hstrands.2 _) (hstrands.2 _)

theorem Tended.recorded_turn : F.Recorded d := by
  have hext := T.turn_extends g hturn
  cases T.turns g hturn with
  | carried hs hcode hi hexec hsequel hd hevents =>
    obtain ⟨honce, hpending⟩ := starts_carried T hi hexec hd hevents
    obtain ⟨hentries, hexact⟩ := entries_carried T hs hcode hsequel hd hevents
    obtain ⟨happlied, hnotes⟩ := notes_carried T hext hsequel hevents
    exact ⟨outcome_carried T hext hi hexec hd, honce, hpending, hentries,
      fun t ht hcut => hexact t ht fun hmem => hcut (hext.mem_filterMap hmem),
      entering_carried T hext hs hcode hi hexec hsequel hd, happlied, hnotes⟩
  | @taken s code l hs hcode hd hevents hphase hsignal htimers hqueue hmicrotasks hnew =>
    have htasks : d.machine.tasks = c.machine.tasks := by rw [hd]
    refine T.recorded.quiet hext hevents (by rw [hd]) (fun t x hx => htasks ▸ hx)
      (fun t x hx hx' => ?_) fun t => ?_
    · rw [htasks, hx] at hx'
      cases hx'
    · have hnone : ∀ j ∈ code, j.IsAside := by
        intro j hj
        rcases hnew j hj with ⟨t, rfl, -⟩ | ⟨t, rfl | rfl⟩ <;> trivial
      rw [countP_work_found (Instr.isEntry t) hs hcode (congrArg strands hd),
        countP_work_found (Instr.isEnter t) hs hcode (congrArg strands hd),
        List.countP_eq_zero.mpr fun j hj =>
          Bool.eq_false_iff.mp ((hnone j hj).isEntry_eq_false t).1,
        List.countP_eq_zero.mpr fun j hj =>
          Bool.eq_false_iff.mp ((hnone j hj).isEntry_eq_false t).2]
      exact ⟨rfl, rfl⟩

theorem Tended.urged_turn : (∃ v ∈ d.events, v.instr.Urges 0) → d.machine.state 0 = .pending →
    d.machine.Attends 0 ∨ d.machine.Holds (.enqueue 0 .caller) := by
  intro hurged hpending'
  have hstep := Chronicle.turn_step hturn
  obtain ⟨x, x', hx, hx', hback⟩ := step_pending hstep T.length.1
  rw [(cell_eq hx').1] at hpending'
  have hpending := hback hpending'
  have hold : (∃ v ∈ c.events, v.instr.Urges 0) →
      c.machine.Attends 0 ∨ c.machine.Holds (.enqueue 0 .caller) :=
    fun h => T.urged h ((cell_eq hx).1.trans hpending)
  have hstays : c.machine.Attends 0 → d.machine.Attends 0 := fun h =>
    h.step g.grounded hstep hx hpending hx' hpending'
  cases T.turns g hturn with
  | @carried s i rest code m₁ answer hs hcode hi hexec hsequel hd hevents =>
    obtain ⟨hheld, hkeeps, hgains, -⟩ := holds_carried hs hcode
      (fun _ ha => absurd ha List.not_mem_nil)
      ((congrArg strands hd).trans (List.append_nil _).symm)
    have hloop : m₁.loop = d.machine.loop := by rw [hd]
    rw [hevents] at hurged
    obtain ⟨v, hv, hurges⟩ := hurged
    rcases List.mem_append.mp hv with hv | hv
    · rcases hold ⟨v, hv, hurges⟩ with hattends | hholds
      · exact Or.inl (hstays hattends)
      · rcases hkeeps _ hholds with rfl | hholds
        · -- there is room now
          exact Or.inl (Or.inl (hloop ▸ mem_queue_enqueue T.duty.signal hexec))
        · exact Or.inr hholds
    · obtain rfl := List.mem_singleton.mp hv
      rw [show d.machine.tasks = m₁.tasks by rw [hd]] at hx'
      rcases urges_carried g hi hheld hexec hurges hx hpending hx' hpending' with
        ht | ht | ⟨j, hj, hcarries⟩ | hj
      · exact Or.inl (Or.inl (hloop ▸ ht))
      · exact Or.inl (Or.inr (Or.inl (hloop ▸ ht)))
      · exact Or.inl (.of_holds (hgains j hj) hcarries)
      · exact Or.inr (hgains _ hj)
  | taken hs hcode hd hevents hphase hsignal htimers hqueue hmicrotasks hnew =>
    obtain ⟨hkeeps, -⟩ := holds_found hs hcode (congrArg strands hd)
    exact (hold (hevents ▸ hurged)).imp hstays (hkeeps _)

theorem Tended.turn : F.Tended d where
  length := by
    cases T.turns g hturn with
    | @carried s i rest code m₁ answer hs hcode hi hexec hsequel hd hevents =>
      rw [hd]
      exact (hi.length_eq hexec).symm ▸ T.length
    | taken hs hcode hd =>
      rw [hd]
      exact T.length
  cell := T.cell_turn g hturn
  holds := T.holds_turn g hturn
  duty := T.duty_turn g hturn
  recorded := T.recorded_turn g hturn
  urged := T.urged_turn g hturn

end Turn

/-! ### What callers do -/

theorem extends_around {m : Machine α} (h : c.machine.Around m) :
    c.Extends { c with machine := m } := by
  refine ⟨h.length_le, fun t => ?_, fun t r hr => ?_, fun hphase => ?_, [],
    (List.append_nil _).symm⟩
  · cases hx : c.machine.tasks[t]? with
    | none =>
      have hpending : c.machine.state t = .pending := by simp [state, hx]
      rw [hpending]
      exact TaskState.rank_le_pending _
    | some x =>
      refine Nat.le_of_eq ?_
      rw [(cell_eq hx).1, (cell_eq (h.beside.getElem?_tasks hx)).1]
  · obtain ⟨x, hx, hr⟩ := Option.bind_eq_some_iff.mp hr
    exact (cell_eq (h.beside.getElem?_tasks hx)).2.1.trans hr
  · rcases h.loop.phase with heq | ⟨-, hrunning⟩
    · exact heq.trans hphase
    · exact hrunning

/-- Tasks may be created and calls begin, if they are such as come up in a run of the family. -/
theorem Tended.around {m : Machine α} (T : F.Tended c) (h : c.machine.Around m)
    (hnotes : m.notes = c.machine.notes) (hlength : m.tasks.length ≤ F.nodes.length + 1)
    (hnew : ∀ (t : TaskId) (x : TaskCell α), c.machine.tasks.length ≤ t → m.tasks[t]? = some x →
      F.Cell m t x ∧ x.outcome = none ∧ x.body ≠ none)
    (hholds : ∀ j, m.Holds j → c.machine.Holds j ∨ F.Admits { c with machine := m } j)
    (hduty : F.OnDuty m) : F.Tended { c with machine := m } := by
  have hext := extends_around h
  have hcell : ∀ (t : TaskId) (x : TaskCell α), c.machine.tasks[t]? = some x →
      m.tasks[t]? = some x := fun t x => h.beside.getElem?_tasks
  constructor
  · exact ⟨Nat.lt_of_lt_of_le T.length.1 h.length_le, hlength⟩
  · intro t x hx
    rcases h.cell_or_new hx with hx' | ⟨ht, -⟩
    · obtain ⟨hparent, hbody, hunused, hbound, hcontinuations⟩ := T.cell t x hx'
      exact ⟨hparent, hbody, hunused, fun hb => hext.phase (hbound hb), hcontinuations⟩
    · exact (hnew t x ht hx).1
  · exact fun j hj => (hholds j hj).elim (fun hj => (T.holds j hj).mono hext) id
  · exact hduty
  · refine T.recorded.quiet hext rfl hnotes hcell (fun t x hnone hx => ?_) fun t => ⟨?_, ?_⟩
    · exact (hnew t x (List.getElem?_eq_none_iff.mp hnone) hx).2
    · exact h.countP_work (Instr.isEntry t) fun j hj => (hj.isEntry_eq_false t).1
    · exact h.countP_work (Instr.isEnter t) fun j hj => (hj.isEntry_eq_false t).2
  · intro hurged hpending
    have hx := List.getElem?_eq_getElem T.length.1
    rw [(cell_eq (hcell 0 _ hx)).1, ← (cell_eq hx).1] at hpending
    exact (T.urged hurged hpending).imp (·.around h) h.holds

/-- A call begins, or nothing changes for the loop. -/
theorem OnDuty.append {m m' : Machine α} {new : List (Strand α)} (hduty : F.OnDuty m)
    (hloop : m'.loop = m.loop) (hstrands : m'.strands = m.strands ++ new)
    (hnew : ∀ s ∈ new, s.exited = false ∧ s.role = .caller)
    (hready : ∀ t, F.Ready m t → F.Ready m' t) : F.OnDuty m' := by
  refine
    { signal := hloop ▸ hduty.signal, phase := hloop ▸ hduty.phase, timers := hloop ▸ hduty.timers,
      queue := fun t ht => ?queue, microtasks := fun t ht => ?microtasks,
      strands := fun s hs => ?strands, threads := fun hrunning => ?threads }
  case queue =>
    rw [hloop] at ht ⊢
    exact hduty.queue t ht
  case microtasks =>
    rw [hloop] at ht ⊢
    exact (hduty.microtasks t ht).imp_left (hready t)
  case strands =>
    rw [hstrands] at hs
    rcases List.mem_append.mp hs with hs | hs
    · exact hduty.strands s hs
    · obtain ⟨hexited, hrole⟩ := hnew s hs
      exact ⟨hexited, hrole ▸ nofun, fun h => absurd hrole h⟩
  case threads =>
    rw [hloop] at hrunning
    have hmem : ∀ s ∈ m.strands, s ∈ m'.strands := fun s hs => hstrands ▸ List.mem_append_left _ hs
    obtain ⟨⟨w, hw, hworker⟩, ⟨u, hu, hmicrotasks⟩⟩ := hduty.threads hrunning
    exact ⟨⟨w, hmem w hw, hworker⟩, ⟨u, hmem u hu, hmicrotasks⟩⟩

theorem OnDuty.startLoop {m : Machine α} (hduty : F.OnDuty m) : F.OnDuty m.startLoop := by
  unfold Machine.startLoop
  split_ifs with hidle
  · refine ⟨hduty.signal, nofun, hduty.timers, fun t ht => ⟨(hduty.queue t ht).1, rfl⟩,
      fun t ht => ⟨(hduty.microtasks t ht).1, rfl⟩, fun s hs => ?_, fun _ => ⟨?_, ?_⟩⟩
    · rcases List.mem_append.mp hs with hs | hs
      · exact hduty.strands s hs
      · obtain ⟨hexited, hrole, hcode⟩ := thread_begins hs
        refine ⟨hexited, hrole, fun _ j hj => ?_⟩
        rw [hcode] at hj
        exact absurd hj List.not_mem_nil
    · refine ⟨{ role := .worker }, List.mem_append_right _ (List.mem_append_left _ ?_), rfl⟩
      exact List.mem_replicate.mpr ⟨Nat.ne_of_gt (Nat.le_max_right _ _), rfl⟩
    · exact ⟨{ role := .microtasks }, List.mem_append_right _ (List.mem_append_right _
        List.mem_cons_self), rfl⟩
  · exact hduty

theorem holds_startLoop {m : Machine α} {j : Instr α} (hj : m.startLoop.Holds j) : m.Holds j := by
  obtain ⟨s, hs, hj⟩ := hj
  unfold Machine.startLoop at hs
  split_ifs at hs
  · rcases List.mem_append.mp hs with hs | hs
    · exact ⟨s, hs, hj⟩
    · rw [(thread_begins hs).2.2] at hj
      exact absurd hj List.not_mem_nil
  · exact ⟨s, hs, hj⟩

/-- A family begins with its root. -/
theorem tended_planted (F : Family α) (config : LoopConfig) (workers : Nat) :
    F.Tended ((Chronicle.start config workers).act fun m =>
      (m.newTask (.script [] (.done F.root))).2) := by
  have hholds : ∀ j, ¬ Holds (Machine.initial config workers : Machine α) j :=
    fun _ ⟨_, hs, _⟩ => absurd hs List.not_mem_nil
  refine
    { length := ⟨Nat.one_pos, Nat.le_add_left _ _⟩, cell := fun t x hx => ?cell,
      holds := fun j hj => absurd hj (hholds j), duty := ?duty, recorded := ?recorded,
      urged := ?urged }
  case cell =>
    obtain ⟨rfl, rfl⟩ := eq_of_getElem?_append_one (Nat.zero_le t) hx
    exact ⟨rfl, Or.inr rfl, fun _ => nofun, nofun, fun _ hk => absurd hk List.not_mem_nil⟩
  case duty =>
    exact ⟨rfl, nofun, rfl, fun _ ht => absurd ht List.not_mem_nil,
      fun _ ht => absurd ht List.not_mem_nil, fun _ hs => absurd hs List.not_mem_nil, nofun⟩
  case recorded =>
    refine ⟨fun t r hr => ?_, fun _ => Nat.zero_le _, fun _ _ => rfl, fun _ => Nat.le_refl _,
      fun _ _ _ => rfl, fun _ _ _ _ => Or.inr rfl, fun _ ht => absurd ht List.not_mem_nil, rfl⟩
    obtain ⟨x, hx, hr⟩ := Option.bind_eq_some_iff.mp hr
    obtain ⟨-, rfl⟩ := eq_of_getElem?_append_one (Nat.zero_le t) hx
    cases hr
  case urged =>
    rintro ⟨v, hv, -⟩
    exact absurd hv List.not_mem_nil

/-- A call begins. -/
theorem holds_call {m m' : Machine α} {j : Instr α} {code : List (Instr α)}
    (hstrands : m'.strands = m.strands ++ [{ role := .caller, code }]) (hj : m'.Holds j) :
    m.Holds j ∨ j ∈ code := by
  obtain ⟨s, hs, hj⟩ := hj
  rw [hstrands] at hs
  rcases List.mem_append.mp hs with hs | hs
  · exact Or.inl ⟨s, hs, hj⟩
  · rw [List.mem_singleton.mp hs] at hj
    exact Or.inr hj

theorem Tended.grown {k : Nat} {n : Node α} (T : F.Tended c)
    (hlength : c.machine.tasks.length = k + 1) (hn : F.nodes[k]? = some n) :
    F.Tended (c.act fun m => (m.continueWith n.parent n.body).2) := by
  have hlt : n.parent < c.machine.tasks.length :=
    hlength ▸ Nat.lt_succ_of_le (F.parent_le k n hn)
  have haround : c.machine.Around (c.machine.continueWith n.parent n.body).2 :=
    around_continueWith hlt n.parent_ofBody
  have hext := extends_around haround
  refine T.around haround rfl ?_ (fun t x ht hx => ?_) (fun j hj => ?_) ?_
  · have hk := (List.getElem?_eq_some_iff.mp hn).1
    show (c.machine.tasks ++ [_]).length ≤ _
    rw [List.length_append, hlength]
    exact Nat.succ_le_succ hk
  · obtain ⟨rfl, rfl⟩ := eq_of_getElem?_append_one ht hx
    refine ⟨⟨?_, Or.inr ?_, fun _ => nofun, nofun, fun _ hk => absurd hk List.not_mem_nil⟩, rfl,
      nofun⟩
    · rw [hlength, parent?_of_node hn]
      exact n.parent_ofBody
    · rw [hlength]
      exact (congrArg (Option.map Node.body) hn).symm
  · refine (holds_call rfl hj).imp_right fun hj => ?_
    rw [List.mem_singleton.mp hj]
    exact .register (hlength ▸ parent?_of_node hn)
  · exact T.duty.append rfl rfl (List.forall_mem_singleton.mpr ⟨rfl, rfl⟩) fun t ht => ht.mono hext

theorem Tended.called (T : F.Tended c) (hi : Asks c.machine i) : F.Tended (c.call i) := by
  have haround : c.machine.Around (c.machine.call [i]).2 :=
    around_call (List.forall_mem_singleton.mpr hi.isCall)
  refine T.around haround rfl T.length.2 (fun t x ht hx => ?_) (fun j hj => ?_) ?_
  · exact absurd ht (Nat.not_le.mpr (lt_length hx))
  · refine (holds_call rfl hj).imp_right fun hj => ?_
    rw [List.mem_singleton.mp hj]
    cases i with
    | start t =>
      obtain rfl : t = 0 := hi
      exact .start nofun
    | fail t e =>
      obtain rfl : t = 0 := hi
      exact .fail
    | cancel t => exact .cancel hi
    | submit t who =>
      obtain ⟨rfl, rfl, hphase⟩ := hi
      exact .submit hphase
    | microtask t caller =>
      obtain ⟨rfl, rfl, hphase⟩ := hi
      exact .microtask nofun hphase
    | _ => exact hi.elim
  · exact T.duty.append rfl rfl (List.forall_mem_singleton.mpr ⟨rfl, rfl⟩) fun _ => id

/-- **What is true at any time in a run of the family.** -/
theorem Unfolds.tended {config : LoopConfig} {workers : Nat} (h : F.Unfolds config workers c) :
    F.Tended c := by
  induction h with
  | planted => exact tended_planted F config workers
  | turn h heedStop self hturn ih => exact ih.turn h.reaches.governed hturn
  | grown _ hlength hn ih => exact ih.grown hlength hn
  | called _ i hi ih => exact ih.called hi
  | @started c _ hidle ih =>
    have haround := around_startLoop c.machine
    have htasks : c.machine.startLoop.tasks = c.machine.tasks := by
      rw [Machine.startLoop, if_pos hidle]
    have hnotes : c.machine.startLoop.notes = c.machine.notes := by
      rw [Machine.startLoop, if_pos hidle]
    refine ih.around haround hnotes (htasks ▸ ih.length.2) (fun t x ht hx => ?_) (fun j hj => ?_)
      ih.duty.startLoop
    · exact absurd ht (Nat.not_le.mpr (htasks ▸ lt_length hx))
    · exact Or.inl (holds_startLoop hj)
  | @elapsed c _ micros ih =>
    refine ih.around (around_of_eq rfl rfl rfl rfl) rfl ih.length.2 (fun t x ht hx => ?_)
      (fun j hj => Or.inl hj) (ih.duty.append rfl (List.append_nil _).symm
        (fun _ hs => absurd hs List.not_mem_nil) fun _ => id)
    exact absurd ht (Nat.not_le.mpr (lt_length hx))

end Family

end ManagedHost
