import ManagedHost.Proofs.Loop.Erasing

/-!
# Calls that are refused

A call to schedule a task binds the task to the loop, makes it active and counts it, and only then
waits for room in the queue.  It is refused at once if the loop is not running, and with `Stopped`
if the loop is stopped while it waits.  What such a call leaves behind is told by comparing the run
with the one in which it is not made (`Chronicle.Mirrors`), through the stages of the call
(`Chronicle.Progress`).

* `Reaches.refused_call`: a call that is refused at once leaves nothing behind; one that is refused
  with `Stopped` leaves the task bound to the loop, not active, and counted.
* `refusal_noticed`: so the continuations of such a task can fail when it is run beside the loop.
-/

namespace ManagedHost

variable {α : Type}

/-- Whether the instruction hands out continuations. -/
def Instr.isDispatch : Instr α → Bool
  | dispatch _ _ => true
  | _ => false

/-- The cell apart from whether the task's continuations go to the loop. -/
def TaskCell.unbound (c : TaskCell α) : TaskCell α := { c with bound := false }

/-! ### What the call leaves behind -/

namespace Eraser

variable {m : Machine α} {n : Nat} {t : TaskId} {bound : Bool} {i : Instr α} {s : Strand α}

/-- The call has not done anything. -/
def silent (n : Nat) (t : TaskId) : Eraser := { strand := n, task := t }

/-- The call waits for room; `bound` tells whether the task was bound to the loop before. -/
def inside (n : Nat) (t : TaskId) (bound : Bool) : Eraser where
  strand := n
  task := t
  bound := fun _ => bound
  active := (·.erase t)
  submitting := (· - 1)
  scheduled := (· - 1)
  active_erase l k := List.erase_comm k t

/-- The call was refused when it had waited for room. -/
def refused (n : Nat) (t : TaskId) (bound : Bool) : Eraser where
  strand := n
  task := t
  bound := fun _ => bound
  scheduled := (· - 1)

theorem apply_strands (E : Eraser) (m : Machine α) (f : Strand α → Strand α) :
    E.apply { m with strands := m.strands.modify E.strand f } = E.apply m := by
  refine congrArg (fun strands => ({ E.apply m with strands } : Machine α)) ?_
  refine List.ext_getElem? fun k => ?_
  rw [List.getElem?_set, List.getElem?_set, List.getElem?_modify, List.length_modify]
  split_ifs with hk
  · rfl
  · rfl
  · exact Option.map_id'

/-- Nothing changes if the element at the place stays what it is. -/
theorem modify_eq_self {β : Type} {l : List β} {k : Nat} {f : β → β}
    (h : ∀ x, l[k]? = some x → f x = x) : l.modify k f = l := by
  refine List.ext_getElem? fun j => ?_
  by_cases hj : k = j
  · subst hj
    rw [List.getElem?_modify_eq]
    cases hx : l[k]? with
    | none => rfl
    | some x => exact congrArg some (h x hx)
  · exact List.getElem?_modify_ne f l hj

theorem apply_silent (n : Nat) (t : TaskId) (m : Machine α) :
    (silent n t).apply m = { m with strands := m.strands.set n { role := .caller } } := by
  have htasks : m.tasks.mapIdx (silent n t).cell = m.tasks := by
    rw [mapIdx_cell]
    exact modify_eq_self fun _ _ => rfl
  exact congrArg (fun tasks => ({ m with
    tasks, strands := m.strands.set n { role := .caller } } : Machine α)) htasks

theorem apply_refused (n : Nat) (t : TaskId) (bound : Bool) (m : Machine α) :
    (refused n t bound).apply m = { m.modify t fun c => { c with bound } with
      loop := { m.loop with
        stats := { m.loop.stats with scheduled := m.loop.stats.scheduled - 1 } }
      strands := m.strands.set n { role := .caller } } :=
  congrArg (fun tasks => ({ (refused n t bound).apply m with tasks } : Machine α))
    (mapIdx_cell _ m.tasks)

/-- The submission leaves behind what is to be erased while the call waits for room. -/
theorem inside_apply {b' : TaskCell α} (hb' : m.tasks[t]? = some b') (hbound : b'.bound = bound)
    (hidle : t ∉ m.loop.active) :
    (inside n t bound).apply ((m.modify t fun c => { c with bound := true }).onLoop fun l =>
      { l.adopt t with
        submitting := l.submitting + 1
        stats := { l.stats with scheduled := l.stats.scheduled + 1 } }) =
      (silent n t).apply m := by
  have htasks : (m.tasks.modify t fun c => { c with bound := true }).mapIdx
      (inside n t bound).cell = m.tasks := by
    rw [mapIdx_cell]
    refine (List.modify_modify_eq _ _ t m.tasks).trans (modify_eq_self fun x hx => ?_)
    obtain rfl := Option.some.inj (hb'.symm.trans hx)
    rw [← hbound]
    rfl
  have hactive : (m.loop.active.insert t).erase t = m.loop.active := by
    rw [List.insert_of_not_mem hidle, List.erase_cons_head]
  have hloop : (inside n t bound).loop { m.loop.adopt t with
      submitting := m.loop.submitting + 1
      stats := { m.loop.stats with scheduled := m.loop.stats.scheduled + 1 } } = m.loop := by
    simp only [loop, inside, EventLoop.adopt, hactive, Nat.add_sub_cancel]
  rw [apply_silent]
  exact congrArg₂ (fun tasks loop => ({ m with
    tasks, loop, strands := m.strands.set n { role := .caller } } : Machine α)) htasks hloop

theorem silent_suits (hs : m.strands[n]? = some s) (hrole : s.role = .caller)
    (ht : t < m.tasks.length) : (silent n t).Suits m :=
  ⟨⟨s, hs, hrole⟩, ht, rfl, rfl⟩

theorem inside_suits (hs : m.strands[n]? = some s) (hrole : s.role = .caller)
    (ht : t < m.tasks.length) (hsubmitting : 0 < m.loop.submitting)
    (hscheduled : 0 < m.loop.stats.scheduled) : (inside n t bound).Suits m := by
  refine ⟨⟨s, hs, hrole⟩, ht, ?_, ?_⟩
  · show m.loop.submitting + 1 - 1 = m.loop.submitting - 1 + 1
    omega
  · show m.loop.stats.scheduled + 1 - 1 = m.loop.stats.scheduled - 1 + 1
    omega

theorem refused_suits (hs : m.strands[n]? = some s) (hrole : s.role = .caller)
    (ht : t < m.tasks.length) (hscheduled : 0 < m.loop.stats.scheduled) :
    (refused n t bound).Suits m := by
  refine ⟨⟨s, hs, hrole⟩, ht, rfl, ?_⟩
  show m.loop.stats.scheduled + 1 - 1 = m.loop.stats.scheduled - 1 + 1
  omega

theorem silent_spares (n : Nat) (t : TaskId) (m : Machine α) (i : Instr α) :
    (silent n t).Spares m i :=
  ⟨fun _ _ => ⟨fun _ => rfl, rfl⟩, fun _ _ => Or.inr fun _ _ => rfl, fun _ => rfl⟩

theorem insert_erase {l : List TaskId} {k : TaskId} (hk : k ≠ t) :
    (l.insert k).erase t = (l.erase t).insert k := by
  by_cases hmem : k ∈ l
  · rw [List.insert_of_mem hmem, List.insert_of_mem ((List.mem_erase_of_ne hk).mpr hmem)]
  · rw [List.insert_of_not_mem hmem, List.insert_of_not_mem fun h => hmem (List.mem_of_mem_erase h),
      List.erase_cons_tail]
    simpa using hk

/-- An instruction that does not bring the task to the loop. -/
theorem spares_of_entry_ne {E : Eraser} (hentry : m.entry? i ≠ some E.task)
    (hinsert : ∀ k, k ≠ E.task →
      E.active (m.loop.active.insert k) = (E.active m.loop.active).insert k)
    (hdispatch : ∀ children, i = .dispatch E.task children →
      children = [] ∨ ∀ c, m.tasks[E.task]? = some c → E.bound c.bound = c.bound)
    (hsweep : i = .sweepLoop → E.active m.loop.active = m.loop.active) : E.Spares m i := by
  refine ⟨fun k hk => ?_, hdispatch, hsweep⟩
  have hne : k ≠ E.task := by
    rintro rfl
    exact hentry hk
  exact ⟨fun h => absurd h hne, hinsert k hne⟩

theorem inside_spares (hentry : m.entry? i ≠ some t)
    (hdispatch : ∀ children, i = .dispatch t children →
      children = [] ∨ ∀ c, m.tasks[t]? = some c → bound = c.bound)
    (hsweep : i ≠ .sweepLoop) : (inside n t bound).Spares m i :=
  spares_of_entry_ne hentry (fun _ => insert_erase) hdispatch (absurd · hsweep)

theorem refused_spares (hentry : m.entry? i ≠ some t)
    (hdispatch : ∀ children, i = .dispatch t children →
      children = [] ∨ ∀ c, m.tasks[t]? = some c → bound = c.bound) :
    (refused n t bound).Spares m i :=
  spares_of_entry_ne hentry (fun _ _ => rfl) hdispatch fun _ => rfl

end Eraser

namespace Machine

variable {m m₁ : Machine α} {self : Nat} {heedStop : Bool} {i : Instr α} {code : List (Instr α)}
  {t : TaskId}

/-- **Whether a task's continuations go to the loop** changes only when the task is brought
there. -/
theorem exec_bound (h : m.exec heedStop self i = some (m₁, code)) {b : TaskCell α}
    (hb : m.tasks[t]? = some b) :
    ∃ b', m₁.tasks[t]? = some b' ∧
      (b'.bound = b.bound ∨ b'.bound = true ∧ m.entry? i = some t) := by
  have hretains := (exec_executes heedStop i m₁ code h).tasks
  have hlt : t < m₁.tasks.length := Nat.lt_of_lt_of_le (lt_length hb) hretains.length
  obtain ⟨b', hb'⟩ : ∃ b', m₁.tasks[t]? = some b' := ⟨_, List.getElem?_eq_getElem hlt⟩
  refine ⟨b', hb', ?_⟩
  have hsame : m₁.tasks = m.tasks → b'.bound = b.bound := fun htasks =>
    congrArg _ (Option.some.inj ((htasks ▸ hb').symm.trans hb))
  have hmodified : ∀ {l : EventLoop}, m₁ = { m.modify t (fun c => { c with bound := true }) with
      loop := l } → b'.bound = true := by
    rintro l rfl
    obtain rfl := Option.some.inj (hb'.symm.trans (getElem?_modify_self hb _))
    rfl
  rcases (hretains.cell t b b' hb hb').bound with hequal | ⟨who, rfl⟩ | ⟨caller, rfl⟩
  · exact Or.inl hequal
  · cases exec_ruled h with
    | submit hphase => exact Or.inr ⟨hmodified rfl, if_pos hphase⟩
    | submitRefused => cases who <;> exact Or.inl (hsame rfl)
  · cases exec_ruled h with
    | microtask hphase => exact Or.inr ⟨hmodified rfl, if_neg hphase⟩
    | microtaskRefused => exact Or.inl (hsame rfl)

/-- What has been submitted stays counted. -/
theorem scheduled_le {l : EventLoop} (h : CountEffect m i code l ∨ StopEffect m i code l) :
    m.loop.stats.scheduled ≤ l.stats.scheduled := by
  rcases h with h | h
  · cases h with
    | submitted => exact Nat.le_succ _
    | @recorded k => exact (m.loop.stats.record_submissions (m.state k)).1.ge
    | _ => exact le_rfl
  · rw [h.aside.1]

/-- What one step of a strand that carries out an instruction does to the machine. -/
theorem step_of_strand {s : Strand α} {i : Instr α} (hs : m.strands[self]? = some s)
    (hexited : s.exited = false) (hcode : s.code = [i]) (h : m.step heedStop self = some m₁) :
    ∃ m₂ code, m.exec heedStop self i = some (m₂, code) ∧
      m₁ = { m₂ with strands := m₂.strands.modify self fun s => { s with code } } := by
  unfold step at h
  rw [hs] at h
  dsimp only at h
  rw [if_neg (Bool.eq_false_iff.mp hexited), hcode] at h
  obtain ⟨⟨m₂, code⟩, hexec, rfl⟩ := Option.map_eq_some_iff.mp h
  refine ⟨m₂, code, hexec, ?_⟩
  simp only [List.append_nil]

end Machine

namespace Chronicle

open Machine

variable {c d e : Chronicle α} {heedStop : Bool} {self n : Nat} {t : TaskId} {config : LoopConfig}
  {workers : Nat}

/-! ### What has happened since -/

/-- What has been carried out in `d` since `c`. -/
def since (d c : Chronicle α) : List (Event α) := d.events.drop c.events.length

theorem Reaches.events (h : c.Reaches d) : c.events <+: d.events := by
  induction h with
  | refl => exact List.prefix_rfl
  | turn _ heedStop self hturn ih =>
    obtain ⟨m, hm, rfl⟩ := Option.map_eq_some_iff.mp hturn
    exact ih.trans (List.prefix_append _ _)
  | move _ _ ih => exact ih

theorem Reaches.since_carried (h : c.Reaches d) {v : Event α}
    (hevents : e.events = d.events ++ [v]) :
    e.since c = d.since c ++ [v] := by
  unfold since
  rw [hevents, List.drop_append_of_le_length h.events.length_le]

theorem bound_turn (h : c.turn heedStop self = some d) {b : TaskCell α}
    (hb : c.machine.tasks[t]? = some b) :
    ∃ b', d.machine.tasks[t]? = some b' ∧ (b'.bound = b.bound ∨ b'.bound = true ∧
      ∃ v : Event α, d.events = c.events ++ [v] ∧ v.strand = self ∧ v.entry? = some t) := by
  cases turn_turn h with
  | @carried s i rest code m₁ answer added hs _ hcode hexec hadded hd hevents =>
    obtain ⟨b', hb', hbound⟩ := exec_bound hexec hb
    refine ⟨b', by rw [hd]; exact hb', hbound.imp_right ?_⟩
    rintro ⟨hbound, hentry⟩
    exact ⟨hbound, _, hevents, rfl, hentry⟩
  | @found s role code m₁ exited hs _ _ hcode hfinds hd hevents =>
    exact ⟨b, (congrArg (·.tasks[t]?) hd).trans (hfinds.getElem?_tasks hb), Or.inl rfl⟩

theorem scheduled_turn (h : c.turn heedStop self = some d) :
    c.machine.loop.stats.scheduled ≤ d.machine.loop.stats.scheduled := by
  cases turn_turn h with
  | @carried s i rest code m₁ answer added hs _ hcode hexec hadded hd =>
    rw [hd]
    exact scheduled_le (exec_counts heedStop i m₁ code hexec)
  | @found s role code m₁ exited hs _ _ hcode hfinds hd =>
    obtain ⟨-, -, -, -, -, -, -, hstats⟩ := hfinds.books
    rw [hd]
    exact (congrArg LoopStats.scheduled hstats).ge

/-- A task that is not active stays so unless it is brought to the loop. -/
theorem Reaches.not_active_turn (hreach : (start config workers).Reaches c)
    (h : c.turn heedStop self = some d) (ht : t ∉ c.machine.loop.active)
    (hentry : ∀ v : Event α, d.events = c.events ++ [v] → v.entry? ≠ some t) :
    t ∉ d.machine.loop.active := by
  cases turn_turn h with
  | @carried s i rest code m₁ answer added hs _ hcode hexec hadded hd hevents =>
    have hloop : m₁.loop = d.machine.loop := by rw [hd]
    have heffect := exec_counts heedStop i m₁ code hexec
    rw [hloop] at heffect
    rw [mem_active_next heffect hreach.audited.nodup]
    rintro (hentered | ⟨hactive, -⟩)
    · exact hentry _ hevents hentered
    · exact ht hactive
  | @found s role code m₁ exited hs _ _ hcode hfinds hd =>
    obtain ⟨-, -, -, -, -, -, hactive, -⟩ := hfinds.books
    have hloop : d.machine.loop = m₁.loop := by rw [hd]
    rw [hloop, hactive]
    exact ht

/-! ### The run without the call -/

/-- Somebody calls, and asks for nothing. -/
def idleCall (c : Chronicle α) : Chronicle α := c.act fun m => (m.call []).2

/-- What erasing leaves of the machine can be reached when the call is not made. -/
def Mirrors (c : Chronicle α) (E : Eraser) (d : Chronicle α) : Prop :=
  ∃ d', c.idleCall.Reaches d' ∧ d'.machine = E.apply d.machine

theorem Mirrors.turn {E : Eraser} (h : c.Mirrors E d) (hE : E.Suits d.machine)
    (hself : self ≠ E.strand) (hspares : ∀ i, d.machine.next? self = some i → E.Spares d.machine i)
    (hturn : d.turn heedStop self = some e) : c.Mirrors E e := by
  obtain ⟨d', hreach, hmachine⟩ := h
  have hstep := Eraser.step_follows hE hself hspares (turn_step hturn)
  rw [← hmachine] at hstep
  exact ⟨_, hreach.turn heedStop self (congrArg (Option.map _) hstep), rfl⟩

theorem Mirrors.move {E : Eraser} (h : c.Mirrors E d) (hE : E.Suits d.machine) {m : Machine α}
    (hmove : d.machine.Move m) : c.Mirrors E { d with machine := m } := by
  obtain ⟨d', hreach, hmachine⟩ := h
  have hmove' := Eraser.move_follows hE hmove
  rw [← hmachine] at hmove'
  exact ⟨_, hreach.move hmove', rfl⟩

/-- A step of the call itself is no step of the run without it. -/
theorem Mirrors.stutter {E E' : Eraser} (h : c.Mirrors E d)
    (hsame : E'.apply e.machine = E.apply d.machine) : c.Mirrors E' e := by
  obtain ⟨d', hreach, hmachine⟩ := h
  exact ⟨d', hreach, hmachine.trans hsame.symm⟩

/-! ### The stages of a call -/

/-- **Nobody else has to do with the task** between the call that submits it at `c` and `d`: it is
not active, nobody else brings it to the loop, and none of its continuations is dispatched, unless
these go to the loop anyway. -/
structure Undisturbed (c : Chronicle α) (t : TaskId) (d : Chronicle α) : Prop where
  idle : t ∉ c.machine.loop.active
  alone : ∀ v ∈ d.since c, v.strand ≠ c.machine.strands.length → v.entry? ≠ some t
  undispatched : ∀ v ∈ d.since c, ∀ children, v.instr = .dispatch t children →
    children = [] ∨ ∃ b, c.machine.tasks[t]? = some b ∧ b.bound = true

/-- The strand has got its answer, or is about to note it. -/
def Answers (d : Chronicle α) (n : Nat) (r : TaskResult Unit) : Prop :=
  d.machine.strands[n]? = some { role := .caller, code := [.answer r] } ∨
    d.machine.strands[n]? = some { role := .caller, answer := some r }

/-- **How far a call to schedule the task has come**, and what the run would be without it. -/
inductive Progress (c : Chronicle α) (t : TaskId) (b : TaskCell α) (d : Chronicle α) : Prop
  /-- It has not been begun. -/
  | waiting
      (strand : d.machine.strands[c.machine.strands.length]? =
        some { role := .caller, code := [.submit t .caller] })
      (mirrors : c.Mirrors (.silent c.machine.strands.length t) d)
      (there : ∃ b', d.machine.tasks[t]? = some b' ∧ (c.Undisturbed t d → b'.bound = b.bound))
      (idle : c.Undisturbed t d → t ∉ d.machine.loop.active)
  /-- The loop was not running. -/
  | declined (answers : d.Answers c.machine.strands.length (.error .notRunning))
      (mirrors : c.Mirrors (.silent c.machine.strands.length t) d)
      (there : t < d.machine.tasks.length)
  /-- It waits for room. -/
  | inside
      (strand : d.machine.strands[c.machine.strands.length]? =
        some { role := .caller, code := [.enqueue t .caller] })
      (mirrors : c.Undisturbed t d →
        c.Mirrors (.inside c.machine.strands.length t b.bound) d)
      (there : ∃ b', d.machine.tasks[t]? = some b' ∧ b'.bound = true)
      (counted : 0 < d.machine.loop.stats.scheduled)
  /-- The loop was stopped meanwhile. -/
  | refused (answers : d.Answers c.machine.strands.length (.error .stopped))
      (mirrors : c.Undisturbed t d →
        c.Mirrors (.refused c.machine.strands.length t b.bound) d)
      (there : ∃ b', d.machine.tasks[t]? = some b' ∧ b'.bound = true)
      (counted : 0 < d.machine.loop.stats.scheduled)
      (dropped : ∃ v ∈ d.since c, v.strand = c.machine.strands.length ∧
        t ∉ v.after.loop.active)
  /-- The task is in the queue, or has been. -/
  | accepted (answers : d.Answers c.machine.strands.length (.ok ()))

theorem since_turn (hreach : c.Reaches d) (hturn : d.turn heedStop self = some e) :
    ∀ v ∈ d.since c, v ∈ e.since c := by
  obtain ⟨m, hm, rfl⟩ := Option.map_eq_some_iff.mp hturn
  intro v hv
  unfold since
  rw [List.drop_append_of_le_length hreach.events.length_le]
  exact List.mem_append_left _ hv

theorem Undisturbed.of_turn (h : c.Undisturbed t e) (hreach : c.Reaches d)
    (hturn : d.turn heedStop self = some e) : c.Undisturbed t d := by
  have hsub := since_turn hreach hturn
  exact ⟨h.idle, fun v hv => h.alone v (hsub v hv), fun v hv => h.undispatched v (hsub v hv)⟩

theorem event_turn (hturn : d.turn heedStop self = some e) {i : Instr α}
    (hnext : d.machine.next? self = some i) :
    e.events = d.events ++ [⟨d.machine, e.machine, self, i⟩] := by
  obtain ⟨m, hm, rfl⟩ := Option.map_eq_some_iff.mp hturn
  simp only [hnext, Option.toList_some, List.map_cons, List.map_nil]

theorem strand_event (hturn : d.turn heedStop self = some e) {v : Event α}
    (hv : e.events = d.events ++ [v]) : v.strand = self := by
  obtain ⟨m, hm, rfl⟩ := Option.map_eq_some_iff.mp hturn
  have hlist := List.append_cancel_left hv
  have hmem : v ∈ (d.machine.next? self).toList.map fun i => (⟨d.machine, m, self, i⟩ : Event α) :=
    hlist ▸ List.mem_singleton_self v
  obtain ⟨i, -, rfl⟩ := List.mem_map.mp hmem
  rfl

theorem strand_other (hturn : d.turn heedStop self = some e) (hself : n ≠ self) {s : Strand α}
    (hs : d.machine.strands[n]? = some s) : e.machine.strands[n]? = some s := by
  cases turn_turn hturn with
  | carried _ _ _ _ _ hd => exact strand_ne (congrArg strands hd) hs hself
  | found _ _ _ _ _ hd =>
    exact strand_ne_set (congrArg strands hd) hs hself

theorem Answers.other {r : TaskResult Unit} (h : d.Answers n r)
    (hturn : d.turn heedStop self = some e) (hself : n ≠ self) : e.Answers n r :=
  h.imp (strand_other hturn hself) (strand_other hturn hself)

theorem Answers.exists_strand {r : TaskResult Unit} (h : d.Answers n r) :
    ∃ s, d.machine.strands[n]? = some s ∧ s.role = .caller := by
  rcases h with hs | hs
  · exact ⟨_, hs, rfl⟩
  · exact ⟨_, hs, rfl⟩

/-- A submission that is under way is counted. -/
theorem Stopping.submitting_pos (h : d.Stopping) {s : Strand α} {who : Submitter}
    (hs : d.machine.strands[n]? = some s) (hj : .enqueue t who ∈ s.code) :
    0 < d.machine.loop.submitting := by
  rw [h.submitting, List.countP_pos_iff]
  exact ⟨_, mem_workFrom (getElem?_codes hs) hj 0, rfl⟩

/-- While a submission is under way, nobody empties the loop. -/
theorem Stopping.not_sweeping (h : d.Stopping) {s : Strand α} {who : Submitter}
    (hs : d.machine.strands[n]? = some s) (hj : .enqueue t who ∈ s.code)
    {i : Instr α} (hnext : d.machine.next? self = some i) : i ≠ .sweepLoop := by
  rintro rfl
  obtain ⟨code, hcode, hhead⟩ := Option.bind_eq_some_iff.mp hnext
  obtain ⟨r, hr, rfl⟩ := Option.map_eq_some_iff.mp ((List.getElem?_map ..).symm.trans hcode)
  have hstopped := h.phase self (h.sweeping self r hr (List.mem_of_mem_head? hhead)).1
  cases h.isEnqueue_eq_false hstopped hs hj

/-- A step of a strand that has one instruction left. -/
theorem own_turn (hreach : c.Reaches d) (hturn : d.turn heedStop self = some e) {i : Instr α}
    (hs : d.machine.strands[self]? = some { role := .caller, code := [i] }) :
    ∃ m₂ code, d.machine.exec heedStop self i = some (m₂, code) ∧
      e.machine = { m₂ with strands := m₂.strands.modify self (fun s => { s with code }) } ∧
      (m₂.strands = d.machine.strands →
        e.machine.strands[self]? = some { role := .caller, code }) ∧
      (⟨d.machine, e.machine, self, i⟩ : Event α) ∈ e.since c := by
  obtain ⟨m₂, code, hexec, he⟩ := step_of_strand hs rfl rfl (turn_step hturn)
  have hnext : d.machine.next? self = some i := by
    unfold next?
    rw [getElem?_codes hs]
    rfl
  refine ⟨m₂, code, hexec, he, fun hsame => ?_, ?_⟩
  · rw [he]
    show (m₂.strands.modify self _)[self]? = _
    rw [List.getElem?_modify_eq, hsame, hs]
    rfl
  · rw [hreach.since_carried (event_turn hturn hnext)]
    exact List.mem_append_right _ (List.mem_singleton_self _)

/-- The answer is noted, and then the strand has nothing more to do. -/
theorem Answers.own {r : TaskResult Unit} (h : d.Answers n r)
    (hturn : d.turn heedStop n = some e) :
    e.Answers n r ∧ ∃ strands, e.machine = { d.machine with strands } ∧
      ∀ E : Eraser, E.strand = n → E.apply e.machine = E.apply d.machine := by
  rcases h with hs | hs
  · obtain ⟨m₂, code, hexec, he⟩ := step_of_strand hs rfl rfl (turn_step hturn)
    cases exec_ruled hexec
    refine ⟨Or.inr ?_, _, he, ?_⟩
    · rw [he]
      show ((d.machine.strands.modify n _).modify n _)[n]? = _
      rw [List.getElem?_modify_eq, List.getElem?_modify_eq, hs]
      rfl
    · rintro E rfl
      rw [he]
      exact (E.apply_strands { d.machine with strands := d.machine.strands.modify E.strand _ }
        _).trans (E.apply_strands d.machine _)
  · have hstep := turn_step hturn
    unfold step at hstep
    rw [hs] at hstep
    cases hstep

section Turn

variable {b : TaskCell α} (h : (start config workers).Reaches c) (hreach : c.Reaches d)
  (hturn : d.turn heedStop self = some e)

include h hreach hturn

/-- **A step of another strand.** -/
theorem Progress.other (hb : c.machine.tasks[t]? = some b) (p : c.Progress t b d)
    (hself : c.machine.strands.length ≠ self) : c.Progress t b e := by
  have hd := h.trans hreach
  have hlast : ∀ v : Event α, e.events = d.events ++ [v] → v ∈ e.since c := by
    intro v hv
    rw [hreach.since_carried hv]
    exact List.mem_append_right _ (List.mem_singleton_self v)
  have hkept : ∀ {b' : TaskCell α}, d.machine.tasks[t]? = some b' → b'.bound = true →
      ∃ b'', e.machine.tasks[t]? = some b'' ∧ b''.bound = true := by
    intro b' hb' hbound
    obtain ⟨b'', hb'', hsame | ⟨htrue, -⟩⟩ := bound_turn hturn hb'
    · exact ⟨b'', hb'', hsame.trans hbound⟩
    · exact ⟨b'', hb'', htrue⟩
  -- what nobody else does to the task
  have hentry : c.Undisturbed t e → ∀ i, d.machine.next? self = some i →
      d.machine.entry? i ≠ some t := by
    intro hu i hnext
    exact hu.alone _ (hlast _ (event_turn hturn hnext)) hself.symm
  have hdispatch : c.Undisturbed t e → ∀ {b' : TaskCell α}, d.machine.tasks[t]? = some b' →
      b'.bound = true → ∀ i, d.machine.next? self = some i → ∀ children,
      i = .dispatch t children → children = [] ∨ ∀ c, d.machine.tasks[t]? = some c →
        b.bound = c.bound := by
    intro hu b' hb' hbound i hnext children hi
    refine (hu.undispatched _ (hlast _ (event_turn hturn hnext)) children hi).imp_right ?_
    rintro ⟨b₀, hb₀, htrue⟩ c' hc'
    obtain rfl := Option.some.inj (hb₀.symm.trans hb)
    obtain rfl := Option.some.inj (hc'.symm.trans hb')
    exact htrue.trans hbound.symm
  cases p with
  | waiting strand mirrors there idle =>
    obtain ⟨b', hb', hsame⟩ := there
    obtain ⟨b'', hb'', hbound⟩ := bound_turn hturn hb'
    refine .waiting (strand_other hturn hself strand)
      (mirrors.turn (Eraser.silent_suits strand rfl (lt_length hb')) hself.symm
        (fun i _ => Eraser.silent_spares _ _ _ i) hturn) ⟨b'', hb'', fun hu => ?_⟩ fun hu => ?_
    · rcases hbound with hbound | ⟨-, v, hv, hstrand, hentered⟩
      · exact hbound.trans (hsame (hu.of_turn hreach hturn))
      · refine absurd hentered (hu.alone v (hlast v hv) ?_)
        rw [hstrand]
        exact hself.symm
    · refine hd.not_active_turn hturn (idle (hu.of_turn hreach hturn)) fun v hv => ?_
      refine hu.alone v (hlast v hv) ?_
      rw [strand_event hturn hv]
      exact hself.symm
  | declined answers mirrors there =>
    obtain ⟨s, hs, hrole⟩ := answers.exists_strand
    obtain ⟨b'', hb'', -⟩ := bound_turn hturn (List.getElem?_eq_getElem there)
    exact .declined (answers.other hturn hself)
      (mirrors.turn (Eraser.silent_suits hs hrole there) hself.symm
        (fun i _ => Eraser.silent_spares _ _ _ i) hturn) (lt_length hb'')
  | inside strand mirrors there counted =>
    obtain ⟨b', hb', hbound⟩ := there
    have hmem := List.mem_singleton_self (Instr.enqueue (α := α) t .caller)
    refine .inside (strand_other hturn hself strand) (fun hu => ?_) (hkept hb' hbound)
      (counted.trans_le (scheduled_turn hturn))
    refine (mirrors (hu.of_turn hreach hturn)).turn (Eraser.inside_suits strand rfl (lt_length hb')
      (hd.stopping.submitting_pos strand hmem) counted) hself.symm (fun i hnext => ?_) hturn
    exact Eraser.inside_spares (hentry hu i hnext) (hdispatch hu hb' hbound i hnext)
      (hd.stopping.not_sweeping strand hmem hnext)
  | refused answers mirrors there counted dropped =>
    obtain ⟨b', hb', hbound⟩ := there
    obtain ⟨s, hs, hrole⟩ := answers.exists_strand
    refine .refused (answers.other hturn hself) (fun hu => ?_) (hkept hb' hbound)
      (counted.trans_le (scheduled_turn hturn)) ?_
    · refine (mirrors (hu.of_turn hreach hturn)).turn (Eraser.refused_suits hs hrole
        (lt_length hb') counted) hself.symm (fun i hnext => ?_) hturn
      exact Eraser.refused_spares (hentry hu i hnext) (hdispatch hu hb' hbound i hnext)
    · obtain ⟨v, hv, hrest⟩ := dropped
      exact ⟨v, since_turn hreach hturn v hv, hrest⟩
  | accepted answers => exact .accepted (answers.other hturn hself)

/-- **A step of the call itself.** -/
theorem Progress.own (p : c.Progress t b d) (hself : self = c.machine.strands.length) :
    c.Progress t b e := by
  have hd := h.trans hreach
  subst hself
  cases p with
  | waiting strand mirrors there idle =>
    obtain ⟨b', hb', hsame⟩ := there
    obtain ⟨m₂, code, hexec, he, hstrand, -⟩ := own_turn hreach hturn strand
    cases exec_ruled hexec with
    | submit =>
      -- the submission is counted before it is known whether there is room
      refine .inside (hstrand rfl) (fun hu => ?_) ?_ ?_
      · refine mirrors.stutter ?_
        have hu' := hu.of_turn hreach hturn
        rw [he]
        exact ((Eraser.inside _ t b.bound).apply_strands _ _).trans
          (Eraser.inside_apply hb' (hsame hu') (idle hu'))
      · rw [he]
        exact ⟨_, getElem?_modify_self hb' _, rfl⟩
      · rw [he]
        exact Nat.succ_pos _
    | submitRefused =>
      refine .declined (Or.inl (hstrand rfl)) (mirrors.stutter ?_) ?_
      · rw [he]
        exact Eraser.apply_strands _ _ _
      · rw [he]
        exact lt_length hb'
  | declined answers mirrors there =>
    obtain ⟨hanswers, strands, he, hsame⟩ := answers.own hturn
    refine .declined hanswers (mirrors.stutter (hsame _ rfl)) ?_
    rw [he]
    exact there
  | inside strand mirrors there counted =>
    obtain ⟨b', hb', hbound⟩ := there
    obtain ⟨m₂, code, hexec, he, hstrand, hevent⟩ := own_turn hreach hturn strand
    cases exec_ruled hexec with
    | enqueueRefused =>
      -- only its place among the active tasks and the submission under way are taken back
      refine .refused (Or.inl (hstrand rfl)) (fun hu => ?_) ?_ ?_ ⟨_, hevent, rfl, ?_⟩
      · refine (mirrors (hu.of_turn hreach hturn)).stutter ?_
        rw [he]
        exact ((Eraser.refused _ t b.bound).apply_strands _ _).trans rfl
      · rw [he]
        exact ⟨b', hb', hbound⟩
      · rw [he]
        exact counted
      · show t ∉ e.machine.loop.active
        rw [he]
        exact hd.audited.nodup.not_mem_erase
    | enqueue => exact .accepted (Or.inl (hstrand rfl))
  | refused answers mirrors there counted dropped =>
    obtain ⟨hanswers, strands, he, hsame⟩ := answers.own hturn
    obtain ⟨v, hv, hrest⟩ := dropped
    refine .refused hanswers (fun hu => (mirrors (hu.of_turn hreach hturn)).stutter (hsame _ rfl))
      ?_ ?_ ⟨v, since_turn hreach hturn v hv, hrest⟩
    · rw [he]
      exact there
    · rw [he]
      exact counted
  | accepted answers => exact .accepted (answers.own hturn).1

end Turn

/-- **What happens beside the strands.** -/
theorem Progress.move {b : TaskCell α} {m : Machine α} (h : (start config workers).Reaches c)
    (hreach : c.Reaches d) (p : c.Progress t b d) (hmove : d.machine.Move m) :
    c.Progress t b { d with machine := m } := by
  have haround := hmove.around
  obtain ⟨timers, hstats⟩ := hmove.stats_eq
  have hscheduled : m.loop.stats.scheduled = d.machine.loop.stats.scheduled := by rw [hstats]
  have hstrand : ∀ {s : Strand α}, d.machine.strands[c.machine.strands.length]? = some s →
      m.strands[c.machine.strands.length]? = some s := by
    intro s hs
    obtain ⟨new, hnew, -⟩ := haround.strands
    rw [hnew, List.getElem?_append_left (List.getElem?_eq_some_iff.mp hs).1]
    exact hs
  have hanswers : ∀ {r : TaskResult Unit}, d.Answers c.machine.strands.length r →
      Answers { d with machine := m } c.machine.strands.length r := fun h => h.imp hstrand hstrand
  have hcell : ∀ {b' : TaskCell α}, d.machine.tasks[t]? = some b' → m.tasks[t]? = some b' :=
    haround.beside.getElem?_tasks
  have hundisturbed : c.Undisturbed t { d with machine := m } → c.Undisturbed t d :=
    fun hu => ⟨hu.idle, hu.alone, hu.undispatched⟩
  cases p with
  | waiting strand mirrors there idle =>
    obtain ⟨b', hb', hsame⟩ := there
    refine .waiting (hstrand strand)
      (mirrors.move (Eraser.silent_suits strand rfl (lt_length hb')) hmove)
      ⟨b', hcell hb', fun hu => hsame (hundisturbed hu)⟩ fun hu => ?_
    show t ∉ m.loop.active
    rw [haround.loop.active]
    exact idle (hundisturbed hu)
  | declined answers mirrors there =>
    obtain ⟨s, hs, hrole⟩ := answers.exists_strand
    exact .declined (hanswers answers) (mirrors.move (Eraser.silent_suits hs hrole there) hmove)
      (there.trans_le haround.length_le)
  | inside strand mirrors there counted =>
    obtain ⟨b', hb', hbound⟩ := there
    refine .inside (hstrand strand) (fun hu => ?_) ⟨b', hcell hb', hbound⟩
      (counted.trans_eq hscheduled.symm)
    refine (mirrors (hundisturbed hu)).move (Eraser.inside_suits strand rfl (lt_length hb') ?_
      counted) hmove
    exact (h.trans hreach).stopping.submitting_pos strand (List.mem_singleton_self _)
  | refused answers mirrors there counted dropped =>
    obtain ⟨b', hb', hbound⟩ := there
    obtain ⟨s, hs, hrole⟩ := answers.exists_strand
    refine .refused (hanswers answers) (fun hu => ?_) ⟨b', hcell hb', hbound⟩
      (counted.trans_eq hscheduled.symm) dropped
    exact (mirrors (hundisturbed hu)).move (Eraser.refused_suits hs hrole (lt_length hb') counted)
      hmove
  | accepted answers => exact .accepted (hanswers answers)

theorem Reaches.of_call (hcall : (c.call (.submit t .caller)).Reaches d) : c.Reaches d :=
  (Reaches.refl.call (.submit t .caller) trivial trivial).trans hcall

/-- **Every run after the call** is at one of its stages. -/
theorem Reaches.progress {b : TaskCell α} (h : (start config workers).Reaches c)
    (hb : c.machine.tasks[t]? = some b) (hcall : (c.call (.submit t .caller)).Reaches d) :
    c.Progress t b d := by
  induction hcall with
  | refl =>
    refine .waiting List.getElem?_concat_length ⟨_, .refl, ?_⟩ ⟨b, hb, fun _ => rfl⟩
      fun hu => hu.idle
    rw [Eraser.apply_silent]
    refine congrArg (fun strands => ({ c.machine with strands } : Machine α)) ?_
    show _ = (c.machine.strands ++ [_]).set c.machine.strands.length _
    rw [List.set_append_right _ _ le_rfl, Nat.sub_self]
    rfl
  | @turn d e hreach heedStop self hturn ih =>
    by_cases hself : self = c.machine.strands.length
    · exact ih.own h hreach.of_call hturn hself
    · exact ih.other h hreach.of_call hturn hb (Ne.symm hself)
  | move hreach hmove ih => exact ih.move h hreach.of_call hmove

/-! ### What a refused call leaves behind -/

theorem Answers.eq {r r' : TaskResult Unit} (h : d.Answers n r)
    (hanswer : d.machine.answer n = some r') : r = r' := by
  obtain ⟨s, hs, hsome⟩ := Option.bind_eq_some_iff.mp hanswer
  rcases h with h | h
  · obtain rfl := Option.some.inj (h.symm.trans hs)
    cases hsome
  · obtain rfl := Option.some.inj (h.symm.trans hs)
    exact Option.some.inj hsome

/-- A step of the call changes no cell, except that it may bind a task to the loop. -/
theorem Progress.unbound {b : TaskCell α} (hreach : c.Reaches d) (p : c.Progress t b d)
    (hturn : d.turn heedStop c.machine.strands.length = some e) :
    e.machine.tasks.map TaskCell.unbound = d.machine.tasks.map TaskCell.unbound := by
  have hkept : ∀ {strands : List (Strand α)}, e.machine = { d.machine with strands } →
      e.machine.tasks.map TaskCell.unbound = d.machine.tasks.map TaskCell.unbound := by
    intro strands he
    rw [he]
  cases p with
  | waiting strand =>
    obtain ⟨m₂, code, hexec, he, -⟩ := own_turn hreach hturn strand
    rw [he]
    cases exec_ruled hexec with
    | submit =>
      refine List.ext_getElem? fun k => ?_
      show ((d.machine.tasks.modify t _).map _)[k]? = _
      rw [List.getElem?_map, List.getElem?_map, List.getElem?_modify, Option.map_eq_map,
        Option.map_map]
      refine congrArg (Option.map · _) (funext fun b => ?_)
      show TaskCell.unbound (if t = k then _ else b) = _
      split_ifs <;> rfl
    | submitRefused => rfl
  | inside strand =>
    obtain ⟨m₂, code, hexec, he, -⟩ := own_turn hreach hturn strand
    rw [he]
    cases exec_ruled hexec <;> rfl
  | declined answers =>
    obtain ⟨-, strands, he, -⟩ := answers.own hturn
    exact hkept he
  | refused answers =>
    obtain ⟨-, strands, he, -⟩ := answers.own hturn
    exact hkept he
  | accepted answers =>
    obtain ⟨-, strands, he, -⟩ := answers.own hturn
    exact hkept he

/-- Nothing that the call does changes a cell, except that a task may be bound to the loop. -/
theorem Reaches.call_unbound {b : TaskCell α} (h : (start config workers).Reaches c)
    (hb : c.machine.tasks[t]? = some b) (hcall : (c.call (.submit t .caller)).Reaches d) :
    ∀ v ∈ d.since c, v.strand = c.machine.strands.length →
      v.after.tasks.map TaskCell.unbound = v.before.tasks.map TaskCell.unbound := by
  induction hcall with
  | refl =>
    intro v hv
    rw [since, show (c.call (.submit t .caller)).events = c.events from rfl,
      List.drop_length] at hv
    exact absurd hv List.not_mem_nil
  | @turn d e hcall heedStop self hturn ih =>
    have hreach : c.Reaches d := hcall.of_call
    intro v hv hstrand
    obtain ⟨m, hm, rfl⟩ := Option.map_eq_some_iff.mp hturn
    unfold since at hv
    rw [List.drop_append_of_le_length hreach.events.length_le] at hv
    rcases List.mem_append.mp hv with hv | hv
    · exact ih v hv hstrand
    · obtain ⟨i, -, rfl⟩ := List.mem_map.mp hv
      obtain rfl : self = c.machine.strands.length := hstrand
      exact (h.progress hb hcall).unbound hreach hturn
  | move _ _ ih => exact ih

/-- A task that was bound to the loop stays so. -/
theorem Reaches.bound (h : c.Reaches d) {b : TaskCell α} (hb : c.machine.tasks[t]? = some b)
    (hbound : b.bound = true) : ∃ b', d.machine.tasks[t]? = some b' ∧ b'.bound = true := by
  induction h with
  | refl => exact ⟨b, hb, hbound⟩
  | turn _ heedStop self hturn ih =>
    obtain ⟨b', hb', htrue⟩ := ih
    obtain ⟨b'', hb'', hsame | ⟨htrue, -⟩⟩ := bound_turn hturn hb'
    · exact ⟨b'', hb'', hsame.trans htrue⟩
    · exact ⟨b'', hb'', htrue⟩
  | move _ hmove ih =>
    obtain ⟨b', hb', htrue⟩ := ih
    exact ⟨b', hmove.around.beside.getElem?_tasks hb', htrue⟩

/-- **What a call that was refused with `Stopped` leaves behind.** -/
structure Residue (c : Chronicle α) (t : TaskId) (b : TaskCell α) (d : Chronicle α) : Prop where
  /-- The call has taken the task out of the active ones, whoever put it there. -/
  dropped : ∃ v ∈ d.since c, v.strand = c.machine.strands.length ∧ t ∉ v.after.loop.active
  /-- From now on, whoever dispatches the task's continuations hands them to the loop. -/
  dispatched : ∀ e, d.Reaches e → ∀ heedStop self children,
    e.machine.exec heedStop self (.dispatch t children) =
      some (e.machine, children.map (.microtask · false))
  /-- Otherwise nothing has changed but for the number of submissions. -/
  mirrored : c.Undisturbed t d → 0 < d.machine.loop.stats.scheduled ∧
    ∃ d', c.idleCall.Reaches d' ∧
      d'.machine = { d.machine.modify t fun b' => { b' with bound := b.bound } with
        loop := { d.machine.loop with stats := { d.machine.loop.stats with
          scheduled := d.machine.loop.stats.scheduled - 1 } }
        strands := d.machine.strands.set c.machine.strands.length { role := .caller } }

/-- **A call to schedule a task that is refused.**  In every state of the loop, for every task and
whatever happens until the call returns an error:

* the error is `NotRunning` or `Stopped`;
* no step of the call has changed a cell, except that the task may have been bound to the loop: its
  state, its outcome, its token, its body and its continuations are those that it had;
* if it is `NotRunning`, all is as if the call had not been made;
* if it is `Stopped`, the call has left something behind: it has taken the task out of the active
  ones, and bound it to the loop for good, so that its continuations will be handed to a loop that
  does not run them.  If nobody else has had to do with the task meanwhile, that and one submission
  too many are all that is different from a run without the call. -/
theorem Reaches.refused_call {b : TaskCell α} {error : TaskError}
    (h : (start config workers).Reaches c) (hb : c.machine.tasks[t]? = some b)
    (hcall : (c.call (.submit t .caller)).Reaches d)
    (hanswer : d.machine.answer c.machine.strands.length = some (.error error)) :
    (∀ v ∈ d.since c, v.strand = c.machine.strands.length →
      v.after.tasks.map TaskCell.unbound = v.before.tasks.map TaskCell.unbound) ∧
      ((error = .notRunning ∧ ∃ d', c.idleCall.Reaches d' ∧ d'.machine = { d.machine with
          strands := d.machine.strands.set c.machine.strands.length { role := .caller } }) ∨
        (error = .stopped ∧ c.Residue t b d)) := by
  refine ⟨h.call_unbound hb hcall, ?_⟩
  cases h.progress hb hcall with
  | waiting strand =>
    unfold answer at hanswer
    rw [strand] at hanswer
    cases hanswer
  | inside strand =>
    unfold answer at hanswer
    rw [strand] at hanswer
    cases hanswer
  | accepted answers => exact nomatch answers.eq hanswer
  | declined answers mirrors =>
    obtain rfl := Except.error.inj (answers.eq hanswer)
    obtain ⟨d', hreach, hd'⟩ := mirrors
    exact Or.inl ⟨rfl, d', hreach, hd'.trans (Eraser.apply_silent _ t _)⟩
  | refused answers mirrors there counted dropped =>
    obtain rfl := Except.error.inj (answers.eq hanswer)
    obtain ⟨b', hb', hbound⟩ := there
    refine Or.inr ⟨rfl, dropped, fun e hlater heedStop self children => ?_, fun hu => ⟨counted, ?_⟩⟩
    · obtain ⟨b'', hb'', htrue⟩ := hlater.bound hb' hbound
      simp only [exec, hb'', htrue, if_true]
    · obtain ⟨d', hreach, hd'⟩ := mirrors hu
      exact ⟨d', hreach, hd'.trans (Eraser.apply_refused _ t _ _)⟩

/-! ### A call that waits for room when the loop is stopped -/

/-- A loop with one worker, which is held at the gate with task 0, and no room in the queue.  Strand
4 is about to stop it. -/
def crowded : Chronicle Nat :=
  ((((((start { workers := 1, queueCapacity := 0 } 0).act
    fun m => (m.newTask (.script [.gate] (.done (.returns (.ok 7))))).2).act
    fun m => (m.newTask (.script [] (.done (.returns (.ok 1))))).2).act startLoop).call
    (.submit 0 .caller)).run [3, 3, 3, 0, 0, 0, 0]).call .stopLoop

/-- Strand 5 waits with task 1 for room until the loop is stopped. -/
def rebuffed : Chronicle Nat := (crowded.call (.submit 1 .caller)).run [5, 4, 5, 5, 4]

theorem reaches_crowded : (start { workers := 1, queueCapacity := 0 } 0).Reaches crowded :=
  ((((Reaches.refl.act (.newTask _ none rfl)).act (.newTask _ none rfl)).act .startLoop).call
    (.submit 0 .caller) trivial trivial |>.run _).call .stopLoop trivial trivial

/-- The task gets a continuation, and is run beside the loop. -/
def pursue (c : Chronicle α) (t : TaskId) (body : Body α) (selves : List Nat) : Chronicle α :=
  ((c.act fun m => (m.continueWith t body).2).call (.start t)).run selves

/-- Without the call, the loop has one submission less. -/
theorem refused_call_rebuffed :
    rebuffed.machine.loop.stats.scheduled = 2 ∧
      ∃ d, crowded.idleCall.Reaches d ∧ d.machine.loop.stats.scheduled = 1 ∧
        d.machine.loop.active = rebuffed.machine.loop.active := by
  have hscheduled : rebuffed.machine.loop.stats.scheduled = 2 := by decide +kernel
  have hanswer : rebuffed.machine.answer crowded.machine.strands.length
      = some (.error .stopped) := by
    decide +kernel
  obtain ⟨b, hb⟩ : ∃ b, crowded.machine.tasks[1]? = some b := ⟨_, rfl⟩
  have hcall : (crowded.call (.submit 1 .caller)).Reaches rebuffed := Reaches.refl.run _
  obtain ⟨-, ⟨hrunning, -⟩ | ⟨-, hresidue⟩⟩ := reaches_crowded.refused_call hb hcall hanswer
  · cases hrunning
  have hundisturbed : crowded.Undisturbed 1 rebuffed := by
    refine ⟨by decide +kernel, by decide +kernel, fun v hv children hinstr => ?_⟩
    have hnone : ∀ v ∈ rebuffed.since crowded, v.instr.isDispatch = false := by decide +kernel
    have hv := hnone v hv
    rw [hinstr] at hv
    cases hv
  obtain ⟨-, d, hreach, hd⟩ := hresidue.mirrored hundisturbed
  refine ⟨hscheduled, d, hreach, ?_, ?_⟩
  · rw [hd]
    show rebuffed.machine.loop.stats.scheduled - 1 = 1
    rw [hscheduled]
  · rw [hd]

/-- **The task's continuations tell whether the call was made**: it is run after the call was
refused, and its continuation fails, as it would not have done otherwise. -/
theorem refusal_noticed :
    ¬ ∀ (config : LoopConfig) (workers : Nat) (c : Chronicle Nat) (t : TaskId) (error : TaskError)
        (body : Body Nat) (during after : List Nat),
      (start config workers).Reaches c →
      ((c.call (.submit t .caller)).run during).machine.answer c.machine.strands.length =
        some (.error error) →
      ∀ k, (((c.call (.submit t .caller)).run during).pursue t body after).machine.outcome k =
        ((c.idleCall.run during).pursue t body after).machine.outcome k := by
  intro hall
  have hsame := hall _ 0 crowded 1 .stopped (.andThen 1 none fun v => .returns (.ok (v + 1)))
    [5, 4, 5, 5, 4] ([6] ++ List.replicate 12 7) reaches_crowded (by decide +kernel) 2
  exact absurd hsame (by decide +kernel)

end Chronicle

end ManagedHost
