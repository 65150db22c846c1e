import ManagedHost.Proofs.Loop.Attendance

/-!
# Chronicles

A chronicle is the machine together with the instructions that its strands have carried out.  From
these one reads off the bodies that were begun and ended, the tasks that the loop accepted, and who
stopped it.

* `Reaches.begun_or_ended`: a body that was begun has ended, or the strand that began it is still at
  it.
* `Reaches.accepted_attended`: a task that the loop accepted is attended to until it is started or
  settled.
-/

namespace ManagedHost

variable {α : Type}

/-- An instruction that was carried out. -/
structure Event (α : Type) where
  before : Machine α
  after : Machine α
  /-- Who carried it out. -/
  strand : Nat
  instr : Instr α

namespace Event

/-- The strand and the task, if a body begins. -/
def begun? (e : Event α) : Option (Nat × TaskId) :=
  match e.instr with
  | .start t =>
    if (e.before.tasks[t]?.bind TaskCell.start?).isSome then some (e.strand, t) else none
  | _ => none

/-- The strand and the task, if a body has come to its end. -/
def ended? (e : Event α) : Option (Nat × TaskId) :=
  match e.instr with
  | .settle t .running _ .run => some (e.strand, t)
  | _ => none

/-- The task, if the loop accepts one: it is put on the queue or among the microtasks. -/
def accepted? (e : Event α) : Option TaskId :=
  match e.instr with
  | .enqueue t _ =>
    if t < e.before.tasks.length ∧ e.before.loop.queue.length < e.after.loop.queue.length then
      some t
    else none
  | .microtask t _ =>
    if t < e.before.tasks.length ∧
      e.before.loop.microtasks.length < e.after.loop.microtasks.length then some t
    else none
  | _ => none

/-- The strand, if it stops the loop. -/
def stopper? (e : Event α) : Option Nat :=
  match e.instr with
  | .markStopped => if e.before.loop.phase = .running then some e.strand else none
  | _ => none

end Event

/-- The machine and what was carried out so far, oldest first. -/
structure Chronicle (α : Type) where
  machine : Machine α
  events : List (Event α) := []

namespace Chronicle

/-- Let a strand take a step; `none` while it has to wait. -/
def turn (heedStop : Bool) (self : Nat) (c : Chronicle α) : Option (Chronicle α) :=
  (c.machine.step heedStop self).map fun m =>
    { machine := m
      events := c.events ++ (c.machine.next? self).toList.map (⟨c.machine, m, self, ·⟩) }

/-- Let strands take steps in the order of the list; those that have to wait take none. -/
def run (selves : List Nat) (c : Chronicle α) : Chronicle α :=
  selves.foldl (fun c self => (c.turn true self).getD c) c

/-- Let a caller do something. -/
def act (f : Machine α → Machine α) (c : Chronicle α) : Chronicle α :=
  { c with machine := f c.machine }

/-- Let a call begin. -/
def call (i : Instr α) (c : Chronicle α) : Chronicle α := c.act fun m => (m.call [i]).2

/-- What can be reached, by any order of steps and moves.  Results about every run are about these:
bodies run and cancel tasks, wait and stop the loop (`Action`), and all other calls are made by
callers (`Machine.Move`). -/
inductive Reaches (c : Chronicle α) : Chronicle α → Prop where
  | refl : Reaches c c
  | turn {d e : Chronicle α} (h : Reaches c d) (heedStop : Bool) (self : Nat)
      (hturn : d.turn heedStop self = some e) : Reaches c e
  | move {d : Chronicle α} (h : Reaches c d) {m : Machine α} (hmove : d.machine.Move m) :
      Reaches c { d with machine := m }

/-- Nothing has happened yet. -/
def start (config : LoopConfig) (workers : Nat) : Chronicle α :=
  { machine := Machine.initial config workers }

/-- The bodies that were begun, each with the strand that began it. -/
def begun (c : Chronicle α) : List (Nat × TaskId) := c.events.filterMap Event.begun?

/-- The bodies that came to their end, each with the strand that ran it. -/
def ended (c : Chronicle α) : List (Nat × TaskId) := c.events.filterMap Event.ended?

/-- The tasks that the loop accepted. -/
def accepted (c : Chronicle α) : List TaskId := c.events.filterMap Event.accepted?

/-- Who stopped the loop. -/
def stoppers (c : Chronicle α) : List Nat := c.events.filterMap Event.stopper?

variable {c d e : Chronicle α} {heedStop : Bool} {self : Nat}

theorem Reaches.trans (h : c.Reaches d) (h' : d.Reaches e) : c.Reaches e := by
  induction h' with
  | refl => exact h
  | turn _ heedStop self hturn ih => exact ih.turn heedStop self hturn
  | move _ hmove ih => exact ih.move hmove

theorem Reaches.run (h : c.Reaches d) (selves : List Nat) : c.Reaches (d.run selves) := by
  induction selves generalizing d with
  | nil => exact h
  | cons self rest ih =>
    refine ih ?_
    show c.Reaches ((d.turn true self).getD d)
    cases hturn : d.turn true self with
    | none => exact h
    | some e => exact h.turn true self hturn

theorem Reaches.act (h : c.Reaches d) {f : Machine α → Machine α}
    (hmove : d.machine.Move (f d.machine)) : c.Reaches (d.act f) :=
  h.move hmove

theorem Reaches.call (h : c.Reaches d) (i : Instr α) (hcall : i.IsCall) (hgrounded : i.Grounded 0) :
    c.Reaches (d.call i) :=
  h.act (.call [i] (List.forall_mem_singleton.mpr ⟨hcall, hgrounded.mono (Nat.zero_le _)⟩))

/-! ### Steps -/

/-- **A step of the strand `self`**, and what is recorded of it. -/
inductive Turn (c : Chronicle α) (heedStop : Bool) (self : Nat) (d : Chronicle α) : Prop where
  | carried {s : Strand α} {i : Instr α} {rest code : List (Instr α)} {m₁ : Machine α}
      {answer : Option (TaskResult Unit)} {added : List (Strand α)}
      (hs : c.machine.strands[self]? = some s) (hexited : s.exited = false)
      (hcode : s.code = i :: rest) (hexec : c.machine.exec heedStop self i = some (m₁, code))
      (hadded : ∀ a ∈ added, a.IsSetup)
      (hd : d.machine = { m₁ with
        strands := c.machine.strands.set self { s with code := code ++ rest, answer } ++ added })
      (hevents : d.events = c.events ++ [⟨c.machine, d.machine, self, i⟩])
      (hpromise : added = [] ∨ ∃ t p, .awaitPromise t p ∈ code)
  | found {s : Strand α} {role : Role} {code : List (Instr α)} {m₁ : Machine α} {exited : Bool}
      (hs : c.machine.strands[self]? = some s) (hrole : s.role = role) (hexited : s.exited = false)
      (hcode : s.code = []) (hfinds : c.machine.Finds role m₁ code exited)
      (hd : d.machine =
        { m₁ with strands := c.machine.strands.set self { s with code, exited } })
      (hevents : d.events = c.events)

theorem turn_step (h : c.turn heedStop self = some d) :
    c.machine.step heedStop self = some d.machine := by
  obtain ⟨m, hm, rfl⟩ := Option.map_eq_some_iff.mp h
  exact hm

theorem turn_turn (h : c.turn heedStop self = some d) : c.Turn heedStop self d := by
  obtain ⟨m, hm, rfl⟩ := Option.map_eq_some_iff.mp h
  have hnext : ∀ s, c.machine.strands[self]? = some s →
      c.machine.next? self = s.code.head? := by
    intro s hs
    unfold Machine.next?
    rw [Machine.getElem?_codes hs]
    rfl
  cases Machine.step_turn hm with
  | carried hs hexited hcode hexec hadded hm' hpromise =>
    refine .carried hs hexited hcode hexec hadded hm' ?_ hpromise
    rw [hnext _ hs, hcode]
    rfl
  | found hs hrole hexited hcode hfinds hm' =>
    refine .found hs hrole hexited hcode hfinds hm' ?_
    dsimp only
    rw [hnext _ hs, hcode]
    exact List.append_nil _

theorem Reaches.machine (h : c.Reaches d) : c.machine.Reaches d.machine := by
  induction h with
  | refl => exact .refl
  | turn _ heedStop self hturn ih => exact ih.step heedStop self (turn_step hturn)
  | move _ hmove ih => exact ih.move hmove

section Start

variable {config : LoopConfig} {workers : Nat}

theorem Reaches.governed (h : (start config workers).Reaches c) : c.machine.Governed :=
  h.machine.governed (Machine.governed_initial config workers)

theorem Reaches.attended (h : (start config workers).Reaches c) : c.machine.Attended :=
  h.machine.attended (Machine.governed_initial config workers)
    (Machine.attended_initial config workers)

/-- What is recorded of one more event. -/
theorem mem_filterMap_concat {β : Type} {f : Event α → Option β} {events : List (Event α)}
    {v : Event α} {x : β} :
    x ∈ (events ++ [v]).filterMap f ↔ x ∈ events.filterMap f ∨ f v = some x := by
  rw [List.filterMap_append, List.mem_append]
  refine or_congr_right ?_
  simp only [List.mem_filterMap, List.mem_singleton, exists_eq_left]

theorem begun?_eq_some {v : Event α} {x : Nat × TaskId} (h : v.begun? = some x) :
    x.1 = v.strand ∧ v.instr = .start x.2 ∧
      (v.before.tasks[x.2]?.bind TaskCell.start?).isSome = true := by
  unfold Event.begun? at h
  split at h
  · next t hinstr =>
    split_ifs at h with hstart
    obtain rfl := Option.some.inj h
    exact ⟨rfl, hinstr, hstart⟩
  · cases h

theorem accepted?_eq_some {v : Event α} {t : TaskId} (h : v.accepted? = some t) :
    t < v.before.tasks.length ∧
      ((∃ who, v.instr = .enqueue t who) ∧
          v.before.loop.queue.length < v.after.loop.queue.length ∨
        (∃ caller, v.instr = .microtask t caller) ∧
          v.before.loop.microtasks.length < v.after.loop.microtasks.length) := by
  unfold Event.accepted? at h
  split at h
  · next k who hinstr =>
    split_ifs at h with hgrows
    obtain rfl := Option.some.inj h
    exact ⟨hgrows.1, Or.inl ⟨⟨who, hinstr⟩, hgrows.2⟩⟩
  · next k caller hinstr =>
    split_ifs at h with hgrows
    obtain rfl := Option.some.inj h
    exact ⟨hgrows.1, Or.inr ⟨⟨caller, hinstr⟩, hgrows.2⟩⟩
  · cases h

/-- Where a body is that a strand began: it has ended, or the strand has it in hand. -/
def EndedOrRun (c : Chronicle α) (x : Nat × TaskId) : Prop :=
  ∃ s, c.machine.strands[x.1]? = some s ∧ (x ∈ c.ended ∨ ∃ j ∈ s.code, j.Bears x.2)

section Turn

variable {x : Nat × TaskId} (hturn : c.turn heedStop self = some d)
include hturn

theorem ended_turn (hx : x ∈ c.ended) : x ∈ d.ended := by
  unfold ended at hx ⊢
  cases turn_turn hturn with
  | carried _ _ _ _ _ _ hevents =>
    rw [hevents]
    exact mem_filterMap_concat.mpr (Or.inl hx)
  | found _ _ _ _ _ _ hevents => rwa [hevents]

/-- A body that was begun before is carried on by its strand alone. -/
theorem EndedOrRun.turn (h : c.EndedOrRun x) (g : c.machine.Governed) : d.EndedOrRun x := by
  obtain ⟨r, hr, hx⟩ := h
  have hended := ended_turn hturn (x := x)
  cases turn_turn hturn with
  | @carried s i rest code m₁ answer added hs _ hcode hexec hadded hd hevents =>
    have hstrands := congrArg Machine.strands hd
    by_cases hstrand : x.1 = self
    · -- its own strand takes the step
      subst hstrand
      obtain rfl := Option.some.inj (hr.symm.trans hs)
      refine ⟨_, Machine.strand_self hs hstrands, hx.elim (fun hx => Or.inl (hended hx)) ?_⟩
      rintro ⟨j, hj, hbears⟩
      rw [hcode] at hj
      rcases List.mem_cons.mp hj with rfl | hj
      · have hgrounded := g.grounded j ⟨r, List.mem_of_getElem? hs, hcode ▸ List.mem_cons_self⟩
        rcases Machine.exec_bears hbears hgrounded hexec with ⟨k, hk, hbears'⟩ | ⟨result, rfl⟩
        · exact Or.inr ⟨k, List.mem_append_left _ hk, hbears'⟩
        · refine Or.inl ?_
          unfold ended
          rw [hevents]
          exact mem_filterMap_concat.mpr (Or.inr rfl)
      · exact Or.inr ⟨j, List.mem_append_right _ hj, hbears⟩
    · exact ⟨r, Machine.strand_ne hstrands hr hstrand, hx.imp_left hended⟩
  | found hs _ _ hcode _ hd _ =>
    have hstrands := (congrArg Machine.strands hd).trans (List.append_nil _).symm
    by_cases hstrand : x.1 = self
    · -- its own strand looks at the loop, so it has nothing in hand
      subst hstrand
      obtain rfl := Option.some.inj (hr.symm.trans hs)
      refine ⟨_, Machine.strand_self hs hstrands, Or.inl (hended (hx.resolve_right ?_))⟩
      rintro ⟨j, hj, -⟩
      rw [hcode] at hj
      exact absurd hj List.not_mem_nil
    · exact ⟨r, Machine.strand_ne hstrands hr hstrand, hx.imp_left hended⟩

/-- The strand that begins a body has it in hand. -/
theorem endedOrRun_of_begun (hx : x ∈ d.begun) (hnot : x ∉ c.begun) : d.EndedOrRun x := by
  unfold begun at hx hnot
  cases turn_turn hturn with
  | @carried s i rest code m₁ answer added hs _ hcode hexec hadded hd hevents =>
    have hself := Machine.strand_self hs (congrArg Machine.strands hd)
    rw [hevents] at hx
    have hbegun := (mem_filterMap_concat.mp hx).resolve_left hnot
    obtain ⟨hstrand, rfl, hstart⟩ := begun?_eq_some hbegun
    unfold EndedOrRun
    rw [hstrand]
    cases Machine.exec_ruled hexec with
    | start => exact ⟨_, hself, Or.inr ⟨.enter x.2, List.mem_cons_self, rfl⟩⟩
    | startLate hlate => cases Machine.start?_eq_none hlate ▸ hstart
  | found _ _ _ _ _ _ hevents => exact absurd (hevents ▸ hx) hnot

end Turn

/-- **A body that was begun has ended, or is being run by the strand that began it.** -/
theorem Reaches.begun_or_ended (h : (start config workers).Reaches c) :
    ∀ x ∈ c.begun, c.EndedOrRun x := by
  induction h with
  | refl => exact fun _ hx => absurd hx List.not_mem_nil
  | @turn c d hreach heedStop self hturn ih =>
    intro x hx
    by_cases hold : x ∈ c.begun
    · exact (ih x hold).turn hturn hreach.governed
    · exact endedOrRun_of_begun hturn hx hold
  | @move c hreach m hmove ih =>
    intro x hx
    obtain ⟨s, hs, hx⟩ := ih x hx
    obtain ⟨new, hstrands, -⟩ := hmove.around.strands
    refine ⟨s, ?_, hx⟩
    show m.strands[x.1]? = some s
    rw [hstrands, List.getElem?_append_left (List.getElem?_eq_some_iff.mp hs).1]
    exact hs

/-- The queue and the microtasks get longer only by the task that is accepted. -/
theorem mem_of_accepted? {m m₁ : Machine α} {i : Instr α} {code : List (Instr α)} {t : TaskId}
    (h : LoopEffect m.loop i code m₁.loop)
    (ht : (∃ who, i = .enqueue t who) ∧ m.loop.queue.length < m₁.loop.queue.length ∨
      (∃ caller, i = .microtask t caller) ∧
        m.loop.microtasks.length < m₁.loop.microtasks.length) :
    t ∈ m₁.loop.queue ∨ t ∈ m₁.loop.microtasks := by
  generalize m₁.loop = l at h ht ⊢
  rcases ht with ⟨⟨who, rfl⟩, hlt⟩ | ⟨⟨caller, rfl⟩, hlt⟩
  · cases h with
    | same hi => exact absurd trivial hi
    | queued => exact Or.inl (List.mem_append_right _ (List.mem_singleton_self t))
    | refused => exact absurd hlt (Nat.lt_irrefl _)
    | idle hi => exact absurd hi (by simp)
    | dropped hi => exact hi.elim
  · cases h with
    | same hi => exact absurd trivial hi
    | pushed => exact Or.inr (List.mem_append_right _ (List.mem_singleton_self t))
    | closed => exact absurd hlt (Nat.lt_irrefl _)
    | idle hi => exact absurd hi (by simp)
    | dropped hi => exact hi.elim

/-- **A task that the loop accepted is attended to until it is started or settled.** -/
theorem Reaches.accepted_attended (h : (start config workers).Reaches c) :
    ∀ t ∈ c.accepted, ∃ b, c.machine.tasks[t]? = some b ∧
      (b.state = .pending → c.machine.Attends t) := by
  induction h with
  | refl => exact fun _ ht => absurd ht List.not_mem_nil
  | @turn c d hreach heedStop self hturn ih =>
    have g := hreach.governed
    have hstep := turn_step hturn
    -- those that were accepted before
    have hold : ∀ t ∈ c.accepted, ∃ b, d.machine.tasks[t]? = some b ∧
        (b.state = .pending → d.machine.Attends t) := by
      intro t ht
      obtain ⟨b, hb, hattends⟩ := ih t ht
      obtain ⟨b', b'', hb', hb'', hback⟩ := Machine.step_pending hstep (Machine.lt_length hb)
      obtain rfl := Option.some.inj (hb.symm.trans hb')
      refine ⟨b'', hb'', fun hpending => ?_⟩
      have hbefore := hback hpending
      exact (hattends hbefore).step g.grounded hstep hb hbefore hb'' hpending
    intro t ht
    cases turn_turn hturn with
    | @carried s i rest code m₁ answer added hs _ hcode hexec hadded hd hevents =>
      unfold accepted at ht
      rw [hevents] at ht
      rcases mem_filterMap_concat.mp ht with ht | ht
      · exact hold t ht
      · obtain ⟨hlt, hgrows⟩ := accepted?_eq_some ht
        obtain ⟨b, b', -, hb', -⟩ := Machine.step_pending hstep hlt
        refine ⟨b', hb', fun _ => ?_⟩
        have hloop := (Machine.exec_executes heedStop i m₁ code hexec).loop
        have hd' : m₁.loop = d.machine.loop := by rw [hd]
        rw [hd'] at hloop
        exact (mem_of_accepted? hloop hgrows).imp_right Or.inl
    | found _ _ _ _ _ _ hevents =>
      unfold accepted at ht
      rw [hevents] at ht
      exact hold t ht
  | @move c hreach m hmove ih =>
    intro t ht
    obtain ⟨b, hb, hattends⟩ := ih t ht
    have haround := hmove.around
    exact ⟨b, haround.beside.getElem?_tasks hb, fun hpending => (hattends hpending).around haround⟩

end Start

end Chronicle

end ManagedHost
