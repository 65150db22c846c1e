import ManagedHost.Proofs.Timer.Looking
import ManagedHost.Proofs.Timer.Naming
import Mathlib.Data.List.Chain

/-!
# When timers fire

A `Timetable` is a run together with what was asked for when its timers were made.  The strands take
their steps in any order, callers do what they like, and timers are looked at and fire whenever the
ticker comes to it (`Timetable.Runs`).  Nobody but a timer can name the task that it has armed, so
callers cannot either (`Machine.Discreet`).

Two invariants are kept by every step, whether a timer fires in it or not (`Chronicle.Tick`):

* `Timetable.Timed`: each timer counts its firings, they are at least its delay apart from each
  other and from its creation, and the time of the next is set accordingly;
* `Timetable.Distinct`: no task is handed out twice, or armed by two timers.
-/

namespace ManagedHost

variable {α : Type}

/-- What was asked for when a timer was made. -/
structure Appointment where
  /-- When it was made. -/
  created : Nat
  /-- How long it is to wait, also between two firings. -/
  delay : Nat
  repeating : Bool
deriving DecidableEq

/-- A firing of a timer. -/
structure Firing where
  timer : Nat
  /-- The time for which the timer was looked at. -/
  time : Nat
  /-- The task that it handed out. -/
  task : TaskId
deriving DecidableEq

/-- The firing, if a timer fires. -/
def Event.firing? (v : Event α) : Option Firing :=
  match v.instr with
  | .pollTimer now k _ _ =>
    v.before.timers[k]?.bind fun b => if b.nextRun ≤ now then some ⟨k, now, b.armed⟩ else none
  | _ => none

/-- The firings so far. -/
def Chronicle.firings (c : Chronicle α) : List Firing := c.events.filterMap Event.firing?

/-- When the timer has fired. -/
def Chronicle.times (c : Chronicle α) (k : Nat) : List Nat :=
  (c.firings.filter (·.timer = k)).map Firing.time

/-- A run, and what was asked for when its timers were made. -/
structure Timetable (α : Type) extends Chronicle α where
  made : List Appointment := []

/-- **Whether the timer keeps an appointment**, when it has fired at the given times. -/
structure TimerCell.Keeps (b : TimerCell α) (a : Appointment) (times : List Nat) : Prop where
  interval : b.repeating.map Prod.fst = if a.repeating then some a.delay else none
  fired : b.fired = times.length
  apart : (a.created :: times).IsChain fun s t => s + a.delay ≤ t
  next : b.Loaded → b.nextRun = (a.created :: times).getLast (List.cons_ne_nil _ _) + a.delay
  once : a.repeating = false → times.length ≤ 1

namespace TimerCell

variable {b : TimerCell α} {a : Appointment} {times : List Nat}

/-- Whether the timer is cancelled does not matter. -/
theorem Keeps.cancel (h : b.Keeps a times) : { b with cancelled := true }.Keeps a times :=
  ⟨h.interval, h.fired, h.apart, h.next, h.once⟩

theorem Keeps.delay_eq (h : b.Keeps a times) {interval : Nat} {body : Body α}
    (hb : b.repeating = some (interval, body)) : a.repeating = true ∧ interval = a.delay := by
  have hinterval := h.interval
  rw [hb] at hinterval
  split_ifs at hinterval with hrepeating
  · exact ⟨hrepeating, Option.some.inj hinterval⟩
  · cases hinterval

/-- A firing that does not come before its time is late enough. -/
theorem Keeps.apart_concat (h : b.Keeps a times) (hloaded : b.Loaded) {time : Nat}
    (hdue : b.nextRun ≤ time) :
    (a.created :: (times ++ [time])).IsChain fun s t => s + a.delay ≤ t := by
  rw [← List.cons_append]
  refine h.apart.append (.singleton time) fun s hs t ht => ?_
  obtain rfl := Option.some.inj ht
  have hlast := List.getLast?_eq_getLast_of_ne_nil (List.cons_ne_nil a.created times)
  obtain rfl := Option.some.inj (hlast.symm.trans hs)
  exact (h.next hloaded).symm.trans_le hdue

/-- **The timer fires**: if it repeats it is armed anew, and otherwise it has fired for the first
and last time. -/
theorem Keeps.fire (h : b.Keeps a times) (hloaded : b.Loaded) {time : Nat} (hdue : b.nextRun ≤ time)
    (fresh : TaskId) : (b.fire time fresh).Keeps a (times ++ [time]) := by
  have hlength : (times ++ [time]).length = times.length + 1 := List.length_append
  refine
    { interval := ?interval, fired := ?fired, apart := h.apart_concat hloaded hdue,
      next := fun hloaded' => ?next, once := fun honce => ?once }
  case interval =>
    rw [fire_repeating]
    exact h.interval
  case fired => rw [fire_fired, hlength, h.fired]
  case next =>
    obtain ⟨⟨interval, body⟩, hb⟩ := Option.isSome_iff_exists.mp (isSome_of_loaded_fire hloaded')
    rw [fire_nextRun hb, (h.delay_eq hb).2]
    simp only [← List.cons_append, List.getLast_append_singleton]
  case once =>
    cases hb : b.repeating with
    | none =>
      have hnone : b.repeating.isSome ≠ true := by simp [hb]
      rw [hlength, ← h.fired, hloaded.resolve_left hnone]
    | some every => cases honce.symm.trans (h.delay_eq hb).1

/-- A timer keeps its task when it has fired for the last time, and otherwise arms a new one. -/
theorem fire_armed_cases (b : TimerCell α) (now : Nat) (fresh : TaskId) :
    (b.fire now fresh).armed = b.armed ∧ ¬ (b.fire now fresh).Loaded ∨
      (b.fire now fresh).armed = fresh ∧ b.repeating ≠ none := by
  cases hb : b.repeating with
  | none =>
    refine Or.inl ⟨fire_armed_once hb, fun hloaded => ?_⟩
    have hrepeats := isSome_of_loaded_fire hloaded
    rw [hb] at hrepeats
    cases hrepeats
  | some every => exact Or.inr ⟨fire_armed_again hb, Option.some_ne_none every⟩

end TimerCell

namespace Machine

variable {m m' : Machine α} {t : TaskId} {code : List (Instr α)}

/-! ### What can happen -/

/-- Whether a timer has armed the task and not handed it out. -/
def Reserved (m : Machine α) (t : TaskId) : Prop :=
  ∃ (k : Nat) (b : TimerCell α), m.timers[k]? = some b ∧ b.Loaded ∧ b.armed = t

/-- **Nobody gets hold of a task that a timer keeps to itself**, or of one that does not exist. -/
def Discreet (m m' : Machine α) : Prop :=
  ∀ t, m.Reserved t ∨ m'.tasks.length ≤ t →
    (m'.Knows t → m.Knows t) ∧ ∀ j, m'.Holds j → j.Mentions t → m.Holds j

/-- A call may name tasks that are there and that no timer keeps to itself. -/
theorem discreet_call
    (hcode : ∀ i ∈ code, ∀ t, i.Mentions t → ¬ m.Reserved t ∧ t < m.tasks.length) :
    m.Discreet (m.call code).2 := by
  refine fun t ht => ⟨id, ?_⟩
  rintro j ⟨s, hs, hj⟩ hmentions
  rcases List.mem_append.mp hs with hs | hs
  · exact ⟨s, hs, hj⟩
  · rw [List.mem_singleton.mp hs] at hj
    obtain ⟨hfree, hlt⟩ := hcode j hj t hmentions
    exact absurd ht (not_or.mpr ⟨hfree, Nat.not_le.mpr hlt⟩)

theorem discreet_startLoop (m : Machine α) : m.Discreet m.startLoop := by
  refine fun t _ => ?_
  unfold startLoop
  split_ifs
  · refine ⟨id, ?_⟩
    rintro j ⟨s, hs, hj⟩ -
    rcases List.mem_append.mp hs with hs | hs
    · exact ⟨s, hs, hj⟩
    · rw [(thread_begins hs).2.2] at hj
      exact absurd hj List.not_mem_nil
  · exact ⟨id, fun j hj _ => hj⟩

theorem discreet_elapse (m : Machine α) (micros : Nat) : m.Discreet (m.elapse micros) :=
  fun _ _ => ⟨id, fun _ hj _ => hj⟩

end Machine

namespace Timetable

/-- A caller adds a timer. -/
def add (d : Timetable α) (delay : Nat) (repeating : Bool) (body : Body α) : Timetable α :=
  { d with
    machine := (d.machine.addTimer delay repeating body).2
    made := d.made ++ [⟨d.machine.clock, delay, repeating⟩] }

/-- A caller does something else. -/
def act (d : Timetable α) (f : Machine α → Machine α) : Timetable α :=
  { d with machine := f d.machine }

/-- **What can happen next.**  Strands take steps, the ticker among them, and callers add timers and
do anything else that is discreet. -/
inductive Step (d : Timetable α) : Timetable α → Prop where
  | turn {c : Chronicle α} (heedStop : Bool) (self : Nat)
      (hturn : d.toChronicle.turn heedStop self = some c) : Step d { d with toChronicle := c }
  | add (delay : Nat) (repeating : Bool) (body : Body α)
      (hbody : (TaskCell.ofBody body).parent = none) : Step d (d.add delay repeating body)
  | move {m : Machine α} (hmove : d.machine.Move m) (htimers : m.timers = d.machine.timers)
      (hdiscreet : d.machine.Discreet m) : Step d { d with machine := m }

/-- What can happen after some time. -/
inductive Runs (d : Timetable α) : Timetable α → Prop where
  | refl : Runs d d
  | step {e f : Timetable α} (h : Runs d e) (hstep : e.Step f) : Runs d f

/-- Before anything has happened. -/
def start (config : LoopConfig) (workers : Nat) : Timetable α :=
  { toChronicle := .start config workers }

variable {d e : Timetable α}

theorem Step.reaches (h : d.Step e) : d.toChronicle.Reaches e.toChronicle := by
  cases h with
  | turn heedStop self hturn => exact Chronicle.Reaches.refl.turn heedStop self hturn
  | add delay repeating body hbody => exact .move .refl (.addTimer delay repeating body hbody)
  | move hmove => exact .move .refl hmove

theorem Runs.reaches (h : d.Runs e) : d.toChronicle.Reaches e.toChronicle := by
  induction h with
  | refl => exact .refl
  | step _ hstep ih => exact ih.trans hstep.reaches

theorem Runs.trans {f : Timetable α} (h : d.Runs e) (h' : e.Runs f) : d.Runs f := by
  induction h' with
  | refl => exact h
  | step _ hstep ih => exact ih.step hstep

end Timetable

/-! ### What a step does to the timers -/

/-- What becomes of the timers when none of them fires. -/
structure Machine.Rested (m m' : Machine α) : Prop where
  length : m'.timers.length = m.timers.length
  cell : ∀ (k : Nat) (b' : TimerCell α), m'.timers[k]? = some b' → ∃ b, m.timers[k]? = some b ∧
    (b' = b ∨ b.cancelled = false ∧ b' = { b with cancelled := true })
  tasks : m.tasks.length ≤ m'.tasks.length

theorem Machine.Rested.of_eq {m m' : Machine α} (htimers : m'.timers = m.timers)
    (htasks : m.tasks.length ≤ m'.tasks.length) : m.Rested m' :=
  ⟨congrArg _ htimers, fun _ b' hb' => ⟨b', htimers ▸ hb', Or.inl rfl⟩, htasks⟩

/-- The timer `k`, which was as `b`, has fired. -/
structure Machine.Fired (m : Machine α) (now k : Nat) (b : TimerCell α) (m' : Machine α) :
    Prop where
  before : m.timers[k]? = some b
  due : b.nextRun ≤ now
  after : m'.timers = m.timers.set k (b.fire now m.tasks.length)
  tasks : m.tasks.length ≤ m'.tasks.length
  /-- It has armed a new task if it repeats. -/
  fresh : b.repeating ≠ none → m.tasks.length < m'.tasks.length

namespace Chronicle

open Machine

variable {c d : Chronicle α} {heedStop : Bool} {self k : Nat}

/-- **What a step does to the timers**: one that is looked at and due fires, or at most one is
cancelled. -/
inductive Tick (c : Chronicle α) (self : Nat) (d : Chronicle α) : Prop where
  | rest (hrested : c.machine.Rested d.machine) (hfirings : d.firings = c.firings)
      (hearly : ∀ (s : Strand α) (now k : Nat) (todo : List Nat) (due : List TaskId)
        (rest : List (Instr α)) (b : TimerCell α), c.machine.strands[self]? = some s →
        s.code = .pollTimer now k todo due :: rest → c.machine.timers[k]? = some b →
        now < b.nextRun)
  | fire {now k : Nat} {todo : List Nat} {due : List TaskId} {b : TimerCell α} {s : Strand α}
      {rest : List (Instr α)} (hs : c.machine.strands[self]? = some s)
      (hcode : s.code = .pollTimer now k todo due :: rest)
      (hfired : c.machine.Fired now k b d.machine)
      (hfirings : d.firings = c.firings ++ [⟨k, now, b.armed⟩])
      (hnext : d.machine.Holds (.scanTimers now todo (due ++ [b.armed])))

theorem firings_concat {v : Event α} (h : d.events = c.events ++ [v]) :
    d.firings = c.firings ++ v.firing?.toList := by
  unfold firings
  rw [h, List.filterMap_append]
  cases hv : v.firing? <;> simp [hv]

theorem tick_turn (h : c.turn heedStop self = some d) : c.Tick self d := by
  have hlength := (step_tasks (turn_step h)).1
  cases turn_turn h with
  | @carried s i rest code m₁ answer added hs _ hcode hexec hadded hd hevents =>
    have hrule := exec_ruled hexec
    have htimers : TimerEffect c.machine.tasks.length c.machine.timers i code d.machine.timers :=
      hd ▸ hrule.timers
    have hfirings := firings_concat hevents
    have hrested : (⟨c.machine, d.machine, self, i⟩ : Event α).firing? = none →
        c.machine.Rested d.machine → c.Tick self d := fun hnone hrested => by
      rw [hnone, Option.toList_none, List.append_nil] at hfirings
      refine .rest hrested hfirings fun r now k todo due rest' b hr hcode' hb => ?_
      obtain rfl := Option.some.inj (hs.symm.trans hr)
      obtain ⟨rfl, -⟩ := List.cons.inj (hcode.symm.trans hcode')
      simpa [Event.firing?, hb] using hnone
    generalize hafter : d.machine.timers = timers at htimers
    cases htimers with
    | same hi =>
      refine hrested ?_ (.of_eq hafter hlength)
      cases i with
      | pollTimer => exact absurd trivial hi
      | _ => rfl
    | @early now n todo due hearly =>
      refine hrested ?_ (.of_eq hafter hlength)
      cases hb : c.machine.timers[n]? with
      | none => simp [Event.firing?, hb]
      | some b => simp [Event.firing?, hb, hearly b hb]
    | late => exact hrested rfl (.of_eq hafter hlength)
    | @cancelled n b hb hopen =>
      refine hrested rfl ⟨by rw [hafter, List.length_set], fun j b' hb' => ?_, hlength⟩
      rw [hafter] at hb'
      by_cases hj : n = j
      · subst hj
        rw [List.getElem?_set_self (List.getElem?_eq_some_iff.mp hb).1] at hb'
        exact ⟨b, hb, Or.inr ⟨hopen, (Option.some.inj hb').symm⟩⟩
      · rw [List.getElem?_set_ne hj] at hb'
        exact ⟨b', hb', Or.inl rfl⟩
    | @fired now n todo due b hb hdue =>
      have hfiring : (⟨c.machine, d.machine, self, .pollTimer now n todo due⟩ :
          Event α).firing? = some ⟨n, now, b.armed⟩ := by simp [Event.firing?, hb, hdue]
      rw [hfiring, Option.toList_some] at hfirings
      obtain ⟨-, -, hnew, -⟩ := holds_carried hs hcode hadded (congrArg strands hd)
      refine .fire hs hcode ⟨hb, hdue, hafter, hlength, fun hrepeats => ?_⟩ hfirings
        (hnew _ (List.mem_singleton_self _))
      obtain ⟨every, hevery⟩ := Option.ne_none_iff_exists'.mp hrepeats
      have htasks : d.machine.tasks = m₁.tasks := by rw [hd]
      rw [htasks, hrule.tasks_eq hb hdue hevery, List.length_append]
      exact Nat.lt_succ_self _
  | found hs _ _ hcode hfinds hd hevents =>
    refine .rest (.of_eq (hd ▸ hfinds.timers_eq.1) hlength) ?_
      fun r now k todo due rest b hr hcode' => ?_
    · unfold firings
      rw [hevents]
    · obtain rfl := Option.some.inj (hs.symm.trans hr)
      cases hcode.symm.trans hcode'

theorem times_concat {f : Firing} (h : d.firings = c.firings ++ [f]) :
    d.times k = c.times k ++ if f.timer = k then [f.time] else [] := by
  unfold times
  rw [h, List.filter_append, List.map_append, List.filter_singleton]
  by_cases hf : f.timer = k <;> simp [hf]

theorem times_congr (h : d.firings = c.firings) (k : Nat) : d.times k = c.times k := by
  unfold times
  rw [h]

end Chronicle

namespace Timetable

open Machine

variable {d e : Timetable α} {c : Chronicle α} {k now : Nat} {b : TimerCell α} {a : Appointment}
  {config : LoopConfig} {workers : Nat}

/-! ### Times -/

/-- **Every timer keeps its appointment.** -/
structure Timed (d : Timetable α) : Prop where
  length : d.made.length = d.machine.timers.length
  keeps : ∀ (k : Nat) (b : TimerCell α) (a : Appointment), d.machine.timers[k]? = some b →
    d.made[k]? = some a → b.Keeps a (d.times k)
  known : ∀ f ∈ d.firings, f.timer < d.machine.timers.length

theorem timed_start : (start config workers : Timetable α).Timed :=
  ⟨rfl, fun _ _ _ hb => absurd hb (Option.not_mem_none _), fun _ hf => absurd hf List.not_mem_nil⟩

theorem Timed.rest (h : d.Timed) (hm : d.machine.Rested c.machine)
    (hfirings : c.firings = d.firings) : Timed { d with toChronicle := c } where
  length := h.length.trans hm.length.symm
  keeps k b' a hb' ha := by
    rw [Chronicle.times_congr hfirings]
    obtain ⟨b, hb, rfl | ⟨-, rfl⟩⟩ := hm.cell k b' hb'
    · exact h.keeps k b' a hb ha
    · exact (h.keeps k b a hb ha).cancel
  known f hf := (h.known f (hfirings ▸ hf)).trans_eq hm.length.symm

theorem Timed.fire (h : d.Timed) (hloaded : b.Loaded) (hm : d.machine.Fired now k b c.machine)
    (hfirings : c.firings = d.firings ++ [⟨k, now, b.armed⟩]) :
    Timed { d with toChronicle := c } := by
  have hlength : c.machine.timers.length = d.machine.timers.length := by
    rw [hm.after, List.length_set]
  have hlt := (List.getElem?_eq_some_iff.mp hm.before).1
  refine ⟨h.length.trans hlength.symm, fun j b' a hb' ha => ?_, fun f hf => ?_⟩
  · rw [Chronicle.times_concat hfirings]
    have hb' : c.machine.timers[j]? = some b' := hb'
    rw [hm.after] at hb'
    by_cases hj : k = j
    · subst hj
      rw [List.getElem?_set_self hlt] at hb'
      obtain rfl := Option.some.inj hb'
      rw [if_pos rfl]
      exact (h.keeps k b a hm.before ha).fire hloaded hm.due _
    · rw [List.getElem?_set_ne hj] at hb'
      rw [if_neg hj, List.append_nil]
      exact h.keeps j b' a hb' ha
  · have hf : f ∈ c.firings := hf
    show f.timer < c.machine.timers.length
    rw [hlength]
    rw [hfirings] at hf
    rcases List.mem_append.mp hf with hf | hf
    · exact h.known f hf
    · rw [List.mem_singleton.mp hf]
      exact hlt

theorem Timed.add {delay : Nat} {repeating : Bool} {body : Body α} (h : d.Timed) :
    (d.add delay repeating body).Timed := by
  have hlength : (d.add delay repeating body).machine.timers.length =
      d.machine.timers.length + 1 := by
    unfold Timetable.add
    dsimp only
    rw [(d.machine.addTimer_frame delay repeating body).1, List.length_append]
    rfl
  refine ⟨?_, fun k b a hb ha => ?_, fun f hf => ?_⟩
  · rw [hlength, ← h.length]
    exact List.length_append
  · have ha : (d.made ++ [(⟨d.machine.clock, delay, repeating⟩ : Appointment)])[k]? = some a := ha
    show b.Keeps a (d.times k)
    rcases cell_addTimer hb with hb | ⟨rfl, rfl⟩
    · have hlt : k < d.made.length := h.length ▸ (List.getElem?_eq_some_iff.mp hb).1
      rw [List.getElem?_append_left hlt] at ha
      exact h.keeps k b a hb ha
    · rw [← h.length, List.getElem?_concat_length] at ha
      obtain rfl := Option.some.inj ha
      have htimes : d.times d.machine.timers.length = [] := by
        unfold Chronicle.times
        rw [List.map_eq_nil_iff, List.filter_eq_nil_iff]
        intro f hf
        simpa using (h.known f hf).ne
      rw [htimes]
      refine ⟨?_, rfl, .singleton _, fun _ => rfl, fun _ => Nat.zero_le _⟩
      cases repeating <;> rfl
  · rw [hlength]
    exact (h.known f hf).trans (Nat.lt_succ_self _)

theorem Runs.timed (h : (start config workers).Runs d) : d.Timed := by
  induction h with
  | refl => exact timed_start
  | @step d e hruns hstep ih =>
    cases hstep with
    | turn heedStop self hturn =>
      cases Chronicle.tick_turn hturn with
      | rest hrested hfirings => exact ih.rest hrested hfirings
      | fire hs hcode hfired hfirings =>
        have hholds : d.machine.Holds _ :=
          ⟨_, List.mem_of_getElem? hs, hcode ▸ List.mem_cons_self⟩
        exact ih.fire (hruns.reaches.scanning.loaded hholds hfired.before) hfired hfirings
    | add delay repeating body hbody => exact ih.add
    | @move m hmove htimers hdiscreet =>
      exact ih.rest (c := { d.toChronicle with machine := m })
        (.of_eq htimers hmove.around.length_le) rfl

/-! ### Tasks -/

/-- **No task is handed out twice, or armed by two timers.** -/
structure Distinct (d : Timetable α) : Prop where
  armed : ∀ (k : Nat) (b : TimerCell α), d.machine.timers[k]? = some b →
    b.armed < d.machine.tasks.length
  handed : ∀ f ∈ d.firings, f.task < d.machine.tasks.length
  apart : ∀ (j k : Nat) (b c : TimerCell α), d.machine.timers[j]? = some b →
    d.machine.timers[k]? = some c → b.armed = c.armed → j = k
  nodup : (d.firings.map Firing.task).Nodup
  fresh : ∀ (k : Nat) (b : TimerCell α), d.machine.timers[k]? = some b → b.Loaded →
    ∀ f ∈ d.firings, f.task ≠ b.armed
  /-- A timer that does not repeat keeps the task that it has handed out. -/
  spent : ∀ (k : Nat) (b : TimerCell α), d.machine.timers[k]? = some b → b.repeating = none →
    ∀ f ∈ d.firings, f.timer = k → f.task = b.armed

theorem distinct_start : (start config workers : Timetable α).Distinct :=
  ⟨fun _ _ hb => absurd hb (Option.not_mem_none _), fun _ hf => absurd hf List.not_mem_nil,
    fun _ _ _ _ hb => absurd hb (Option.not_mem_none _), List.nodup_nil,
    fun _ _ hb => absurd hb (Option.not_mem_none _),
    fun _ _ hb => absurd hb (Option.not_mem_none _)⟩

theorem Distinct.rest (h : d.Distinct) (hm : d.machine.Rested c.machine)
    (hfirings : c.firings = d.firings) : Distinct { d with toChronicle := c } := by
  have hcell : ∀ (k : Nat) (b' : TimerCell α), c.machine.timers[k]? = some b' →
      ∃ b, d.machine.timers[k]? = some b ∧ b'.armed = b.armed ∧
        (b'.Loaded → b.Loaded) ∧ b'.repeating = b.repeating := by
    intro k b' hb'
    obtain ⟨b, hb, rfl | ⟨-, rfl⟩⟩ := hm.cell k b' hb'
    · exact ⟨b', hb, rfl, id, rfl⟩
    · exact ⟨b, hb, rfl, id, rfl⟩
  have hfirings' : ∀ f, f ∈ c.firings → f ∈ d.firings := fun f hf => hfirings ▸ hf
  refine
    { armed := fun k b' hb' => ?armed
      handed := fun f hf => (h.handed f (hfirings' f hf)).trans_le hm.tasks
      apart := fun j k b' c' hb' hc' heq => ?apart
      nodup := ?nodup
      fresh := fun k b' hb' hloaded f hf => ?fresh
      spent := fun k b' hb' hnone f hf hk => ?spent }
  case armed =>
    obtain ⟨b, hb, harmed, -⟩ := hcell k b' hb'
    exact harmed ▸ (h.armed k b hb).trans_le hm.tasks
  case nodup =>
    show (c.firings.map Firing.task).Nodup
    rw [hfirings]
    exact h.nodup
  case apart =>
    obtain ⟨b, hb, hbarmed, -⟩ := hcell j b' hb'
    obtain ⟨x, hx, hxarmed, -⟩ := hcell k c' hc'
    exact h.apart j k b x hb hx (hbarmed.symm.trans (heq.trans hxarmed))
  case fresh =>
    obtain ⟨b, hb, harmed, hloaded', -⟩ := hcell k b' hb'
    exact harmed ▸ h.fresh k b hb (hloaded' hloaded) f (hfirings' f hf)
  case spent =>
    obtain ⟨b, hb, harmed, -, hrepeating⟩ := hcell k b' hb'
    exact harmed ▸ h.spent k b hb (hrepeating ▸ hnone) f (hfirings' f hf) hk

/-- A timer hands out its task.  It keeps it and is not loaded any more, or has armed a new one. -/
theorem Distinct.fire (h : d.Distinct) (hloaded : b.Loaded)
    (hm : d.machine.Fired now k b c.machine)
    (hfirings : c.firings = d.firings ++ [⟨k, now, b.armed⟩]) :
    Distinct { d with toChronicle := c } := by
  have hlt := h.armed k b hm.before
  have harmed := b.fire_armed_cases now d.machine.tasks.length
  have hcell : ∀ j x, c.machine.timers[j]? = some x →
      j = k ∧ x = b.fire now d.machine.tasks.length ∨ j ≠ k ∧ d.machine.timers[j]? = some x := by
    intro j x hx
    rw [hm.after] at hx
    by_cases hj : k = j
    · subst hj
      rw [List.getElem?_set_self (List.getElem?_eq_some_iff.mp hm.before).1] at hx
      exact Or.inl ⟨rfl, (Option.some.inj hx).symm⟩
    · rw [List.getElem?_set_ne hj] at hx
      exact Or.inr ⟨Ne.symm hj, hx⟩
  have hother : ∀ j x, j ≠ k → d.machine.timers[j]? = some x →
      x.armed ≠ (b.fire now d.machine.tasks.length).armed := by
    intro j x hj hx heq
    rcases harmed with ⟨hsame, -⟩ | ⟨hnew, -⟩
    · exact hj (h.apart j k x b hx hm.before (heq.trans hsame))
    · exact (h.armed j x hx).ne (heq.trans hnew)
  have hmem : ∀ f ∈ c.firings, f ∈ d.firings ∨ f = ⟨k, now, b.armed⟩ := by
    intro f hf
    rw [hfirings] at hf
    exact (List.mem_append.mp hf).imp_right List.mem_singleton.mp
  refine
    { armed := fun j x hx => ?armed, handed := fun f hf => ?handed,
      apart := fun i j x y hx hy heq => ?apart, nodup := ?nodup,
      fresh := fun j x hx hx' f hf => ?fresh, spent := fun j x hx hnone f hf hj => ?spent }
  case armed =>
    rcases hcell j x hx with ⟨-, rfl⟩ | ⟨-, hx⟩
    · rcases harmed with ⟨hsame, -⟩ | ⟨hnew, hrepeats⟩
      · exact hsame.trans_lt (hlt.trans_le hm.tasks)
      · exact hnew.trans_lt (hm.fresh hrepeats)
    · exact (h.armed j x hx).trans_le hm.tasks
  case handed =>
    rcases hmem f hf with hf | rfl
    · exact (h.handed f hf).trans_le hm.tasks
    · exact hlt.trans_le hm.tasks
  case apart =>
    rcases hcell i x hx with ⟨rfl, rfl⟩ | ⟨hi, hx⟩
    · rcases hcell j y hy with ⟨rfl, -⟩ | ⟨hj, hy⟩
      · rfl
      · exact absurd heq.symm (hother j y hj hy)
    · rcases hcell j y hy with ⟨rfl, rfl⟩ | ⟨hj, hy⟩
      · exact absurd heq (hother i x hi hx)
      · exact h.apart i j x y hx hy heq
  case nodup =>
    show (c.firings.map Firing.task).Nodup
    rw [hfirings, List.map_append, List.map_singleton]
    refine h.nodup.append (List.nodup_singleton _) fun t ht ht' => ?_
    obtain ⟨g, hg, rfl⟩ := List.mem_map.mp ht
    exact h.fresh k b hm.before hloaded g hg (List.mem_singleton.mp ht')
  case fresh =>
    rcases hcell j x hx with ⟨-, rfl⟩ | ⟨hj, hx⟩
    · obtain ⟨hnew, -⟩ := harmed.resolve_left fun hkept => hkept.2 hx'
      rw [hnew]
      rcases hmem f hf with hf | rfl
      · exact (h.handed f hf).ne
      · exact hlt.ne
    · rcases hmem f hf with hf | rfl
      · exact h.fresh j x hx hx' f hf
      · exact fun heq => hj (h.apart j k x b hx hm.before heq.symm)
  case spent =>
    rcases hcell j x hx with ⟨rfl, rfl⟩ | ⟨hj', hx⟩
    · rw [TimerCell.fire_repeating] at hnone
      obtain ⟨hsame, -⟩ := harmed.resolve_right fun hnew => hnew.2 hnone
      rcases hmem f hf with hf | rfl
      · exact (h.spent j b hm.before hnone f hf hj).trans hsame.symm
      · exact hsame.symm
    · rcases hmem f hf with hf | rfl
      · exact h.spent j x hx hnone f hf hj
      · exact absurd hj.symm hj'

theorem Distinct.add {delay : Nat} {repeating : Bool} {body : Body α} (h : d.Distinct)
    (timed : d.Timed) : (d.add delay repeating body).Distinct := by
  have hlength : (d.add delay repeating body).machine.tasks.length =
      d.machine.tasks.length + 1 := by
    unfold Timetable.add
    dsimp only
    rw [(d.machine.addTimer_frame delay repeating body).2, List.length_append]
    rfl
  refine
    { armed := fun k b hb => ?armed, handed := fun f hf => ?handed,
      apart := fun j k b c hb hc heq => ?apart, nodup := h.nodup,
      fresh := fun k b hb hloaded f hf => ?fresh, spent := fun k b hb hnone f hf hk => ?spent }
  case armed =>
    rw [hlength]
    rcases cell_addTimer hb with hb | ⟨-, rfl⟩
    · exact (h.armed k b hb).trans (Nat.lt_succ_self _)
    · exact Nat.lt_succ_self _
  case handed =>
    rw [hlength]
    exact (h.handed f hf).trans (Nat.lt_succ_self _)
  case apart =>
    rcases cell_addTimer hb with hb | ⟨rfl, rfl⟩
    · rcases cell_addTimer hc with hc | ⟨-, rfl⟩
      · exact h.apart j k b c hb hc heq
      · exact absurd heq (h.armed j b hb).ne
    · rcases cell_addTimer hc with hc | ⟨rfl, -⟩
      · exact absurd heq.symm (h.armed k c hc).ne
      · rfl
  case fresh =>
    rcases cell_addTimer hb with hb | ⟨-, rfl⟩
    · exact h.fresh k b hb hloaded f hf
    · exact (h.handed f hf).ne
  case spent =>
    rcases cell_addTimer hb with hb | ⟨rfl, rfl⟩
    · exact h.spent k b hb hnone f hf hk
    · exact absurd hk (timed.known f hf).ne

theorem Runs.distinct (h : (start config workers).Runs d) : d.Distinct := by
  induction h with
  | refl => exact distinct_start
  | @step d e hruns hstep ih =>
    cases hstep with
    | turn heedStop self hturn =>
      cases Chronicle.tick_turn hturn with
      | rest hrested hfirings => exact ih.rest hrested hfirings
      | fire hs hcode hfired hfirings =>
        have hholds : d.machine.Holds _ :=
          ⟨_, List.mem_of_getElem? hs, hcode ▸ List.mem_cons_self⟩
        exact ih.fire (hruns.reaches.scanning.loaded hholds hfired.before) hfired hfirings
    | add delay repeating body hbody => exact ih.add hruns.timed
    | @move m hmove htimers hdiscreet =>
      exact ih.rest (c := { d.toChronicle with machine := m })
        (.of_eq htimers hmove.around.length_le) rfl

end Timetable

end ManagedHost
