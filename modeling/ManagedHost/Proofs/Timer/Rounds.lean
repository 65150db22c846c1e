import ManagedHost.Proofs.Timer.Custody

/-!
# Rounds

The ticker looks at the registered timers one after the other.  Meanwhile others take steps: they
add timers, cancel some, or stop the loop (`Timetable.Round`).  Nothing of that undoes what the
ticker has done (`Timetable.Scanned.aside`), and each of its own steps deals with one timer
(`Timetable.Stage.look`), so that all are dealt with in the end:

* `Timetable.Round.firesDue`: in one round exactly those timers fire that are due and not cancelled.
  One that is cancelled during the round may fire or not.
* `Timetable.Round.ends`: the ticker needs nobody else to come to the end of a round.
-/

namespace ManagedHost

variable {α : Type}

/-- Whether the timer is as before, but for being cancelled. -/
structure TimerCell.Rests (b b' : TimerCell α) : Prop where
  nextRun : b'.nextRun = b.nextRun
  armed : b'.armed = b.armed
  repeating : b'.repeating = b.repeating
  cancelled : b.cancelled = true → b'.cancelled = true

theorem TimerCell.Rests.refl (b : TimerCell α) : b.Rests b := ⟨rfl, rfl, rfl, id⟩

theorem TimerCell.Rests.trans {b b' b'' : TimerCell α} (h : b.Rests b') (h' : b'.Rests b'') :
    b.Rests b'' where
  nextRun := h'.nextRun.trans h.nextRun
  armed := h'.armed.trans h.armed
  repeating := h'.repeating.trans h.repeating
  cancelled := h'.cancelled ∘ h.cancelled

/-- How many steps a look at timers takes at most. -/
def Instr.looksLeft : Instr α → Nat
  | scanTimers _ todo _ => 2 * todo.length + 1
  | pollTimer _ _ todo _ => 2 * todo.length + 2
  | _ => 0

namespace Machine

variable {m m' m₁ : Machine α} {self n now k : Nat} {heedStop : Bool} {i j : Instr α}
  {code : List (Instr α)} {b : TimerCell α}

/-- Whether the timer was cancelled. -/
def IsCancelled (m : Machine α) (k : Nat) : Prop :=
  ∃ b, m.timers[k]? = some b ∧ b.cancelled = true

/-- Whether the strand is about to look at all registered timers. -/
def BeginsAt (m : Machine α) (n now : Nat) : Prop :=
  ∃ s, m.strands[n]? = some s ∧ s.code = [.scanTimers now m.loop.timers []]

/-- Whether the strand is looking at timers. -/
def LooksAt (m : Machine α) (n : Nat) : Prop :=
  ∃ s i, m.strands[n]? = some s ∧ s.code = [i] ∧ i.ahead?.isSome = true

theorem Rested.rests (h : m.Rested m') (hb : m.timers[k]? = some b) :
    ∃ b', m'.timers[k]? = some b' ∧ b.Rests b' := by
  have hlt : k < m'.timers.length := h.length ▸ (List.getElem?_eq_some_iff.mp hb).1
  have hb' := List.getElem?_eq_getElem hlt
  refine ⟨_, hb', ?_⟩
  obtain ⟨c, hc, heq | ⟨-, heq⟩⟩ := h.cell k _ hb'
  · obtain rfl := Option.some.inj (hb.symm.trans hc)
    exact heq.symm ▸ .refl _
  · obtain rfl := Option.some.inj (hb.symm.trans hc)
    rw [heq]
    exact ⟨rfl, rfl, rfl, fun _ => rfl⟩

theorem Fired.rests (h : m.Fired now n b m') {c : TimerCell α} (hc : m.timers[k]? = some c)
    (hk : k ≠ n) : ∃ c', m'.timers[k]? = some c' ∧ c.Rests c' :=
  ⟨c, by rw [h.after, List.getElem?_set_ne hk.symm, hc], .refl c⟩

theorem Fired.cell (h : m.Fired now k b m') : m'.timers[k]? = some (b.fire now m.tasks.length) := by
  rw [h.after, List.getElem?_set_self (List.getElem?_eq_some_iff.mp h.before).1]

/-- No instruction registers a timer. -/
theorem Enrols.subset {registered : List Nat} {timers : List (TimerCell α)}
    (h : m.Enrols i code registered timers) : registered ⊆ m.loop.timers := by
  cases h with
  | same hsame => exact hsame ▸ List.Subset.refl _
  | dropped hdropped => exact hdropped ▸ List.erase_subset
  | swept _ hnone => exact hnone ▸ List.nil_subset _

/-- Every step of a look leaves less to look at. -/
theorem Rule.looksLeft_lt (h : m.Rule heedStop self i m₁ code) (hi : i.ahead?.isSome = true)
    (hj : j ∈ code) (hj' : j.ahead?.isSome = true) : j.looksLeft < i.looksLeft := by
  cases h with
  | scanDone =>
    have hnone := Instr.ahead?_eq_none_of_all (all_due (fun _ => rfl) _) j hj
    cases hnone ▸ hj'
  | scanDrop | scanFind | pollEarly | fireOnce | fireAgain =>
    obtain rfl := List.mem_singleton.mp hj
    simp only [Instr.looksLeft, List.length_cons]
    omega
  | _ => cases hi

end Machine

namespace Chronicle

open Machine

variable {c d : Chronicle α} {heedStop : Bool} {self n : Nat}

/-- A step of one strand leaves the others as they are. -/
theorem turn_strand_ne {r : Strand α} (h : c.turn heedStop self = some d)
    (hr : c.machine.strands[n]? = some r) (hn : n ≠ self) : d.machine.strands[n]? = some r := by
  cases turn_turn h with
  | carried _ _ _ _ _ hd => exact strand_ne (congrArg strands hd) hr hn
  | found _ _ _ _ _ hd =>
    exact strand_ne_set (congrArg strands hd) hr hn

/-- No strand registers a timer. -/
theorem turn_registered (h : c.turn heedStop self = some d) :
    d.machine.loop.timers ⊆ c.machine.loop.timers := by
  cases turn_turn h with
  | carried _ _ _ hexec _ hd =>
    rw [hd]
    exact (exec_ruled hexec).enrols.subset
  | found _ _ _ _ hfinds hd =>
    rw [hd]
    exact hfinds.timers_eq.2 ▸ List.Subset.refl _

end Chronicle

namespace Timetable

open Machine

variable {c d e f : Timetable α} {k n now : Nat} {b : TimerCell α} {todo : List Nat}
  {fired : List Firing} {config : LoopConfig} {workers : Nat}

/-! ### What is never undone -/

/-- **What was done stays so.** -/
structure Later (d e : Timetable α) : Prop where
  length : d.machine.timers.length ≤ e.machine.timers.length
  firings : d.firings <+: e.firings
  made : d.made <+: e.made
  cancelled : ∀ k, d.machine.IsCancelled k → e.machine.IsCancelled k
  dropped : ∀ k < d.machine.timers.length, k ∉ d.machine.loop.timers → k ∉ e.machine.loop.timers

theorem Later.refl (d : Timetable α) : Later d d :=
  ⟨Nat.le_refl _, List.prefix_rfl, List.prefix_rfl, fun _ hk => hk, fun _ _ hk => hk⟩

theorem Later.trans (h : Later d e) (h' : Later e f) : Later d f where
  length := h.length.trans h'.length
  firings := h.firings.trans h'.firings
  made := h.made.trans h'.made
  cancelled k hk := h'.cancelled k (h.cancelled k hk)
  dropped k hk hdropped := h'.dropped k (hk.trans_le h.length) (h.dropped k hk hdropped)

theorem later_turn {c : Chronicle α} {heedStop : Bool} {self : Nat}
    (h : d.toChronicle.turn heedStop self = some c) : Later d { d with toChronicle := c } := by
  have hregistered := Chronicle.turn_registered h
  cases Chronicle.tick_turn h with
  | rest hrested hfirings =>
    refine ⟨hrested.length.ge, (hfirings ▸ List.prefix_rfl : d.firings <+: c.firings),
      List.prefix_rfl, ?_, fun k _ hk hmem => hk (hregistered hmem)⟩
    rintro k ⟨b, hb, hcancelled⟩
    obtain ⟨b', hb', hrests⟩ := hrested.rests hb
    exact ⟨b', hb', hrests.cancelled hcancelled⟩
  | @fire now n _ _ c' _ _ hs hcode hfired hfirings =>
    have hlength : c.machine.timers.length = d.machine.timers.length := by
      rw [hfired.after, List.length_set]
    refine ⟨hlength.ge, (hfirings ▸ List.prefix_append _ _ : d.firings <+: c.firings),
      List.prefix_rfl, ?_, fun k _ hk hmem => hk (hregistered hmem)⟩
    rintro k ⟨b, hb, hcancelled⟩
    by_cases hk : k = n
    · subst hk
      obtain rfl := Option.some.inj (hb.symm.trans hfired.before)
      exact ⟨_, hfired.cell, b.fire_cancelled.trans hcancelled⟩
    · obtain ⟨b', hb', hrests⟩ := hfired.rests hb hk
      exact ⟨b', hb', hrests.cancelled hcancelled⟩

theorem later_add {delay : Nat} {repeating : Bool} {body : Body α} :
    Later d (d.add delay repeating body) := by
  have htimers : (d.add delay repeating body).machine.timers = d.machine.timers ++ _ :=
    (d.machine.addTimer_frame delay repeating body).1
  refine ⟨?_, List.prefix_rfl, List.prefix_append _ _, ?_, fun k hk hdropped => ?_⟩
  · rw [htimers, List.length_append]
    exact Nat.le_add_right _ _
  · rintro k ⟨b, hb, hcancelled⟩
    refine ⟨b, ?_, hcancelled⟩
    rw [htimers, List.getElem?_append_left (List.getElem?_eq_some_iff.mp hb).1]
    exact hb
  · show k ∉ (d.machine.addTimer delay repeating body).2.loop.timers
    rw [addTimer_registered, List.mem_append, not_or]
    refine ⟨hdropped, fun hnew => ?_⟩
    split_ifs at hnew
    · exact absurd hnew List.not_mem_nil
    · exact hk.ne (List.mem_singleton.mp hnew)

/-- Only adding a timer adds to the list. -/
theorem registered_move {m m' : Machine α} (h : m.Move m') (htimers : m'.timers = m.timers) :
    m'.loop.timers = m.loop.timers := by
  rcases h.timers_eq with ⟨delay, repeating, body, -, rfl⟩ | ⟨-, hsame⟩
  · have hlength := congrArg List.length htimers
    rw [(m.addTimer_frame delay repeating body).1, List.length_append] at hlength
    exact absurd hlength (Nat.succ_ne_self _)
  · exact hsame

theorem Step.later (h : d.Step e) : Later d e := by
  cases h with
  | turn heedStop self hturn => exact later_turn hturn
  | add delay repeating body hbody => exact later_add
  | @move m hmove htimers hdiscreet =>
    refine ⟨(congrArg List.length htimers).ge, List.prefix_rfl, List.prefix_rfl, ?_,
      fun k _ hk => ?_⟩
    · rintro k ⟨b, hb, hcancelled⟩
      exact ⟨b, (congrArg (·[k]?) htimers).trans hb, hcancelled⟩
    · show k ∉ m.loop.timers
      rw [registered_move hmove htimers]
      exact hk

theorem Runs.later (h : d.Runs e) : Later d e := by
  induction h with
  | refl => exact .refl d
  | step _ hstep ih => exact ih.trans hstep.later

/-! ### Rounds -/

/-- **What can happen while the strand `n` looks at timers.** -/
inductive Round (d : Timetable α) (n : Nat) : Timetable α → Prop where
  | refl : Round d n d
  | step {e f : Timetable α} (h : Round d n e) (hlooks : e.machine.LooksAt n) (hstep : e.Step f) :
      Round d n f

theorem Round.runs (h : d.Round n e) : d.Runs e := by
  induction h with
  | refl => exact .refl
  | step _ _ hstep ih => exact ih.step hstep

/-- **Every look at timers begins with all that are registered**, at the time that it is. -/
theorem Step.begins (h : d.Step e) (hruns : (start config workers).Runs d)
    (hnot : ¬ d.machine.LooksAt n) (hlooks : e.machine.LooksAt n) :
    e.machine.BeginsAt n e.machine.clock := by
  obtain ⟨r, j, hr, hcode, hj⟩ := hlooks
  have hmem : j ∈ r.code := hcode ▸ List.mem_singleton_self j
  cases h with
  | add delay repeating body hbody =>
    have hr := look_of_around (around_addTimer hbody) hr hmem hj
    exact absurd ⟨r, j, hr, hcode, hj⟩ hnot
  | move hmove =>
    have hr := look_of_around hmove.around hr hmem hj
    exact absurd ⟨r, j, hr, hcode, hj⟩ hnot
  | turn heedStop self hturn =>
    rcases look_of_step (Chronicle.turn_step hturn) hr hmem hj with
      ⟨s, hs, i, hi, hi'⟩ | hbegins
    · obtain ⟨todo, hahead⟩ := Option.isSome_iff_exists.mp hi'
      obtain ⟨-, hcode', -⟩ :=
        hruns.reaches.scanning.looks s (List.mem_of_getElem? hs) i hi todo hahead
      exact absurd ⟨s, i, hs, hcode', hi'⟩ hnot
    · exact ⟨r, hr, hbegins⟩

/-- **How far a round has come** that began as `d`: the timers `todo` are still to be looked at, and
those in `fired` have fired. -/
structure Scanned (d e : Timetable α) (now : Nat) (todo : List Nat) (fired : List Firing) :
    Prop where
  firings : e.firings = d.firings ++ fired
  /-- The timers are looked at in the order in which they were registered. -/
  order : (fired.map Firing.timer ++ todo).Sublist d.machine.loop.timers
  /-- Those that have fired were due and not cancelled. -/
  due : ∀ f ∈ fired, f.time = now ∧ ∃ b, d.machine.timers[f.timer]? = some b ∧
    b.cancelled = false ∧ b.nextRun ≤ now ∧ b.armed = f.task ∧
    (b.repeating = none → f.timer ∉ e.machine.loop.timers)
  /-- Those that were passed over are not due, or cancelled. -/
  passed : ∀ k ∈ d.machine.loop.timers, k ∈ todo ∨ k ∈ fired.map Firing.timer ∨
    (∃ b, d.machine.timers[k]? = some b ∧ now < b.nextRun) ∨ e.machine.IsCancelled k
  /-- Those that were cancelled are dropped. -/
  dropped : ∀ k ∈ d.machine.loop.timers, d.machine.IsCancelled k →
    k ∈ todo ∨ k ∉ e.machine.loop.timers
  /-- Those that have not fired are as they were, but for being cancelled. -/
  rests : ∀ (k : Nat) (b : TimerCell α), k ∉ fired.map Firing.timer →
    d.machine.timers[k]? = some b → ∃ b', e.machine.timers[k]? = some b' ∧ b.Rests b'

theorem scanned_refl (d : Timetable α) (now : Nat) : Scanned d d now d.machine.loop.timers [] where
  firings := (List.append_nil _).symm
  order := List.Sublist.refl _
  due _ hf := absurd hf List.not_mem_nil
  passed _ hk := Or.inl hk
  dropped _ hk _ := Or.inl hk
  rests _ b _ hb := ⟨b, hb, .refl b⟩

/-- **What others do** while no timer fires does not matter. -/
theorem Scanned.aside (h : Scanned d e now todo fired) (roster : d.machine.Roster)
    (hde : Later d e) (hef : Later e f) (hfirings : f.firings = e.firings)
    (hrests : ∀ (k : Nat) (b : TimerCell α), e.machine.timers[k]? = some b →
      ∃ b', f.machine.timers[k]? = some b' ∧ b.Rests b') : Scanned d f now todo fired := by
  have hstays : ∀ (k : Nat) (b : TimerCell α), d.machine.timers[k]? = some b →
      k ∉ e.machine.loop.timers → k ∉ f.machine.loop.timers := fun k b hb =>
    hef.dropped k ((List.getElem?_eq_some_iff.mp hb).1.trans_le hde.length)
  refine
    { firings := hfirings.trans h.firings, order := h.order, due := fun g hg => ?due,
      passed := fun k hk => ?passed, dropped := fun k hk hcancelled => ?dropped,
      rests := fun k b hk hb => ?rests }
  case due =>
    obtain ⟨htime, b, hb, hopen, hdue, harmed, honce⟩ := h.due g hg
    exact ⟨htime, b, hb, hopen, hdue, harmed, fun hnone => hstays _ b hb (honce hnone)⟩
  case passed =>
    exact (h.passed k hk).imp_right (Or.imp_right (Or.imp_right (hef.cancelled k)))
  case dropped =>
    obtain ⟨b, hb, -⟩ := roster.loaded k hk
    exact (h.dropped k hk hcancelled).imp_right (hstays k b hb)
  case rests =>
    obtain ⟨b', hb', hrests'⟩ := h.rests k b hk hb
    obtain ⟨b'', hb'', hrests''⟩ := hrests k b' hb'
    exact ⟨b'', hb'', hrests'.trans hrests''⟩

/-- **A timer is passed over** that is not due, or cancelled and dropped. -/
theorem Scanned.pass (h : Scanned d e now (k :: todo) fired)
    (hpassed : (∃ b, d.machine.timers[k]? = some b ∧ now < b.nextRun) ∨ e.machine.IsCancelled k)
    (hdropped : d.machine.IsCancelled k → k ∉ e.machine.loop.timers) :
    Scanned d e now todo fired where
  firings := h.firings
  order := ((List.sublist_cons_self k todo).append_left _).trans h.order
  due := h.due
  passed j hj := by
    rcases h.passed j hj with hj | hj
    · rcases List.mem_cons.mp hj with rfl | hj
      · exact Or.inr (Or.inr hpassed)
      · exact Or.inl hj
    · exact Or.inr hj
  dropped j hj hcancelled := by
    rcases h.dropped j hj hcancelled with hj | hj
    · rcases List.mem_cons.mp hj with rfl | hj
      · exact Or.inr (hdropped hcancelled)
      · exact Or.inl hj
    · exact Or.inr hj
  rests := h.rests

/-- The timer that is looked at next is as it was when the round began, but for being cancelled. -/
theorem Scanned.head (h : Scanned d e now (k :: todo) fired) (roster : d.machine.Roster) :
    ∃ b b', d.machine.timers[k]? = some b ∧ e.machine.timers[k]? = some b' ∧ b.Rests b' := by
  obtain ⟨b, hb, -⟩ := roster.loaded k
    (h.order.subset (List.mem_append_right _ List.mem_cons_self))
  have hnot : k ∉ fired.map Firing.timer := fun hk =>
    (List.nodup_append.mp (roster.nodup.sublist h.order)).2.2 k hk k List.mem_cons_self rfl
  obtain ⟨b', hb', hrests⟩ := h.rests k b hnot hb
  exact ⟨b, b', hb, hb', hrests⟩

/-- **A timer fires.** -/
theorem Scanned.fire (h : Scanned d e now (k :: todo) fired) (roster : d.machine.Roster)
    (hde : Later d e) (hef : Later e f) (hopen : ¬ d.machine.IsCancelled k)
    (hfired : e.machine.Fired now k b f.machine)
    (hfirings : f.firings = e.firings ++ [⟨k, now, b.armed⟩])
    (honce : b.repeating = none → k ∉ f.machine.loop.timers) :
    Scanned d f now todo (fired ++ [⟨k, now, b.armed⟩]) := by
  have htimers : (fired ++ [(⟨k, now, b.armed⟩ : Firing)]).map Firing.timer =
      fired.map Firing.timer ++ [k] := List.map_append
  have hstays : ∀ (j : Nat) (c : TimerCell α), d.machine.timers[j]? = some c →
      j ∉ e.machine.loop.timers → j ∉ f.machine.loop.timers := fun j c hc =>
    hef.dropped j ((List.getElem?_eq_some_iff.mp hc).1.trans_le hde.length)
  refine
    { firings := ?firings, order := ?order, due := fun g hg => ?due,
      passed := fun j hj => ?passed, dropped := fun j hj hcancelled => ?dropped,
      rests := fun j c hj hc => ?rests }
  case firings => rw [hfirings, h.firings, List.append_assoc]
  case order =>
    rw [htimers, List.append_assoc]
    exact h.order
  case due =>
    rcases List.mem_append.mp hg with hg | hg
    · obtain ⟨htime, c, hc, hc', hdue, harmed, honce⟩ := h.due g hg
      exact ⟨htime, c, hc, hc', hdue, harmed, fun hnone => hstays _ c hc (honce hnone)⟩
    · obtain rfl := List.mem_singleton.mp hg
      obtain ⟨c, c', hc, hc', hrests⟩ := h.head roster
      obtain rfl := Option.some.inj (hfired.before.symm.trans hc')
      refine ⟨rfl, c, hc, Bool.eq_false_iff.mpr fun hcancelled => hopen ⟨c, hc, hcancelled⟩,
        hrests.nextRun ▸ hfired.due, hrests.armed.symm, fun hnone => honce ?_⟩
      exact hrests.repeating.trans hnone
  case passed =>
    rcases h.passed j hj with hj | hj | hj
    · rcases List.mem_cons.mp hj with rfl | hj
      · exact Or.inr (Or.inl (htimers ▸ List.mem_append_right _ (List.mem_singleton_self j)))
      · exact Or.inl hj
    · exact Or.inr (Or.inl (htimers ▸ List.mem_append_left _ hj))
    · exact Or.inr (Or.inr (hj.imp_right (hef.cancelled j)))
  case dropped =>
    rcases h.dropped j hj hcancelled with hj' | hj'
    · rcases List.mem_cons.mp hj' with rfl | hj'
      · exact absurd hcancelled hopen
      · exact Or.inl hj'
    · obtain ⟨c, hc, -⟩ := roster.loaded j hj
      exact Or.inr (hstays j c hc hj')
  case rests =>
    rw [htimers, List.mem_append, not_or, List.mem_singleton] at hj
    obtain ⟨c', hc', hrests⟩ := h.rests j c hj.1 hc
    obtain ⟨c'', hc'', hrests'⟩ := hfired.rests hc' hj.2
    exact ⟨c'', hc'', hrests.trans hrests'⟩

/-- **Where the strand `n` is** in a round that began as `d`. -/
inductive Stage (d : Timetable α) (n now : Nat) (e : Timetable α) : Prop where
  | scan {s : Strand α} {todo : List Nat} {fired : List Firing}
      (hs : e.machine.strands[n]? = some s)
      (hcode : s.code = [.scanTimers now todo (fired.map Firing.task)])
      (h : Scanned d e now todo fired)
  | poll {s : Strand α} {k : Nat} {todo : List Nat} {fired : List Firing}
      (hs : e.machine.strands[n]? = some s)
      (hcode : s.code = [.pollTimer now k todo (fired.map Firing.task)])
      (hopen : ¬ d.machine.IsCancelled k) (h : Scanned d e now (k :: todo) fired)
  | ended {s : Strand α} {fired : List Firing} (hs : e.machine.strands[n]? = some s)
      (hcode : s.code = fired.map (.submit ·.task .timer)) (h : Scanned d e now [] fired)

theorem Stage.aside (h : d.Stage n now e) (roster : d.machine.Roster) (hde : Later d e)
    (hef : Later e f) (hfirings : f.firings = e.firings)
    (hrests : ∀ (k : Nat) (b : TimerCell α), e.machine.timers[k]? = some b →
      ∃ b', f.machine.timers[k]? = some b' ∧ b.Rests b')
    (hstrand : ∀ s, e.machine.strands[n]? = some s → f.machine.strands[n]? = some s) :
    d.Stage n now f := by
  cases h with
  | scan hs hcode h => exact .scan (hstrand _ hs) hcode (h.aside roster hde hef hfirings hrests)
  | poll hs hcode hopen h =>
    exact .poll (hstrand _ hs) hcode hopen (h.aside roster hde hef hfirings hrests)
  | ended hs hcode h => exact .ended (hstrand _ hs) hcode (h.aside roster hde hef hfirings hrests)

/-- What is being looked at. -/
theorem Stage.looks (h : d.Stage n now e) (hlooks : e.machine.LooksAt n) :
    ∃ s i fired, e.machine.strands[n]? = some s ∧ s.code = [i] ∧
      ((∃ todo, i = .scanTimers now todo (fired.map Firing.task) ∧ Scanned d e now todo fired) ∨
        ∃ k todo, i = .pollTimer now k todo (fired.map Firing.task) ∧
          ¬ d.machine.IsCancelled k ∧ Scanned d e now (k :: todo) fired) := by
  cases h with
  | scan hs hcode h => exact ⟨_, _, _, hs, hcode, Or.inl ⟨_, rfl, h⟩⟩
  | poll hs hcode hopen h => exact ⟨_, _, _, hs, hcode, Or.inr ⟨_, _, rfl, hopen, h⟩⟩
  | ended hs hcode h =>
    obtain ⟨s, i, hs', hcode', hi⟩ := hlooks
    obtain rfl := Option.some.inj (hs.symm.trans hs')
    have hmem : i ∈ _ := hcode ▸ hcode' ▸ List.mem_singleton_self i
    obtain ⟨f, -, rfl⟩ := List.mem_map.mp hmem
    cases hi

section Look

variable {c : Chronicle α} {heedStop : Bool} {s : Strand α} {m₁ : Machine α}
  {code : List (Instr α)}

/-- The strand is done, drops a timer that was cancelled, or is about to look at one that was
not. -/
theorem Scanned.scan (h : Scanned d e now todo fired) (roster : d.machine.Roster)
    (roster' : e.machine.Roster) (hde : Later d e) (hef : Later e { e with toChronicle := c })
    (haside : Scanned d { e with toChronicle := c } now todo fired)
    (hrule : e.machine.Rule heedStop n (.scanTimers now todo (fired.map Firing.task)) m₁ code)
    (hself : c.machine.strands[n]? = some s) (hcode : s.code = code)
    (hregistered : c.machine.loop.timers = m₁.loop.timers) :
    d.Stage n now { e with toChronicle := c } := by
  cases hrule with
  | scanDone =>
    refine .ended hself (hcode.trans ?_) haside
    rw [List.map_map]
    rfl
  | scanDrop hlate =>
    obtain ⟨-, b', -, hb', -⟩ := h.head roster
    refine .scan hself hcode (haside.pass
      (Or.inr (hef.cancelled _ ⟨b', hb', hlate b' hb'⟩)) fun _ => ?_)
    show _ ∉ c.machine.loop.timers
    rw [hregistered]
    exact roster'.nodup.not_mem_erase
  | scanFind hk hopen =>
    refine .poll hself hcode (fun hcancelled => ?_) haside
    obtain ⟨b, hb, hcancelled⟩ := hde.cancelled _ hcancelled
    obtain rfl := Option.some.inj (hk.symm.trans hb)
    cases hopen.symm.trans hcancelled

/-- The strand goes on when a timer is not due. -/
theorem Scanned.early (h : Scanned d e now (k :: todo) fired) (roster : d.machine.Roster)
    (hopen : ¬ d.machine.IsCancelled k)
    (haside : Scanned d { e with toChronicle := c } now (k :: todo) fired)
    (hrule : e.machine.Rule heedStop n (.pollTimer now k todo (fired.map Firing.task)) m₁ code)
    (hself : c.machine.strands[n]? = some s) (hcode : s.code = code)
    (hearly : ∀ b, e.machine.timers[k]? = some b → now < b.nextRun) :
    d.Stage n now { e with toChronicle := c } := by
  cases hrule with
  | pollEarly =>
    obtain ⟨b, b', hb, hb', hrests⟩ := h.head roster
    refine .scan hself hcode (haside.pass (Or.inl ⟨b, hb, ?_⟩) (absurd · hopen))
    exact hrests.nextRun ▸ hearly b' hb'
  | fireOnce hk hdue => exact absurd (hearly _ hk) (Nat.not_lt.mpr hdue)
  | fireAgain hk hdue => exact absurd (hearly _ hk) (Nat.not_lt.mpr hdue)

/-- The strand lets a timer fire. -/
theorem Scanned.due_fires (h : Scanned d e now (k :: todo) fired) (roster : d.machine.Roster)
    (roster' : e.machine.Roster) (hde : Later d e) (hef : Later e { e with toChronicle := c })
    (hopen : ¬ d.machine.IsCancelled k) (hfired : e.machine.Fired now k b c.machine)
    (hfirings : c.firings = e.firings ++ [⟨k, now, b.armed⟩])
    (hrule : e.machine.Rule heedStop n (.pollTimer now k todo (fired.map Firing.task)) m₁ code)
    (hself : c.machine.strands[n]? = some s) (hcode : s.code = code)
    (hregistered : c.machine.loop.timers = m₁.loop.timers) :
    d.Stage n now { e with toChronicle := c } := by
  have htasks : (fired ++ [(⟨k, now, b.armed⟩ : Firing)]).map Firing.task =
      fired.map Firing.task ++ [b.armed] := List.map_append
  cases hrule with
  | pollEarly hnot => exact absurd (hnot _ hfired.before) (Nat.not_lt.mpr hfired.due)
  | fireOnce hk =>
    obtain rfl := Option.some.inj (hk.symm.trans hfired.before)
    refine .scan hself (htasks ▸ hcode) (h.fire roster hde hef hopen hfired hfirings fun _ => ?_)
    show _ ∉ c.machine.loop.timers
    rw [hregistered]
    exact roster'.nodup.not_mem_erase
  | fireAgain hk _ hagain =>
    obtain rfl := Option.some.inj (hk.symm.trans hfired.before)
    refine .scan hself (htasks ▸ hcode) (h.fire roster hde hef hopen hfired hfirings ?_)
    intro hnone
    cases hagain.symm.trans hnone

/-- **The strand takes a step of its own.** -/
theorem Stage.look (h : d.Stage n now e) (hlooks : e.machine.LooksAt n)
    (roster : d.machine.Roster) (roster' : e.machine.Roster) (hde : Later d e)
    (hturn : e.toChronicle.turn heedStop n = some c) :
    d.Stage n now { e with toChronicle := c } := by
  have hef : Later e { e with toChronicle := c } := later_turn hturn
  obtain ⟨s, i, fired, hs, hcode, hstage⟩ := h.looks hlooks
  cases Chronicle.turn_turn hturn with
  | @carried s' i' rest code m₁ answer added hs' _ hcode' hexec hadded hc hevents =>
    obtain rfl := Option.some.inj (hs.symm.trans hs')
    obtain ⟨rfl, rfl⟩ := List.cons.inj (hcode'.symm.trans hcode)
    have hself := strand_self hs (congrArg strands hc)
    have hrest : code ++ [] = code := List.append_nil code
    have hrule := exec_ruled hexec
    have hregistered : c.machine.loop.timers = m₁.loop.timers := by rw [hc]
    cases Chronicle.tick_turn hturn with
    | rest hrested hfirings hearly =>
      have haside : ∀ todo, Scanned d e now todo fired →
          Scanned d { e with toChronicle := c } now todo fired := fun todo h =>
        h.aside roster hde hef hfirings fun k b hb => hrested.rests hb
      rcases hstage with ⟨todo, rfl, h⟩ | ⟨k, todo, rfl, hopen, h⟩
      · exact h.scan roster roster' hde hef (haside _ h) hrule hself hrest hregistered
      · exact h.early roster hopen (haside _ h) hrule hself hrest fun b hb =>
          hearly _ _ _ _ _ _ _ hs hcode hb
    | fire hs' hcode' hfired hfirings =>
      obtain rfl := Option.some.inj (hs.symm.trans hs')
      obtain ⟨rfl, -⟩ := List.cons.inj (hcode.symm.trans hcode')
      rcases hstage with ⟨todo, heq, -⟩ | ⟨k, todo, heq, hopen, h⟩
      · cases heq
      · obtain ⟨rfl, rfl, rfl, rfl⟩ := Instr.pollTimer.inj heq
        exact h.due_fires roster roster' hde hef hopen hfired hfirings hrule hself hrest
          hregistered
  | found hs' _ _ hcode' =>
    obtain rfl := Option.some.inj (hs.symm.trans hs')
    cases hcode.symm.trans hcode'

end Look

/-- A round goes on, whoever takes a step. -/
theorem Stage.step (h : d.Stage n now e) (hlooks : e.machine.LooksAt n)
    (hruns : (start config workers).Runs d) (hround : d.Round n e) (hstep : e.Step f) :
    d.Stage n now f := by
  have roster := hruns.reaches.roster
  have hreaches := (hruns.trans hround.runs).reaches
  have hde := hround.runs.later
  have hef := hstep.later
  cases hstep with
  | turn heedStop self hturn =>
    by_cases hself : n = self
    · subst hself
      exact h.look hlooks roster hreaches.roster hde hturn
    · cases Chronicle.tick_turn hturn with
      | rest hrested hfirings =>
        exact h.aside roster hde hef hfirings (fun k b hb => hrested.rests hb)
          fun s hs => Chronicle.turn_strand_ne hturn hs hself
      | fire hs hcode =>
        -- there is no other ticker
        obtain ⟨r, i, hr, hcode', hi⟩ := hlooks
        exact absurd (hreaches.scanning.strand_eq hr (hcode' ▸ List.mem_singleton_self i) hi hs
          (hcode ▸ List.mem_cons_self) rfl) hself
  | add delay repeating body hbody =>
    have haround : e.machine.Around (e.add delay repeating body).machine := around_addTimer hbody
    obtain ⟨new, htimers⟩ := haround.timers
    obtain ⟨added, hstrands, -⟩ := haround.strands
    refine h.aside roster hde hef rfl (fun k b hb => ⟨b, ?_, .refl b⟩) fun s hs => ?_
    · rw [htimers, List.getElem?_append_left (List.getElem?_eq_some_iff.mp hb).1]
      exact hb
    · rw [hstrands, List.getElem?_append_left (List.getElem?_eq_some_iff.mp hs).1]
      exact hs
  | @move m hmove htimers hdiscreet =>
    obtain ⟨added, hstrands, -⟩ := hmove.around.strands
    refine h.aside roster hde hef rfl
      (fun k b hb => ⟨b, (congrArg (·[k]?) htimers).trans hb, .refl b⟩) fun s hs => ?_
    show m.strands[n]? = some s
    rw [hstrands, List.getElem?_append_left (List.getElem?_eq_some_iff.mp hs).1]
    exact hs

theorem Round.stage (h : d.Round n e) (hruns : (start config workers).Runs d)
    (hbegins : d.machine.BeginsAt n now) : d.Stage n now e := by
  induction h with
  | refl =>
    obtain ⟨s, hs, hcode⟩ := hbegins
    exact .scan hs hcode (scanned_refl d now)
  | step h hlooks hstep ih => exact ih.step hlooks hruns h hstep

/-- **What comes of a round** that began as `d`, and is over as `e`. -/
structure FiresDue (d : Timetable α) (n now : Nat) (e : Timetable α) (fired : List Firing) :
    Prop where
  firings : e.firings = d.firings ++ fired
  /-- The timers fire in the order in which they were registered. -/
  order : (fired.map Firing.timer).Sublist d.machine.loop.timers
  /-- Only such fire that were due and not cancelled when the round began; those that do not repeat
  are dropped. -/
  due : ∀ f ∈ fired, f.time = now ∧ ∃ b, d.machine.timers[f.timer]? = some b ∧
    b.cancelled = false ∧ b.nextRun ≤ now ∧ b.armed = f.task ∧
    (b.repeating = none → f.timer ∉ e.machine.loop.timers)
  /-- All that were due fire, but for those that are cancelled by the end of the round. -/
  all : ∀ k ∈ d.machine.loop.timers, ∀ b, d.machine.timers[k]? = some b → b.nextRun ≤ now →
    k ∈ fired.map Firing.timer ∨ e.machine.IsCancelled k
  /-- They hand out tasks that nobody has known and to which nothing has happened. -/
  fresh : ∀ f ∈ fired, f.task < d.machine.tasks.length ∧ d.machine.Untouched f.task
  submits : ∃ s, e.machine.strands[n]? = some s ∧ s.code = fired.map (.submit ·.task .timer)
  /-- Those that were cancelled are dropped. -/
  dropped : ∀ k ∈ d.machine.loop.timers, d.machine.IsCancelled k → k ∉ e.machine.loop.timers

/-- **In a round those timers fire that are due**, whatever others do meanwhile. -/
theorem Round.firesDue (h : d.Round n e) (hruns : (start config workers).Runs d)
    (hbegins : d.machine.BeginsAt n now) (hover : ¬ e.machine.LooksAt n) :
    ∃ fired, d.FiresDue n now e fired := by
  cases h.stage hruns hbegins with
  | scan hs hcode => exact absurd ⟨_, _, hs, hcode, rfl⟩ hover
  | poll hs hcode => exact absurd ⟨_, _, hs, hcode, rfl⟩ hover
  | @ended s fired hs hcode h =>
    have horder := h.order
    rw [List.append_nil] at horder
    refine
      ⟨fired,
        { firings := h.firings, order := horder, due := h.due,
          all := fun k hk b hb hdue => ?all, fresh := fun f hf => ?fresh,
          submits := ⟨s, hs, hcode⟩, dropped := fun k hk hcancelled => ?dropped }⟩
    case all =>
      rcases (h.passed k hk).resolve_left List.not_mem_nil with hfired | ⟨c, hc, hearly⟩ | hlate
      · exact Or.inl hfired
      · obtain rfl := Option.some.inj (hb.symm.trans hc)
        exact absurd hdue (Nat.not_le.mpr hearly)
      · exact Or.inr hlate
    case fresh =>
      obtain ⟨-, b, hb, hopen, -, harmed, -⟩ := h.due f hf
      obtain ⟨c, hc, hloaded⟩ :=
        hruns.reaches.roster.loaded _ (horder.subset (List.mem_map_of_mem hf))
      obtain rfl := Option.some.inj (hb.symm.trans hc)
      rw [← harmed]
      exact ⟨hruns.distinct.armed _ b hb, hruns.custody.reserved _ b hb hopen hloaded⟩
    case dropped => exact (h.dropped k hk hcancelled).resolve_left List.not_mem_nil

/-! ### The end of a round -/

theorem Round.trans (h : d.Round n e) (h' : e.Round n f) : d.Round n f := by
  induction h' with
  | refl => exact h
  | step _ hlooks hstep ih => exact ih.step hlooks hstep

/-- **The ticker comes to the end of a round** if it goes on; it need not wait for anybody. -/
theorem Round.ends (h : d.machine.LooksAt n) (hruns : (start config workers).Runs d) :
    ∃ e, d.Round n e ∧ ¬ e.machine.LooksAt n := by
  obtain ⟨s, i, hs, hcode, hi⟩ := h
  induction hleft : i.looksLeft using Nat.strong_induction_on generalizing d s i with
  | _ left ih =>
    have hexited : s.exited = false := Bool.eq_false_iff.mpr fun hexited => by
      cases hcode.symm.trans (hruns.reaches.stopping.left n s hs hexited)
    -- a look need not wait
    obtain ⟨m, hstep⟩ : ∃ m, d.machine.step true n = some m := by
      cases i with
      | scanTimers | pollTimer => simp [Machine.step, hs, hexited, hcode, Machine.exec]
      | _ => cases hi
    have hturn : d.toChronicle.turn true n = some _ := Option.map_eq_some_iff.mpr ⟨m, hstep, rfl⟩
    have hnext : d.Step _ := .turn true n hturn
    have hround := Round.refl.step ⟨s, i, hs, hcode, hi⟩ hnext
    by_cases hlooks : m.LooksAt n
    · obtain ⟨r, j, hr, hcode', hj⟩ := hlooks
      have hless : j.looksLeft < left := by
        cases Chronicle.turn_turn hturn with
        | @carried s' i' rest code m₁ answer added hs' _ hcode₁ hexec _ hm =>
          obtain rfl := Option.some.inj (hs.symm.trans hs')
          obtain ⟨rfl, rfl⟩ := List.cons.inj (hcode₁.symm.trans hcode)
          have hself := strand_self hs (congrArg strands hm)
          obtain rfl := Option.some.inj (hself.symm.trans hr)
          have hmem : code ++ [] = [j] := hcode'
          rw [List.append_nil] at hmem
          rw [← hleft]
          exact (exec_ruled hexec).looksLeft_lt hi (hmem ▸ List.mem_singleton_self j) hj
        | found hs' _ _ hcode₁ =>
          obtain rfl := Option.some.inj (hs.symm.trans hs')
          cases hcode.symm.trans hcode₁
      obtain ⟨e, hrest, hover⟩ := ih _ hless (hruns.step hnext) r j hr hcode' hj rfl
      exact ⟨e, hround.trans hrest, hover⟩
    · exact ⟨_, hround, hlooks⟩

end Timetable

end ManagedHost
