import ManagedHost.Proofs.Loop.Tally

/-!
# The books of a loop that may be stopped

What becomes of the tasks that were brought to a loop: each waits, is being run or has been, was
turned away when the loop had been told to stop, or waited when the loop was emptied.  What is
counted was taken by a thread of the loop, or caught by the call of stop.  `Chronicle.Audited` says
so by counting; it holds in every run (`Reaches.audited`), however often a task was brought to the
loop and whoever stopped it.
-/

namespace ManagedHost

variable {α : Type}

/-- The task that a call of stop looks at. -/
def Instr.cancelLeft? : Instr α → Option TaskId
  | cancelLeft t => some t
  | _ => none

namespace Machine

/-- The task that the loop had let in and turns away. -/
def turnedAway? (m : Machine α) (i : Instr α) (l : EventLoop) : Option TaskId :=
  i.enqueue?.filter fun _ => l.queue.length ≤ m.loop.queue.length

/-- The tasks that wait when the loop is emptied. -/
def swept (m : Machine α) : Instr α → List TaskId
  | .sweepLoop => m.loop.queue ++ m.loop.microtasks
  | _ => []

/-- The task that a call of stop cancels and counts. -/
def caught? (m : Machine α) (i : Instr α) : Option TaskId :=
  i.cancelLeft?.filter fun t => !(m.state t).isTerminal

/-- The task that is counted in a final state. -/
def tallied? (m : Machine α) (i : Instr α) : Option TaskId :=
  i.record?.filter fun t => (m.state t).isTerminal

/-- The task that is looked at to be counted while it has not settled. -/
def slipped? (m : Machine α) (i : Instr α) : Option TaskId :=
  i.record?.filter fun t => !(m.state t).isTerminal

end Machine

/-! ### Instructions -/

theorem Instr.cancelLeft?_eq_none {j : Instr α} (h : j.isStopping = false) :
    j.cancelLeft? = none := by
  cases j with
  | cancelLeft => cases h
  | _ => rfl

section Effects

variable {m : Machine α} {i : Instr α} {code : List (Instr α)} {l : EventLoop}

theorem CountEffect.isStopping_eq_false (h : CountEffect m i code l) : i.isStopping = false := by
  cases h with
  | aside hi => exact (Instr.isBooking_eq_false.mp hi).2.2
  | _ => rfl

/-- A loop that nobody stops turns nothing away and leaves nothing over. -/
theorem CountEffect.keeps_waiting (h : CountEffect m i code l) :
    m.turnedAway? i l = none ∧ m.swept i = [] ∧ m.caught? i = none := by
  have hcalm := h.isStopping_eq_false
  refine ⟨?_, ?_, by rw [Machine.caught?, Instr.cancelLeft?_eq_none hcalm]; rfl⟩
  · cases h with
    | aside hi =>
      rw [Machine.turnedAway?, (Instr.isBooking_eq_false.mp hi).1]
      rfl
    | @queued t who _ _ =>
      simp [Machine.turnedAway?, Instr.enqueue?]
    | _ => rfl
  · cases i with
    | sweepLoop => cases hcalm
    | _ => rfl

/-- A call of stop brings nothing to the loop, and neither lets go of a task nor counts one. -/
theorem StopEffect.aside (h : StopEffect m i code l) : l.stats = m.loop.stats ∧
    m.entry? i = none ∧ i.leave? = none ∧ i.record? = none := by
  cases h <;> exact ⟨rfl, rfl, rfl, rfl⟩

/-- What is done to empty the loop submits nothing and ends no run. -/
theorem filterMap_sweep {f : Instr α → Option TaskId} (htimer : ∀ k, f (.cancelTimer k) = none)
    (hleft : ∀ t, f (.cancelLeft t) = none) (timers : List Nat) (tasks : List TaskId) :
    (timers.map Instr.cancelTimer ++ tasks.map Instr.cancelLeft).filterMap f = [] := by
  refine List.filterMap_eq_nil_iff.mpr (List.forall_mem_append.mpr ⟨fun j hj => ?_, fun j hj => ?_⟩)
  · obtain ⟨k, -, rfl⟩ := List.mem_map.mp hj
    exact htimer k
  · obtain ⟨t, -, rfl⟩ := List.mem_map.mp hj
    exact hleft t

theorem StopEffect.count_waiting (h : StopEffect m i code l) (t : TaskId) :
    (code.filterMap Instr.enqueue?).count t + l.queue.count t + l.microtasks.count t +
        (m.turnedAway? i l).toList.count t + (m.swept i).count t =
      i.enqueue?.toList.count t + m.loop.queue.count t + m.loop.microtasks.count t := by
  cases h with
  | @refused k who _ _ hcode =>
    rw [(filterMap_of_all hcode).1]
    have haway : m.turnedAway? (.enqueue k who)
        { m.loop with submitting := m.loop.submitting - 1, active := m.loop.active.erase k } =
          some k := Option.filter_some_pos (decide_eq_true (Nat.le_refl _))
    rw [haway]
    show 0 + m.loop.queue.count t + m.loop.microtasks.count t + [k].count t + 0 =
      [k].count t + m.loop.queue.count t + m.loop.microtasks.count t
    omega
  | swept =>
    rw [@filterMap_sweep _ Instr.enqueue? (fun _ => rfl) fun _ => rfl]
    show 0 + 0 + 0 + 0 + (m.loop.queue ++ m.loop.microtasks).count t =
      0 + m.loop.queue.count t + m.loop.microtasks.count t
    rw [List.count_append]
    omega
  | _ => rfl

/-- **What waits**: it goes on waiting, is turned away, or is left when the loop is emptied. -/
theorem count_waiting_next (h : CountEffect m i code l ∨ StopEffect m i code l) (t : TaskId) :
    (code.filterMap Instr.enqueue?).count t + l.queue.count t + l.microtasks.count t +
        (m.turnedAway? i l).toList.count t + (m.swept i).count t =
      i.enqueue?.toList.count t + m.loop.queue.count t + m.loop.microtasks.count t +
        (m.entry? i).toList.count t := by
  rcases h with h | h
  · obtain ⟨haway, hswept, -⟩ := h.keeps_waiting
    rw [haway, hswept]
    exact h.count_waiting t
  · rw [h.aside.2.1]
    exact h.count_waiting t

/-- **What is to be counted**: besides what a thread of the loop has taken, what a call of stop
catches. -/
theorem endings_next (h : CountEffect m i code l ∨ StopEffect m i code l) :
    code.filterMap Instr.leave? = [] ∧
      code.filterMap Instr.record? = (m.caught? i).toList := by
  rcases h with h | h
  · rw [h.keeps_waiting.2.2]
    exact filterMap_of_isEnding fun j hj => (h.leaves j hj).1
  · cases h with
    | refused _ hcode =>
      exact filterMap_of_isEnding fun j hj => ((filterMap_of_all hcode).2 j hj).1
    | swept => exact ⟨filterMap_sweep (fun _ => rfl) (fun _ => rfl) _ _,
        filterMap_sweep (fun _ => rfl) (fun _ => rfl) _ _⟩
    | @caught t hopen =>
      have hcaught : m.caught? (.cancelLeft t) = some t :=
        Option.filter_some_pos (by rw [hopen]; rfl)
      rw [hcaught]
      exact ⟨rfl, rfl⟩
    | @passed t hterminal =>
      have hcaught : m.caught? (.cancelLeft t) = none :=
        Option.filter_some_neg (by rw [hterminal]; rfl)
      rw [hcaught]
      exact ⟨rfl, rfl⟩
    | _ => exact ⟨rfl, rfl⟩

theorem submissions_next (h : CountEffect m i code l ∨ StopEffect m i code l) :
    l.stats.scheduled + l.stats.microtasks =
      m.loop.stats.scheduled + m.loop.stats.microtasks + (m.entry? i).toList.length := by
  rcases h with h | h
  · exact h.submissions
  · obtain ⟨hstats, hentry, -⟩ := h.aside
    rw [hstats, hentry]
    rfl

/-- A task that has not settled is counted nowhere. -/
theorem count_tallied (h : CountEffect m i code l ∨ StopEffect m i code l) (state : TaskState) :
    l.stats.count state =
      m.loop.stats.count state + (m.tallied? i).toList.countP (m.state · = state) := by
  rcases h with h | h
  · cases hrecord : i.record? with
    | none =>
      rw [h.count_stats fun t ht => nomatch hrecord.symm.trans ht]
      rw [Machine.tallied?, hrecord]
      rfl
    | some t =>
      by_cases hterminal : (m.state t).isTerminal = true
      · rw [h.count_stats fun k hk => Option.some.inj (hrecord.symm.trans hk) ▸ hterminal,
          show m.tallied? i = some t by simp [Machine.tallied?, hrecord, hterminal], hrecord]
      · rw [show m.tallied? i = none by simp [Machine.tallied?, hrecord, hterminal]]
        cases h with
        | aside hi =>
          rw [Instr.record?_eq_none (Instr.isBooking_eq_false.mp hi).2.1] at hrecord
          cases hrecord
        | recorded =>
          obtain rfl := Option.some.inj hrecord
          show (m.loop.stats.record _).count state = _
          cases hstate : m.state _ with
          | pending => rfl
          | running => rfl
          | _ => rw [hstate] at hterminal; exact absurd rfl hterminal
        | _ => cases hrecord
  · obtain ⟨hstats, -, -, hrecord⟩ := h.aside
    rw [hstats, Machine.tallied?, hrecord]
    rfl

/-- **What the loop is responsible for** waits, or was in its hands before and is not let go of. -/
theorem active_next (h : CountEffect m i code l ∨ StopEffect m i code l)
    (hnodup : m.loop.active.Nodup) : l.active.Nodup ∧ ∀ t ∈ l.active,
      0 < (code.filterMap Instr.enqueue?).count t + l.queue.count t + l.microtasks.count t ∨
      (t ∈ m.loop.active ∧ i.enqueue?.toList.count t = 0 ∧ i.leave?.toList.count t = 0 ∧
        l.queue.count t + l.microtasks.count t =
          m.loop.queue.count t + m.loop.microtasks.count t) := by
  have hother : ∀ {t k : TaskId}, t ≠ k → [k].count t = 0 := fun h =>
    List.count_eq_zero.mpr fun hmem => h (List.mem_singleton.mp hmem)
  have hlast : ∀ (tasks : List TaskId) {t k : TaskId}, t ≠ k →
      (tasks ++ [k]).count t = tasks.count t := by
    intro tasks t k h
    rw [List.count_append, hother h]
    rfl
  have hself : ∀ (tasks : List TaskId) (t : TaskId), 0 < (tasks ++ [t]).count t := fun tasks t =>
    List.count_pos_iff.mpr (List.mem_append_right _ (List.mem_singleton_self t))
  rcases h with h | h
  · cases h with
    | aside hi =>
      obtain ⟨henqueue, hending, -⟩ := Instr.isBooking_eq_false.mp hi
      rw [henqueue, Instr.leave?_eq_none hending]
      exact ⟨hnodup, fun t ht => Or.inr ⟨ht, rfl, rfl, rfl⟩⟩
    | @submitted k =>
      refine ⟨hnodup.insert, fun t ht => ?_⟩
      rcases List.mem_insert_iff.mp ht with rfl | ht
      · refine Or.inl ?_
        have hone : 0 < [t].count t := List.count_pos_iff.mpr (List.mem_singleton_self t)
        show 0 < [t].count t + m.loop.queue.count t + m.loop.microtasks.count t
        omega
      · exact Or.inr ⟨ht, rfl, rfl, rfl⟩
    | @queued k =>
      refine ⟨hnodup, fun t ht => ?_⟩
      by_cases htk : t = k
      · subst htk
        have hpos := hself m.loop.queue t
        exact Or.inl (by dsimp only; omega)
      · exact Or.inr ⟨ht, hother htk, rfl, congrArg (· + _) (hlast _ htk)⟩
    | @pushed k =>
      refine ⟨hnodup.insert, fun t ht => ?_⟩
      by_cases htk : t = k
      · subst htk
        have hpos := hself m.loop.microtasks t
        exact Or.inl (by dsimp only; omega)
      · exact Or.inr ⟨(List.mem_insert_iff.mp ht).resolve_left htk, rfl, rfl,
          congrArg (_ + ·) (hlast _ htk)⟩
    | @left k =>
      refine ⟨hnodup.erase k, fun t ht => ?_⟩
      obtain ⟨htk, ht⟩ := hnodup.mem_erase_iff.mp ht
      exact Or.inr ⟨ht, rfl, hother htk, rfl⟩
    | recorded => exact ⟨hnodup, fun t ht => Or.inr ⟨ht, rfl, rfl, rfl⟩⟩
  · cases h with
    | @refused k =>
      refine ⟨hnodup.erase k, fun t ht => ?_⟩
      obtain ⟨htk, ht⟩ := hnodup.mem_erase_iff.mp ht
      exact Or.inr ⟨ht, hother htk, rfl, rfl⟩
    | swept => exact ⟨List.nodup_nil, fun t ht => absurd ht List.not_mem_nil⟩
    | _ => exact ⟨hnodup, fun t ht => Or.inr ⟨ht, rfl, rfl, rfl⟩⟩

theorem Machine.count_toList_le_held (f : Instr α → Option TaskId) (hi : m.Holds i) (t : TaskId) :
    (f i).toList.count t ≤ (m.held f).count t := by
  cases hf : f i with
  | none => exact Nat.zero_le _
  | some k =>
    by_cases htk : t = k
    · subst htk
      have hpos := List.count_pos_iff.mpr (Machine.mem_held.mpr ⟨i, hi, hf⟩)
      rwa [Option.toList_some, List.count_singleton_self]
    · rw [Option.toList_some, List.count_eq_zero.mpr fun hmem => htk (List.mem_singleton.mp hmem)]
      exact Nat.zero_le _

end Effects

namespace Chronicle

open Machine

variable {c d : Chronicle α} {heedStop : Bool} {self n : Nat} {t : TaskId} {config : LoopConfig}
  {workers : Nat}

/-- The tasks whose runs were over when the loop let go of them. -/
def left (c : Chronicle α) : List TaskId := c.events.filterMap fun v => v.instr.leave?

/-- The tasks that the loop had let in and turned away when it was told to stop. -/
def turnedAway (c : Chronicle α) : List TaskId :=
  c.events.filterMap fun v => v.before.turnedAway? v.instr v.after.loop

/-- The tasks that waited when the loop was emptied. -/
def swept (c : Chronicle α) : List TaskId := c.events.flatMap fun v => v.before.swept v.instr

/-- The tasks that the call of stop has cancelled and counts. -/
def caught (c : Chronicle α) : List TaskId :=
  c.events.filterMap fun v => v.before.caught? v.instr

/-- The tasks that were counted in a final state. -/
def tallied (c : Chronicle α) : List TaskId :=
  c.events.filterMap fun v => v.before.tallied? v.instr

/-- The tasks that had not settled when they were to be counted. -/
def slipped (c : Chronicle α) : List TaskId :=
  c.events.filterMap fun v => v.before.slipped? v.instr

/-- What one more event adds to these lists. -/
theorem leftovers_concat {i : Instr α}
    (h : d.events = c.events ++ [⟨c.machine, d.machine, self, i⟩]) :
    d.left = c.left ++ i.leave?.toList ∧
      d.turnedAway = c.turnedAway ++ (c.machine.turnedAway? i d.machine.loop).toList ∧
      d.swept = c.swept ++ c.machine.swept i ∧
      d.caught = c.caught ++ (c.machine.caught? i).toList ∧
      d.tallied = c.tallied ++ (c.machine.tallied? i).toList := by
  unfold left turnedAway swept caught tallied
  rw [h, List.flatMap_append, List.flatMap_singleton]
  exact ⟨filterMap_concat .., filterMap_concat .., rfl, filterMap_concat .., filterMap_concat ..⟩

/-- **The books of a loop, whether or not it was stopped.** -/
structure Audited (c : Chronicle α) : Prop where
  /-- A task that was brought to the loop waits, is being run or has been, was turned away, or
  waited when the loop was emptied. -/
  entries : ∀ t, c.entries.count t = c.machine.waiting t +
    (c.machine.held Instr.leave?).count t + c.left.count t + c.turnedAway.count t + c.swept.count t
  /-- What was counted was taken by a thread of the loop or caught by a call of stop. -/
  counted : ∀ t, (c.machine.held Instr.record?).count t + c.counted.count t =
    (c.machine.held Instr.leave?).count t + c.left.count t + c.caught.count t
  submissions : c.machine.loop.stats.scheduled + c.machine.loop.stats.microtasks = c.entries.length
  final : ∀ t ∈ c.tallied, (c.machine.state t).isTerminal = true
  score : ∀ state : TaskState,
    c.machine.loop.stats.count state = c.tallied.countP (c.machine.state · = state)
  nodup : c.machine.loop.active.Nodup
  active : ∀ t ∈ c.machine.loop.active,
    0 < c.machine.waiting t + (c.machine.held Instr.leave?).count t

theorem audited_start (config : LoopConfig) (workers : Nat) :
    (start config workers : Chronicle α).Audited where
  entries _ := rfl
  counted _ := rfl
  submissions := rfl
  final := fun _ ht => absurd ht List.not_mem_nil
  score state := by cases state <;> rfl
  nodup := List.nodup_nil
  active := fun _ ht => absurd ht List.not_mem_nil

/-- What was counted keeps its state. -/
theorem Audited.advance (a : c.Audited) {m : Machine α} (h : c.machine.Advances m) :
    (∀ t ∈ c.tallied, (m.state t).isTerminal = true) ∧ ∀ state : TaskState,
      c.tallied.countP (m.state · = state) = c.machine.loop.stats.count state := by
  refine ⟨fun t ht => ?_, fun state => ?_⟩
  · rw [h.final t (a.final t ht)]
    exact a.final t ht
  · rw [a.score]
    refine List.countP_congr fun t ht => ?_
    rw [h.final t (a.final t ht)]

/-- **The books are kept by every step**: an instruction, or a look at the loop, moves a task from
one place to another, and what is counted of it moves with it. -/
theorem Audited.turn (g : c.machine.Governed) (a : c.Audited)
    (hturn : c.turn heedStop self = some d) : d.Audited := by
  have hadv := g.advances_step (turn_step hturn)
  obtain ⟨hfinal, hscore⟩ := a.advance hadv
  cases turn_turn hturn with
  | @carried s i rest code m₁ answer added hs _ hcode hexec hadded hd hevents =>
    have hstrands := congrArg Machine.strands hd
    have hloop : m₁.loop = d.machine.loop := by rw [hd]
    have heffect := exec_counts heedStop i m₁ code hexec
    rw [hloop] at heffect
    obtain ⟨hentries, hcounted⟩ := entries_concat hevents
    obtain ⟨hleft, haway, hswept, hcaught, htallied⟩ := leftovers_concat hevents
    obtain ⟨hi, -⟩ := holds_carried hs hcode hadded hstrands
    have hE := count_held_carried Instr.enqueue? (fun _ _ => rfl) hs hcode hadded hstrands
    have hL := count_held_carried Instr.leave? (fun _ _ => rfl) hs hcode hadded hstrands
    have hR := count_held_carried Instr.record? (fun _ _ => rfl) hs hcode hadded hstrands
    obtain ⟨hleave, hrecord⟩ := endings_next heffect
    rw [hleave] at hL
    rw [hrecord] at hR
    obtain ⟨hnodup, hactive⟩ := active_next heffect a.nodup
    refine
      { entries := fun t => ?entries, counted := fun t => ?counted, submissions := ?submissions,
        final := fun t ht => ?final, score := fun state => ?score, nodup := hnodup,
        active := fun t ht => ?active }
    case entries =>
      have hbefore := a.entries t
      have hnext := count_waiting_next heffect t
      have hE := hE t
      have hL := hL t
      rw [List.count_nil] at hL
      rw [hentries, hleft, haway, hswept]
      simp only [List.count_append]
      unfold waiting at hbefore ⊢
      omega
    case counted =>
      have hbefore := a.counted t
      have hL := hL t
      have hR := hR t
      rw [List.count_nil] at hL
      rw [hcounted, hleft, hcaught]
      simp only [List.count_append]
      omega
    case submissions => rw [submissions_next heffect, hentries, List.length_append, a.submissions]
    case final =>
      rw [htallied] at ht
      rcases List.mem_append.mp ht with ht | ht
      · exact hfinal t ht
      · obtain ⟨-, hterminal⟩ := Option.filter_eq_some_iff.mp (Option.mem_toList.mp ht)
        rw [hadv.final t hterminal]
        exact hterminal
    case score =>
      rw [count_tallied heffect, htallied, List.countP_append, hscore]
      congr 1
      refine List.countP_congr fun t ht => ?_
      obtain ⟨-, hterminal⟩ := Option.filter_eq_some_iff.mp (Option.mem_toList.mp ht)
      rw [hadv.final t hterminal]
    case active =>
      have hE := hE t
      have hL := hL t
      rw [List.count_nil] at hL
      have hfirst := count_toList_le_held Instr.enqueue? hi t
      unfold waiting
      rcases hactive t ht with hpos | ⟨hbefore, henqueue, hleave, hsame⟩
      · omega
      · have hbefore := a.active t hbefore
        unfold waiting at hbefore
        omega
  | @found s role code m₁ exited hs _ _ hcode hfinds hd hevents =>
    have hstrands := congrArg Machine.strands hd
    have hloop : d.machine.loop = m₁.loop := by rw [hd]
    obtain ⟨taken, henqueue, hleave, hrecord, -, hwaiting, hactive, hstats⟩ := hfinds.books
    have hE := count_held_found Instr.enqueue? hs hcode hstrands
    have hL := count_held_found Instr.leave? hs hcode hstrands
    have hR := count_held_found Instr.record? hs hcode hstrands
    rw [henqueue] at hE
    rw [hleave] at hL
    rw [hrecord] at hR
    rw [← hloop] at hwaiting hactive hstats
    have hE : ∀ t, (d.machine.held Instr.enqueue?).count t =
        (c.machine.held Instr.enqueue?).count t := hE
    obtain ⟨md, events⟩ := d
    obtain rfl : events = c.events := hevents
    refine
      { entries := fun t => ?entries, counted := fun t => ?counted, submissions := ?submissions,
        final := hfinal, score := fun state => ?score, nodup := ?nodup,
        active := fun t ht => ?active }
    case entries =>
      have hbefore := a.entries t
      have hE := hE t
      have hL := hL t
      have hwaiting := hwaiting t
      show c.entries.count t = _ + c.left.count t + c.turnedAway.count t + c.swept.count t
      unfold waiting at hbefore ⊢
      omega
    case counted =>
      have hbefore := a.counted t
      have hL := hL t
      have hR := hR t
      show _ + c.counted.count t = _ + c.left.count t + c.caught.count t
      omega
    case submissions =>
      rw [hstats]
      exact a.submissions
    case score =>
      rw [hstats]
      exact (hscore state).symm
    case nodup =>
      rw [hactive]
      exact a.nodup
    case active =>
      rw [hactive] at ht
      have hbefore := a.active t ht
      have hE := hE t
      have hL := hL t
      have hwaiting := hwaiting t
      unfold waiting at hbefore ⊢
      omega

theorem Audited.move {m : Machine α} (a : c.Audited) (h : c.machine.Move m) :
    Audited { c with machine := m } := by
  have haround := h.around
  obtain ⟨hfinal, hscore⟩ := a.advance haround.advances
  obtain ⟨timers, hstats⟩ := h.stats_eq
  obtain ⟨hwaiting, hL, hR⟩ := haround.books_eq
  refine
    { entries := fun t => ?entries, counted := fun t => ?counted, submissions := ?submissions,
      final := hfinal, score := fun state => ?score, nodup := ?nodup,
      active := fun t ht => ?active }
  case entries =>
    show c.entries.count t = m.waiting t + (m.held Instr.leave?).count t + c.left.count t +
      c.turnedAway.count t + c.swept.count t
    rw [hwaiting, hL]
    exact a.entries t
  case counted =>
    show (m.held Instr.record?).count t + c.counted.count t =
      (m.held Instr.leave?).count t + c.left.count t + c.caught.count t
    rw [hL, hR]
    exact a.counted t
  case submissions =>
    show m.loop.stats.scheduled + m.loop.stats.microtasks = c.entries.length
    rw [hstats]
    exact a.submissions
  case score =>
    show m.loop.stats.count state = c.tallied.countP (m.state · = state)
    rw [hscore, hstats]
    cases state <;> rfl
  case nodup =>
    show m.loop.active.Nodup
    rw [haround.loop.active]
    exact a.nodup
  case active =>
    show 0 < m.waiting t + (m.held Instr.leave?).count t
    rw [hwaiting, hL]
    exact a.active t (haround.loop.active ▸ ht)

/-- **The books are right in every run.** -/
theorem Reaches.audited (h : (start config workers).Reaches c) : c.Audited := by
  induction h with
  | refl => exact audited_start config workers
  | turn hreach heedStop self hturn ih => exact ih.turn hreach.governed hturn
  | move _ hmove ih => exact ih.move hmove

end Chronicle

end ManagedHost
