import ManagedHost.Proofs.Loop.Batches

/-!
# The tally of a loop that nobody stops

The loop counts what is brought to it, and counts it again by its final state when the run is over.
`Chronicle.Scored` says that the second count is right; with the books (`Booked`) and the order in
which the threads work (`Orderly`) it follows what the counters show whenever no thread is about to
count a task: `Reaches.tally_at_rest`.  No thread is when they all have to wait
(`Reaches.tallied_of_waiting`).
-/

namespace ManagedHost

variable {α : Type}

/-- Every settled task is in one of the three final states. -/
theorem countP_final {l : List TaskId} {f : TaskId → TaskState}
    (h : ∀ t ∈ l, (f t).isTerminal = true) :
    l.countP (f · = .completed) + l.countP (f · = .failed) + l.countP (f · = .cancelled) =
      l.length := by
  induction l with
  | nil => rfl
  | cons t rest ih =>
    obtain ⟨ht, hrest⟩ := List.forall_mem_cons.mp h
    have hrest := ih hrest
    simp only [List.countP_cons, List.length_cons, decide_eq_true_eq]
    cases hstate : f t with
    | pending => rw [hstate] at ht; cases ht
    | running => rw [hstate] at ht; cases ht
    | completed => simp only [reduceCtorEq, if_true, if_false]; omega
    | failed => simp only [reduceCtorEq, if_true, if_false]; omega
    | cancelled => simp only [reduceCtorEq, if_true, if_false]; omega

/-- An instruction counts its task by the state that it is in, if it counts one. -/
theorem CountEffect.count_stats {m : Machine α} {i : Instr α} {code : List (Instr α)}
    {l : EventLoop} (h : CountEffect m i code l) {state : TaskState}
    (hfinal : ∀ t, i.record? = some t → (m.state t).isTerminal = true) :
    l.stats.count state =
      m.loop.stats.count state + i.record?.toList.countP (m.state · = state) := by
  cases h with
  | aside hi' => rw [Instr.record?_eq_none (Instr.isBooking_eq_false.mp hi').2.1]; rfl
  | submitted => cases state <;> rfl
  | queued => rfl
  | pushed => cases state <;> rfl
  | left => rfl
  | @recorded t =>
    show (m.loop.stats.record (m.state t)).count state =
      m.loop.stats.count state + [t].countP (m.state · = state)
    rw [LoopStats.count_record _ (hfinal t rfl), List.countP_singleton]
    simp only [decide_eq_true_eq]

namespace Machine

/-- **Whether the machine is at rest** as far as the counters go: no thread is about to count a task
that the loop has already let go of. -/
def Tallied (m : Machine α) : Prop := ∀ s ∈ m.strands, s.code.head?.bind Instr.record? = none

instance (m : Machine α) : Decidable m.Tallied :=
  inferInstanceAs (Decidable (∀ s ∈ m.strands, s.code.head?.bind Instr.record? = none))

end Machine

namespace Chronicle

open Machine

variable {c d : Chronicle α} {heedStop : Bool} {self : Nat} {tasks : List TaskId}
  {config : LoopConfig} {workers : Nat}

/-- **What the loop has counted.** -/
structure Scored (c : Chronicle α) : Prop where
  /-- A task is counted by the state that it keeps. -/
  counts : ∀ v ∈ c.events, ∀ t ∈ v.counted?, (c.machine.state t).isTerminal = true ∧
    v.after.loop.stats = v.before.loop.stats.record (c.machine.state t)
  score : ∀ state : TaskState,
    c.machine.loop.stats.count state = c.counted.countP (c.machine.state · = state)

theorem scored_start (config : LoopConfig) (workers : Nat) :
    (start config workers : Chronicle α).Scored where
  counts := fun _ hv => absurd hv List.not_mem_nil
  score state := by cases state <;> rfl

theorem Scored.final (z : c.Scored) : ∀ t ∈ c.counted, (c.machine.state t).isTerminal = true := by
  intro t ht
  obtain ⟨v, hv, ht⟩ := List.mem_filterMap.mp ht
  exact (z.counts v hv t ht).1

/-- What was counted stays as it was counted. -/
theorem Scored.advance (z : c.Scored) {m : Machine α} (h : c.machine.Advances m) :
    (∀ v ∈ c.events, ∀ t ∈ v.counted?, (m.state t).isTerminal = true ∧
      v.after.loop.stats = v.before.loop.stats.record (m.state t)) ∧
    ∀ state : TaskState, c.counted.countP (m.state · = state) =
      c.machine.loop.stats.count state := by
  refine ⟨fun v hv t ht => ?_, fun state => ?_⟩
  · obtain ⟨hfinal, hstats⟩ := z.counts v hv t ht
    rw [h.final t hfinal]
    exact ⟨hfinal, hstats⟩
  · rw [z.score]
    refine List.countP_congr fun t ht => ?_
    rw [h.final t (z.final t ht)]

theorem Scored.turn (z : c.Scored) (g : c.machine.Governed) (b : c.Booked) (o : c.Orderly tasks)
    (hturn : c.turn heedStop self = some d) (hx : d.Exclusive tasks) : d.Scored := by
  have hadv := g.advances_step (turn_step hturn)
  obtain ⟨hcounts, hscore⟩ := z.advance hadv
  cases turn_turn hturn with
  | @carried s i rest code m₁ answer added hs _ hcode hexec hadded hd hevents =>
    have hloop : d.machine.loop = m₁.loop := by rw [hd]
    have hs' := List.mem_of_getElem? hs
    have hcalm := b.calm i ⟨s, hs', hcode ▸ List.mem_cons_self⟩
    have heffect := exec_counts_calm hexec hcalm (hloop ▸ hx.notStopped)
    rw [← hloop] at heffect
    -- whoever is counted has settled
    have hsettled : ∀ t, i.record? = some t → (c.machine.state t).isTerminal = true := by
      intro t ht
      have hbatch := o.batches s hs'
      rw [hcode] at hbatch
      cases i with
      | record k =>
        obtain rfl := Option.some.inj ht
        exact hbatch.settled
      | _ => cases ht
    refine ⟨fun v hv t ht => ?_, fun state => ?_⟩
    · rw [hevents] at hv
      rcases List.mem_append.mp hv with hv | hv
      · exact hcounts v hv t ht
      · obtain rfl := List.mem_singleton.mp hv
        have hfinal := hsettled t ht
        rw [hadv.final t hfinal]
        refine ⟨hfinal, ?_⟩
        cases i with
        | record k =>
          obtain rfl := Option.some.inj ht
          show d.machine.loop.stats = _
          cases exec_ruled hexec
          rw [hloop]
        | _ => cases ht
    · rw [heffect.count_stats hsettled, (entries_concat hevents).2,
        List.countP_append, hscore]
      congr 1
      refine List.countP_congr fun t ht => ?_
      rw [hadv.final t (hsettled t (Option.mem_toList.mp ht))]
  | found _ _ _ _ hfinds hd hevents =>
    obtain ⟨-, -, -, -, -, -, -, hstats⟩ := hfinds.books
    have hcounted : d.counted = c.counted := congrArg (List.filterMap Event.counted?) hevents
    refine ⟨hevents ▸ hcounts, fun state => ?_⟩
    rw [hcounted, hscore, ← hstats, hd]

theorem Scored.move {m : Machine α} (z : c.Scored) (h : c.machine.Move m) :
    Scored { c with machine := m } := by
  obtain ⟨hcounts, hscore⟩ := z.advance h.around.advances
  obtain ⟨timers, hstats⟩ := h.stats_eq
  refine ⟨hcounts, fun state => ?_⟩
  show m.loop.stats.count state = c.counted.countP (m.state · = state)
  rw [hscore, hstats]
  cases state <;> rfl

/-- **The books, the order and the count are kept** in every run in which the loop alone runs its
tasks. -/
theorem Reaches.booked (h : (start config workers).Reaches c) (hx : c.Exclusive tasks) :
    c.Booked ∧ c.Orderly tasks ∧ c.Scored := by
  induction h with
  | refl => exact ⟨booked_start .., orderly_start .., scored_start ..⟩
  | turn hreach heedStop self hturn ih =>
    obtain ⟨b, o, z⟩ := ih (hx.of_turn hturn)
    have g := hreach.governed
    exact ⟨b.turn hturn hx.notStopped hx.once, o.turn g b hturn hx, z.turn g b o hturn hx⟩
  | move hreach hmove ih =>
    obtain ⟨b, o, z⟩ := ih (hx.of_move hmove)
    exact ⟨b.move hmove, o.move hmove, z.move hmove⟩

/-- The machine is at rest when all threads of the loop have to wait. -/
theorem Reaches.tallied_of_waiting (h : (start config workers).Reaches c) (hx : c.Exclusive tasks)
    (hwait : ∀ (self : Nat) (s : Strand α), c.machine.strands[self]? = some s → s.role.IsLoop →
      ∃ heedStop, c.machine.step heedStop self = none) : c.machine.Tallied := by
  obtain ⟨-, o, -⟩ := h.booked hx
  intro s hs
  cases hcode : s.code with
  | nil => rfl
  | cons i rest =>
    cases i with
    | record t =>
      -- only threads of the loop count, and they need not wait for it
      have hmem : .record t ∈ s.code := hcode ▸ List.mem_cons_self
      have hrole := (o.threads s hs).resolve_right fun hnone => Bool.noConfusion (hnone _ hmem)
      obtain ⟨self, hself⟩ := List.mem_iff_getElem?.mp hs
      have hexited : s.exited = false := by
        refine Bool.eq_false_iff.mpr fun hexited => ?_
        rw [h.stopping.left self s hself hexited] at hmem
        exact absurd hmem List.not_mem_nil
      obtain ⟨heedStop, hstep⟩ := hwait self s hself hrole
      simp [step, hself, hexited, hcode, exec] at hstep
    | _ => rfl

/-- At rest, what was brought to the loop is in its hands or counted. -/
theorem Booked.entries_perm (b : c.Booked) (o : c.Orderly tasks) (hrest : c.machine.Tallied) :
    c.entries.Perm (c.machine.loop.active ++ c.counted) := by
  have hheld : c.machine.held Instr.leave? = c.machine.held Instr.record? :=
    List.flatMap_congr fun s hs => (o.batches s hs).balanced (hrest s hs)
  refine List.perm_iff_count.mpr fun t => ?_
  have hentries := b.entries t
  have hactive := b.active t
  rw [hheld] at hactive
  rw [List.count_append]
  omega

/-- **When all threads of the loop have to wait**, what was brought to the loop is in its hands or
counted. -/
theorem Reaches.entries_perm_of_waiting (h : (start config workers).Reaches c)
    (hx : c.Exclusive tasks) (hwait : ∀ (self : Nat) (s : Strand α),
      c.machine.strands[self]? = some s → s.role.IsLoop →
        ∃ heedStop, c.machine.step heedStop self = none) :
    c.entries.Perm (c.machine.loop.active ++ c.counted) := by
  obtain ⟨b, o, -⟩ := h.booked hx
  exact b.entries_perm o (h.tallied_of_waiting hx hwait)

/-- A task whose run is over was counted by one event, and in the state that it keeps. -/
theorem Scored.counted_once (z : c.Scored) {t : TaskId} (h : c.counted.count t = 1) :
    (c.machine.state t).isTerminal = true ∧ ∃ v, c.events.filter (·.counted? = some t) = [v] ∧
      v.after.loop.stats = v.before.loop.stats.record (c.machine.state t) := by
  have hlength : (c.events.filter (·.counted? = some t)).length = 1 := by
    rw [← List.countP_eq_length_filter, ← h]
    unfold counted
    rw [List.count_filterMap]
    exact List.countP_congr fun v _ => by rw [decide_eq_true_eq, beq_iff_eq]
  obtain ⟨v, hv⟩ := List.length_eq_one_iff.mp hlength
  have hmem : v ∈ c.events.filter (·.counted? = some t) := hv ▸ List.mem_singleton_self v
  obtain ⟨hmem, hcounts⟩ := List.mem_filter.mp hmem
  obtain ⟨hfinal, hstats⟩ := z.counts v hmem t (of_decide_eq_true hcounts)
  exact ⟨hfinal, v, hv, hstats⟩

/-- A task that the loop has in its hands waits, or a thread has yet to let go of it. -/
theorem Booked.mem_active (b : c.Booked) {t : TaskId} (h : t ∈ c.machine.loop.active) :
    t ∈ c.machine.loop.queue ∨ t ∈ c.machine.loop.microtasks ∨
      ∃ j, c.machine.Holds j ∧ (j.enqueue? = some t ∨ j.leave? = some t) := by
  have hpos := List.count_pos_iff.mpr h
  have hactive := b.active t
  have hsum : 0 < (c.machine.held Instr.enqueue?).count t ∨ 0 < c.machine.loop.queue.count t ∨
      0 < c.machine.loop.microtasks.count t ∨ 0 < (c.machine.held Instr.leave?).count t := by
    unfold waiting at hactive
    omega
  rcases hsum with ht | ht | ht | ht
  · obtain ⟨j, hj, hentry⟩ := mem_held.mp (List.count_pos_iff.mp ht)
    exact Or.inr (Or.inr ⟨j, hj, Or.inl hentry⟩)
  · exact Or.inl (List.count_pos_iff.mp ht)
  · exact Or.inr (Or.inl (List.count_pos_iff.mp ht))
  · obtain ⟨j, hj, hleave⟩ := mem_held.mp (List.count_pos_iff.mp ht)
    exact Or.inr (Or.inr ⟨j, hj, Or.inr hleave⟩)

/-- **The counters of a loop are right whenever it is at rest.**  Let the loop be used in any way,
idle or running, by callers that cancel whatever they like, but let nobody have told it to stop, let
no task have been brought to it twice, and let it alone have run those that were.  Then:

* the tasks that it took in, as tasks or as microtasks, are as many as those that it has counted as
  completed, failed or cancelled and those that are active together;
* a task that it took in and that is not active any more, so that the loop has finished with it, has
  settled, and was counted by one event, by the state that it is in;
* a task that is active was not counted, even if it was cancelled meanwhile: it waits for its turn,
  or a thread is at its run;
* the three counters say how many of the tasks that the loop has finished with are in each final
  state. -/
theorem Reaches.tally_at_rest (h : (start config workers).Reaches c) (hx : c.Exclusive tasks)
    (hrest : c.machine.Tallied) :
    c.machine.loop.stats.scheduled + c.machine.loop.stats.microtasks =
      c.machine.loop.stats.completed + c.machine.loop.stats.failed +
        c.machine.loop.stats.cancelled + c.machine.loop.active.length ∧
    (∀ t ∈ c.entries, t ∉ c.machine.loop.active → (c.machine.state t).isTerminal = true ∧
      ∃ v, c.events.filter (·.counted? = some t) = [v] ∧
        v.after.loop.stats = v.before.loop.stats.record (c.machine.state t)) ∧
    (∀ t ∈ c.machine.loop.active, t ∈ c.entries ∧ t ∉ c.counted ∧
      (t ∈ c.machine.loop.queue ∨ t ∈ c.machine.loop.microtasks ∨
        ∃ j, c.machine.Holds j ∧ (j.enqueue? = some t ∨ j.leave? = some t))) ∧
    ∀ state : TaskState, c.machine.loop.stats.count state =
      c.entries.countP fun t => t ∉ c.machine.loop.active ∧ c.machine.state t = state := by
  obtain ⟨b, o, z⟩ := h.booked hx
  have hperm := b.entries_perm o hrest
  obtain ⟨-, hcounted, hapart⟩ := List.nodup_append.mp (hperm.nodup_iff.mp hx.once)
  have hnot : ∀ t ∈ c.counted, t ∉ c.machine.loop.active := fun t ht hactive =>
    hapart t hactive t ht rfl
  refine ⟨?_, fun t ht hinactive => z.counted_once ?_, fun t ht => ⟨b.known t ht, ?_, ?_⟩, ?_⟩
  · -- each of the three counters counts the tasks in its state
    have hfinal := countP_final z.final
    rw [← z.score, ← z.score, ← z.score] at hfinal
    rw [b.submissions, hperm.length_eq, List.length_append, ← hfinal]
    exact Nat.add_comm _ _
  · have hmem := (List.mem_append.mp (hperm.mem_iff.mp ht)).resolve_left hinactive
    exact List.count_eq_one_of_mem hcounted hmem
  · exact fun hmem => hnot t hmem ht
  · exact b.mem_active ht
  · intro state
    rw [hperm.countP_eq, List.countP_append, z.score]
    have hnone : c.machine.loop.active.countP
        (fun t => t ∉ c.machine.loop.active ∧ c.machine.state t = state) = 0 :=
      List.countP_eq_zero.mpr fun t ht hboth => (of_decide_eq_true hboth).1 ht
    rw [hnone, Nat.zero_add]
    refine List.countP_congr fun t ht => ?_
    simp only [hnot t ht, not_false_eq_true, true_and]

/-! ### A run -/

/-- A loop with one worker and three tasks, of which the second is held at the gate when it runs.
The strands 0, 1 and 2 are the threads of the loop. -/
def staffed : Chronicle Nat :=
  ((((start { workers := 1 } 0).act fun m =>
    (m.newTask (.script [] (.done (.returns (.ok 7))))).2).act fun m =>
    (m.newTask (.script [.gate] (.done (.returns (.ok 8))))).2).act fun m =>
    (m.newTask (.script [] (.done (.returns (.ok 9))))).2).act startLoop

theorem reaches_staffed : (start { workers := 1 } 0).Reaches staffed :=
  (((Reaches.refl.act (.newTask _ none rfl)).act (.newTask _ none rfl)).act
    (.newTask _ none rfl)).act .startLoop

/-- The first task is continued by a fourth, and the three are given to the loop.  The worker runs
the first, and the fourth follows it as a microtask.  While the worker is at the second, that and
the third are cancelled, and then the gate is opened.  The worker counts the second, and has not yet
looked at the third. -/
def mixed : Chronicle Nat :=
  (((((((((((staffed.act fun m =>
    (m.continueWith 0 (.andThen 0 none fun v => .returns (.ok (v + 1)))).2).call
    (.submit 0 .caller)).call (.submit 1 .caller)).call (.submit 2 .caller)).run
    ([3, 4, 4, 4, 5, 5, 5, 6, 6, 6] ++ List.replicate 14 0)).act (·.elapse 1000)).run
    (List.replicate 9 1)).call (.cancel 1)).call (.cancel 2)).run
    (List.replicate 6 7 ++ List.replicate 6 8)).act (·.release.2)).run (List.replicate 5 0)

theorem reaches_mixed : (start { workers := 1 } 0).Reaches mixed :=
  ((((((((((reaches_staffed.act (.continueWith (m := staffed.machine) 0 _ (by decide) rfl)).call
    (.submit 0 .caller) trivial trivial).call (.submit 1 .caller) trivial trivial).call
    (.submit 2 .caller) trivial trivial).run _).act (.elapse 1000)).run _).call (.cancel 1) trivial
    trivial).call (.cancel 2) trivial trivial).run _).act .release |>.run _

/-- A task that was cancelled while it ran is counted as such when its run is over, and one that was
cancelled while it waits is not counted yet. -/
theorem tally_mixed :
    mixed.entries = [0, 1, 2, 3] ∧ mixed.machine.loop.active = [2] ∧
      mixed.machine.loop.stats.scheduled + mixed.machine.loop.stats.microtasks =
        mixed.machine.loop.stats.completed + mixed.machine.loop.stats.failed +
          mixed.machine.loop.stats.cancelled + 1 ∧
      (mixed.machine.state 1).isTerminal = true ∧ 2 ∉ mixed.counted ∧
      mixed.machine.loop.stats.cancelled = 1 := by
  have hentries : mixed.entries = [0, 1, 2, 3] := by decide +kernel
  have hactive : mixed.machine.loop.active = [2] := by decide +kernel
  have hexclusive : mixed.Exclusive mixed.entries :=
    ⟨by decide +kernel, by decide +kernel, fun _ => id, by decide +kernel, by decide +kernel⟩
  have hrest : mixed.machine.Tallied := by decide +kernel
  obtain ⟨hsum, hdone, hheld, hstates⟩ := reaches_mixed.tally_at_rest hexclusive hrest
  rw [hactive] at hsum hdone hheld
  rw [List.length_singleton] at hsum
  rw [hentries] at hdone
  have hcancelled : mixed.entries.countP (fun t => t ∉ mixed.machine.loop.active ∧
      mixed.machine.state t = .cancelled) = 1 := by
    decide +kernel
  refine ⟨hentries, hactive, hsum, ?_, ?_, ?_⟩
  · exact (hdone 1 (by decide) (by decide)).1
  · exact (hheld 2 (by decide)).2.1
  · exact (hstates .cancelled).trans hcancelled

end Chronicle

end ManagedHost
