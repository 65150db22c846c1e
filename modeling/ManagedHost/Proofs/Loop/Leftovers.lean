import ManagedHost.Proofs.Loop.Audit
import ManagedHost.Proofs.Loop.Cancelling
import ManagedHost.Proofs.Loop.Stopped

/-!
# What a loop has counted when it was stopped

A call of stop cancels and counts what the loop still holds.  It looks at every task that waits
twice, for each is in the hands of the loop as well, and so takes no notice of those that have
settled; but then a task that was cancelled while it waited is counted by nobody.

`Chronicle.Clearing` says how a loop is emptied that was stopped by none of its own threads.
Together with the books (`Audited`) it says what became of every task that was brought to the loop:
`Reaches.tally_after_stop`.
-/

namespace ManagedHost

variable {α : Type}

namespace Chronicle

open Machine

variable {c d : Chronicle α} {heedStop : Bool} {self n : Nat} {t : TaskId} {config : LoopConfig}
  {workers : Nat}

/-! ### Who empties the loop -/

/-- The loop is stopped once. -/
theorem Reaches.stopper_unique (h : (start config workers).Reaches c) :
    ∀ n ∈ c.stoppers, ∀ k ∈ c.stoppers, n = k := by
  induction h with
  | refl => exact fun _ hn => absurd hn List.not_mem_nil
  | @turn c d hreach heedStop self hturn ih =>
    cases turn_turn hturn with
    | @carried s i rest code m₁ answer added hs _ hcode hexec hadded hd hevents =>
      -- a loop that is running was not stopped before
      have hnew : ∀ n, Event.stopper? ⟨c.machine, d.machine, self, i⟩ = some n →
          n = self ∧ ∀ k, k ∉ c.stoppers := by
        intro n hn
        obtain ⟨hself, -, hrunning⟩ := stopper?_eq_some hn
        exact ⟨hself, fun k hk => nomatch hrunning.symm.trans (hreach.stopping.phase k hk)⟩
      unfold stoppers
      rw [hevents]
      intro n hn k hk
      rcases mem_filterMap_concat.mp hn with hn | hn
      · rcases mem_filterMap_concat.mp hk with hk | hk
        · exact ih n hn k hk
        · exact absurd hn ((hnew k hk).2 n)
      · rcases mem_filterMap_concat.mp hk with hk | hk
        · exact absurd hk ((hnew n hn).2 k)
        · exact (hnew n hn).1.trans (hnew k hk).1.symm
    | found _ _ _ _ _ _ hevents =>
      unfold stoppers
      rw [hevents]
      exact ih
  | move _ _ ih => exact ih

/-- Whether nobody, or none of the threads of the loop, has stopped it. -/
def StoppedOutside (c : Chronicle α) : Prop :=
  ∀ n ∈ c.stoppers, ∀ s, c.machine.strands[n]? = some s → ¬ s.role.IsLoop

theorem StoppedOutside.of_turn (h : d.StoppedOutside) (hturn : c.turn heedStop self = some d) :
    c.StoppedOutside := by
  intro n hn s hs
  obtain ⟨r, hr, hrole, -⟩ := strand_turn hturn hs
  exact hrole ▸ h n (mem_stoppers_turn hturn hn) r hr

theorem StoppedOutside.of_around {m : Machine α} (h : StoppedOutside { c with machine := m })
    (hm : c.machine.Around m) : c.StoppedOutside := by
  intro n hn s hs
  obtain ⟨new, hstrands, -⟩ := hm.strands
  refine h n hn s ?_
  show m.strands[n]? = some s
  rw [hstrands, List.getElem?_append_left (List.getElem?_eq_some_iff.mp hs).1]
  exact hs

/-- Whether the call of stop, when it looked at the task, found it settled as it is now. -/
def FoundSettled (c : Chronicle α) (t : TaskId) : Prop :=
  ∃ v ∈ c.events, v.instr = .cancelLeft t ∧ (v.before.state t).isTerminal = true ∧
    c.machine.state t = v.before.state t

/-- Whether a thread of the loop came to count the task when it had not settled. -/
def Slipped (c : Chronicle α) (t : TaskId) : Prop :=
  ∃ v ∈ c.events, v.instr = .record t ∧ (v.before.state t).isTerminal = false ∧
    ∃ s, c.machine.strands[v.strand]? = some s ∧ s.role.IsLoop

/-- **How a loop is emptied** that was stopped by none of its threads. -/
structure Clearing (c : Chronicle α) : Prop where
  leaving : ∀ (n : Nat) (s : Strand α) (t : TaskId), c.machine.strands[n]? = some s →
    .leave t ∈ s.code → s.role.IsLoop
  recording : ∀ (n : Nat) (s : Strand α) (t : TaskId), c.machine.strands[n]? = some s →
    .record t ∈ s.code → s.role.IsLoop ∨ n ∈ c.stoppers ∧ t ∈ c.caught
  /-- Whatever the call of stop looks at had waited. -/
  looking : ∀ (n : Nat) (s : Strand α) (t : TaskId), c.machine.strands[n]? = some s →
    .cancelLeft t ∈ s.code → n ∈ c.stoppers ∧ t ∈ c.swept
  /-- What was caught has settled, or the call of stop is just about to settle it. -/
  caught : ∀ t ∈ c.caught, t ∈ c.swept ∧
    ((c.machine.state t).isTerminal = true ∨ ∃ n ∈ c.stoppers, c.machine.CancelsAt n t)
  once : c.caught.Nodup
  /-- Whatever had waited is looked at. -/
  seen : ∀ t ∈ c.swept, c.machine.Holds (.cancelLeft t) ∨ t ∈ c.caught ∨ c.FoundSettled t
  slipped : ∀ t ∈ c.slipped, c.Slipped t

theorem clearing_start (config : LoopConfig) (workers : Nat) :
    (start config workers : Chronicle α).Clearing where
  leaving := fun _ _ _ hs => absurd hs (Option.not_mem_none _)
  recording := fun _ _ _ hs => absurd hs (Option.not_mem_none _)
  looking := fun _ _ _ hs => absurd hs (Option.not_mem_none _)
  caught := fun _ ht => absurd ht List.not_mem_nil
  once := List.nodup_nil
  seen := fun _ ht => absurd ht List.not_mem_nil
  slipped := fun _ ht => absurd ht List.not_mem_nil

/-- Where an instruction comes from that a strand has before it: it was there, or the strand has
just carried out the one that leaves it behind, or found it to do. -/
theorem origin_turn (h : c.turn heedStop self = some d) {r : Strand α}
    (hr : d.machine.strands[n]? = some r) {j : Instr α} (hj : j ∈ r.code) :
    (∃ s, c.machine.strands[n]? = some s ∧ s.role = r.role ∧ j ∈ s.code) ∨
    (∃ s i code, c.machine.strands[n]? = some s ∧ s.role = r.role ∧ i ∈ s.code ∧ j ∈ code ∧
      (CountEffect c.machine i code d.machine.loop ∨
        StopEffect c.machine i code d.machine.loop) ∧
      d.events = c.events ++ [⟨c.machine, d.machine, n, i⟩]) ∨
    j.isStopping = false ∧ (r.role.IsLoop ∨ j.isEnding = false) := by
  cases turn_turn h with
  | @carried s i rest code m₁ answer added hs hexited hcode hexec hadded hd hevents =>
    rcases strand_cases (congrArg strands hd) hr with ⟨rfl, rfl⟩ | ⟨-, hr⟩ | hr
    · rcases List.mem_append.mp hj with hj | hj
      · refine Or.inr (Or.inl ⟨s, i, code, hs, rfl, hcode ▸ List.mem_cons_self, hj, ?_, hevents⟩)
        rw [show d.machine.loop = m₁.loop by rw [hd]]
        exact exec_counts heedStop i m₁ code hexec
      · exact Or.inl ⟨s, hs, rfl, hcode ▸ List.mem_cons_of_mem i hj⟩
    · exact Or.inl ⟨r, hr, rfl, hj⟩
    · obtain ⟨-, -, p, setup, hsetup⟩ := hadded r hr
      rw [hsetup, List.mem_singleton] at hj
      subst hj
      exact Or.inr (Or.inr ⟨rfl, Or.inr rfl⟩)
  | @found s role code m₁ exited hs hrole hexited hcode hfinds hd =>
    rcases strand_cases_set (congrArg strands hd) hr with ⟨-, rfl⟩ | ⟨-, hr⟩
    · obtain ⟨-, -, -, -, hcalm, -⟩ := hfinds.books
      refine Or.inr (Or.inr ⟨hcalm j hj, ?_⟩)
      exact hfinds.isLoop_or.imp (fun hloop => hrole ▸ hloop) fun hnone => hnone j hj
    · exact Or.inl ⟨r, hr, rfl, hj⟩

/-- What the call of stop looks at was in the loop when it was emptied. -/
theorem mem_of_cancelLeft {m : Machine α} {i : Instr α} {code : List (Instr α)} {l : EventLoop}
    (h : CountEffect m i code l ∨ StopEffect m i code l) (hj : .cancelLeft t ∈ code) :
    i = .sweepLoop ∧ t ∈ m.loop.queue ++ m.loop.microtasks ++ m.loop.active := by
  rcases h with h | h
  · cases (h.leaves _ hj).2
  · cases h with
    | refused _ hcode => cases ((filterMap_of_all hcode).2 _ hj).2
    | swept =>
      rcases List.mem_append.mp hj with hj | hj
      · obtain ⟨k, -, heq⟩ := List.mem_map.mp hj
        cases heq
      · obtain ⟨k, hk, heq⟩ := List.mem_map.mp hj
        obtain rfl := Instr.cancelLeft.inj heq
        exact ⟨rfl, hk⟩
    | caught => simp at hj
    | passed => exact absurd hj List.not_mem_nil
    | _ => simp at hj

/-- What is caught was looked at and had not settled. -/
theorem caught?_eq_some {m : Machine α} {i : Instr α} (h : m.caught? i = some t) :
    i = .cancelLeft t ∧ (m.state t).isTerminal = false := by
  obtain ⟨hleft, hopen⟩ := Option.filter_eq_some_iff.mp h
  refine ⟨?_, by simpa using hopen⟩
  cases i with
  | cancelLeft => exact congrArg _ (Option.some.inj hleft)
  | _ => cases hleft

theorem slipped?_eq_some {m : Machine α} {i : Instr α} (h : m.slipped? i = some t) :
    i = .record t ∧ (m.state t).isTerminal = false := by
  obtain ⟨hrecord, hopen⟩ := Option.filter_eq_some_iff.mp h
  refine ⟨?_, by simpa using hopen⟩
  cases i with
  | record => exact congrArg _ (Option.some.inj hrecord)
  | _ => cases hrecord

/-- When the threads of the loop have left, what it is responsible for waits. -/
theorem Clearing.mem_swept (k : c.Clearing) (a : c.Audited) (s : c.Stopping)
    (hout : c.StoppedOutside) {r : Strand α} (hr : c.machine.strands[n]? = some r)
    (hj : .sweepLoop ∈ r.code)
    (ht : t ∈ c.machine.loop.queue ++ c.machine.loop.microtasks ++ c.machine.loop.active) :
    t ∈ c.machine.swept (.sweepLoop : Instr α) := by
  obtain ⟨hn, hgone⟩ := s.sweeping n r hr hj
  refine (List.mem_append.mp ht).elim id fun ht => ?_
  have hpos := a.active t ht
  have hnobody : ∀ (f : Instr α → Option TaskId), (∀ j, c.machine.Holds j → f j ≠ some t) →
      (c.machine.held f).count t = 0 := by
    refine fun f hf => List.count_eq_zero.mpr fun hmem => ?_
    obtain ⟨j, hj, hfj⟩ := mem_held.mp hmem
    exact hf j hj hfj
  have hleave : (c.machine.held Instr.leave?).count t = 0 := by
    refine hnobody _ fun j ⟨r', hr', hj'⟩ hleave => ?_
    obtain ⟨k', hk'⟩ := List.mem_iff_getElem?.mp hr'
    have hj' : .leave t ∈ r'.code := by
      cases j with
      | leave => exact Option.some.inj hleave ▸ hj'
      | _ => cases hleave
    have hrole := k.leaving k' r' t hk' hj'
    -- a thread that is at a run of the task has not left
    have hne : k' ≠ n := fun heq => hout n hn r' (heq ▸ hk') hrole
    rw [s.left k' r' hk' (hgone k' r' hk' hne hrole)] at hj'
    exact absurd hj' List.not_mem_nil
  have henqueue : (c.machine.held Instr.enqueue?).count t = 0 := by
    refine hnobody _ fun j ⟨r', hr', hj'⟩ henqueue => ?_
    obtain ⟨k', hk'⟩ := List.mem_iff_getElem?.mp hr'
    have hnot := s.isEnqueue_eq_false (s.phase n hn) hk' hj'
    cases j with
    | enqueue => cases hnot
    | _ => cases henqueue
  unfold waiting at hpos
  refine List.count_pos_iff.mp ?_
  show 0 < (c.machine.loop.queue ++ c.machine.loop.microtasks).count t
  rw [List.count_append]
  omega

theorem swept_later (hturn : c.turn heedStop self = some d) (ht : t ∈ c.swept) : t ∈ d.swept := by
  cases turn_turn hturn with
  | carried _ _ _ _ _ _ hevents =>
    rw [(leftovers_concat hevents).2.2.1]
    exact List.mem_append_left _ ht
  | found _ _ _ _ _ _ hevents =>
    unfold swept
    rw [hevents]
    exact ht

theorem caught_later (hturn : c.turn heedStop self = some d) (ht : t ∈ c.caught) :
    t ∈ d.caught := by
  cases turn_turn hturn with
  | carried _ _ _ _ _ _ hevents =>
    rw [(leftovers_concat hevents).2.2.2.1]
    exact List.mem_append_left _ ht
  | found _ _ _ _ _ _ hevents =>
    unfold caught
    rw [hevents]
    exact ht

section Turn

variable (k : c.Clearing) (hturn : c.turn heedStop self = some d)
include k hturn

theorem Clearing.leaving_turn : ∀ (n : Nat) (r : Strand α) (t : TaskId),
    d.machine.strands[n]? = some r → .leave t ∈ r.code → r.role.IsLoop := by
  intro n r t hr hj
  rcases origin_turn hturn hr hj with
    ⟨s, hs, hrole, hj⟩ | ⟨s, i, code, hs, hrole, hi, hj, heffect, -⟩ | ⟨-, hloop | hnot⟩
  · exact hrole ▸ k.leaving n s t hs hj
  · have hmem := List.mem_filterMap.mpr ⟨_, hj, show Instr.leave? (.leave t) = some t from rfl⟩
    rw [(endings_next heffect).1] at hmem
    exact absurd hmem List.not_mem_nil
  · exact hloop
  · cases hnot

theorem Clearing.recording_turn : ∀ (n : Nat) (r : Strand α) (t : TaskId),
    d.machine.strands[n]? = some r → .record t ∈ r.code →
      r.role.IsLoop ∨ n ∈ d.stoppers ∧ t ∈ d.caught := by
  intro n r t hr hj
  rcases origin_turn hturn hr hj with
    ⟨s, hs, hrole, hj⟩ | ⟨s, i, code, hs, hrole, hi, hj, heffect, hevents⟩ | ⟨-, hloop | hnot⟩
  · exact hrole ▸ (k.recording n s t hs hj).imp_right
      (And.imp (mem_stoppers_turn hturn) (caught_later hturn))
  · have hmem := List.mem_filterMap.mpr ⟨_, hj, show Instr.record? (.record t) = some t from rfl⟩
    rw [(endings_next heffect).2] at hmem
    obtain ⟨rfl, -⟩ := caught?_eq_some (Option.mem_toList.mp hmem)
    refine Or.inr ⟨mem_stoppers_turn hturn (k.looking n s t hs hi).1, ?_⟩
    rw [(leftovers_concat hevents).2.2.2.1]
    exact List.mem_append_right _ hmem
  · exact Or.inl hloop
  · cases hnot

theorem Clearing.looking_turn (a : c.Audited) (s : c.Stopping) (hout : c.StoppedOutside) :
    ∀ (n : Nat) (r : Strand α) (t : TaskId), d.machine.strands[n]? = some r →
      .cancelLeft t ∈ r.code → n ∈ d.stoppers ∧ t ∈ d.swept := by
  intro n r t hr hj
  rcases origin_turn hturn hr hj with
    ⟨r, hr, -, hj⟩ | ⟨r, i, code, hr, -, hi, hj, heffect, hevents⟩ | ⟨hnot, -⟩
  · obtain ⟨hn, ht⟩ := k.looking n r t hr hj
    exact ⟨mem_stoppers_turn hturn hn, swept_later hturn ht⟩
  · obtain ⟨rfl, ht⟩ := mem_of_cancelLeft heffect hj
    refine ⟨mem_stoppers_turn hturn (s.sweeping n r hr hi).1, ?_⟩
    rw [(leftovers_concat hevents).2.2.1]
    exact List.mem_append_right _ (k.mem_swept a s hout hr hi ht)
  · cases hnot

/-- A task that is caught is not caught again: by then it has settled. -/
theorem Clearing.caught_turn (g : c.machine.Governed) (hone : ∀ n ∈ c.stoppers, ∀ k ∈ c.stoppers,
    n = k) : d.caught.Nodup ∧ ∀ t ∈ d.caught, t ∈ d.swept ∧
      ((d.machine.state t).isTerminal = true ∨ ∃ n ∈ d.stoppers, d.machine.CancelsAt n t) := by
  have hadv := g.advances_step (turn_step hturn)
  have hold : ∀ t ∈ c.caught, t ∈ d.swept ∧
      ((d.machine.state t).isTerminal = true ∨ ∃ n ∈ d.stoppers, d.machine.CancelsAt n t) := by
    intro t ht
    obtain ⟨hswept, hstate⟩ := k.caught t ht
    refine ⟨swept_later hturn hswept, ?_⟩
    rcases hstate with hterminal | ⟨n, hn, hcancels⟩
    · exact Or.inl ((hadv.final t hterminal).symm ▸ hterminal)
    · exact (cancelsAt_turn hturn hcancels).imp_right fun hcancels =>
        ⟨n, mem_stoppers_turn hturn hn, hcancels⟩
  cases turn_turn hturn with
  | @carried s i rest code m₁ answer added hs hexited hcode hexec hadded hd hevents =>
    obtain ⟨-, -, -, hcaught, -⟩ := leftovers_concat hevents
    rw [hcaught]
    cases hc : c.machine.caught? i with
    | none =>
      rw [Option.toList_none, List.append_nil]
      exact ⟨k.once, hold⟩
    | some t =>
      obtain ⟨rfl, hopen⟩ := caught?_eq_some hc
      obtain ⟨hn, ht⟩ := k.looking self s t hs (hcode ▸ List.mem_cons_self)
      refine ⟨List.nodup_append.mpr ⟨k.once, List.nodup_singleton t, ?_⟩,
        List.forall_mem_append.mpr ⟨hold, List.forall_mem_singleton.mpr
          ⟨swept_later hturn ht, Or.inr ⟨self, mem_stoppers_turn hturn hn, ?_⟩⟩⟩⟩
      · rintro t' ht' _ hmem rfl
        obtain rfl := List.mem_singleton.mp hmem
        rcases (k.caught _ ht').2 with hterminal | ⟨n, hn', r, j, more, hr, -, hcode', hcancels⟩
        · cases hopen.symm.trans hterminal
        · -- the call of stop would be about to settle it
          obtain rfl := hone n hn' self hn
          obtain rfl := Option.some.inj (hr.symm.trans hs)
          obtain ⟨rfl, -⟩ := List.cons.inj (hcode'.symm.trans hcode)
          exact hcancels
      · cases exec_ruled hexec with
        | cancelLeft =>
          exact ⟨_, .cancel t, .record t :: rest, strand_self hs (congrArg strands hd), hexited,
            rfl, rfl⟩
        | cancelLeftLate hterminal => cases hopen.symm.trans hterminal
  | found _ _ _ _ _ _ hevents =>
    have hcaught : d.caught = c.caught := congrArg (List.filterMap _) hevents
    rw [hcaught]
    exact ⟨k.once, hold⟩

theorem Clearing.seen_turn (g : c.machine.Governed) :
    ∀ t ∈ d.swept, d.machine.Holds (.cancelLeft t) ∨ t ∈ d.caught ∨ d.FoundSettled t := by
  have hadv := g.advances_step (turn_step hturn)
  have hfound : ∀ t, c.FoundSettled t → d.FoundSettled t := by
    rintro t ⟨v, hv, hinstr, hterminal, hstate⟩
    refine ⟨v, (events_turn hturn).subset hv, hinstr, hterminal, ?_⟩
    rw [← hstate] at hterminal
    exact (hadv.final t hterminal).trans hstate
  intro t ht
  cases turn_turn hturn with
  | @carried s i rest code m₁ answer added hs hexited hcode hexec hadded hd hevents =>
    obtain ⟨-, hkeeps, hgains, -⟩ := holds_carried hs hcode hadded (congrArg strands hd)
    obtain ⟨-, -, hswept, hcaught, -⟩ := leftovers_concat hevents
    rw [hcaught]
    rw [hswept] at ht
    rcases List.mem_append.mp ht with ht | ht
    · rcases k.seen t ht with hholds | hmem | hsettled
      · rcases hkeeps _ hholds with rfl | hholds
        · -- the call of stop looks at it now
          by_cases hterminal : (c.machine.state t).isTerminal = true
          · exact Or.inr (Or.inr ⟨_, mem_last hevents, rfl, hterminal, hadv.final t hterminal⟩)
          · refine Or.inr (Or.inl (List.mem_append_right _ (Option.mem_toList.mpr ?_)))
            exact Option.filter_eq_some_iff.mpr ⟨rfl, by simpa using hterminal⟩
        · exact Or.inl hholds
      · exact Or.inr (Or.inl (List.mem_append_left _ hmem))
      · exact Or.inr (Or.inr (hfound t hsettled))
    · cases i with
      | sweepLoop =>
        cases exec_ruled hexec
        refine Or.inl (hgains _ (List.mem_append_right _ (List.mem_map_of_mem ?_)))
        exact List.mem_append_left _ ht
      | _ => exact absurd ht List.not_mem_nil
  | found hs _ _ hcode _ hd hevents =>
    obtain ⟨hkeeps, -⟩ := holds_found hs hcode (congrArg strands hd)
    have hswept : d.swept = c.swept := congrArg (List.flatMap _) hevents
    have hcaught : d.caught = c.caught := congrArg (List.filterMap _) hevents
    rw [hcaught]
    exact (k.seen t (hswept ▸ ht)).imp (hkeeps _) (Or.imp_right (hfound t))

/-- What the call of stop counts has settled. -/
theorem Clearing.slipped_turn (hone : ∀ n ∈ c.stoppers, ∀ k ∈ c.stoppers, n = k) :
    ∀ t ∈ d.slipped, d.Slipped t := by
  have hold : ∀ t, c.Slipped t → d.Slipped t := by
    rintro t ⟨v, hv, hinstr, hopen, s, hs, hrole⟩
    obtain ⟨r, hr, hsame, -⟩ := strand_turn hturn hs
    exact ⟨v, (events_turn hturn).subset hv, hinstr, hopen, r, hr, hsame ▸ hrole⟩
  intro t ht
  cases turn_turn hturn with
  | @carried s i rest code m₁ answer added hs hexited hcode hexec hadded hd hevents =>
    unfold Chronicle.slipped at ht
    rw [hevents] at ht
    rcases mem_filterMap_concat.mp ht with ht | ht
    · exact hold t (k.slipped t ht)
    · obtain ⟨rfl, hopen⟩ := slipped?_eq_some ht
      refine ⟨_, mem_last hevents, rfl, hopen, _, strand_self hs (congrArg strands hd), ?_⟩
      refine (k.recording self s t hs (hcode ▸ List.mem_cons_self)).resolve_right ?_
      rintro ⟨hn, hcaught⟩
      rcases (k.caught t hcaught).2 with hterminal | ⟨n, hn', r, j, more, hr, -, hcode', hcancels⟩
      · cases hopen.symm.trans hterminal
      · -- the cancellation comes before the counting
        obtain rfl := hone n hn' self hn
        obtain rfl := Option.some.inj (hr.symm.trans hs)
        obtain ⟨rfl, -⟩ := List.cons.inj (hcode'.symm.trans hcode)
        exact hcancels
  | found _ _ _ _ _ _ hevents =>
    have hslipped : d.slipped = c.slipped := congrArg (List.filterMap _) hevents
    exact hold t (k.slipped t (hslipped ▸ ht))

end Turn

theorem Clearing.move {m : Machine α} (k : c.Clearing) (h : c.machine.Move m) :
    Clearing { c with machine := m } := by
  have haround := h.around
  obtain ⟨new, hstrands, hnew⟩ := haround.strands
  -- whoever has something of that before it was there
  have hold : ∀ {n : Nat} {r : Strand α} {j : Instr α}, m.strands[n]? = some r → j ∈ r.code →
      ¬ j.IsCall → c.machine.strands[n]? = some r := by
    intro n r j hr hj hnot
    rw [hstrands] at hr
    rcases Nat.lt_or_ge n c.machine.strands.length with hlt | hge
    · rwa [List.getElem?_append_left hlt] at hr
    · rw [List.getElem?_append_right hge] at hr
      exact absurd ((hnew r (List.mem_of_getElem? hr)).2.2.2 j hj).1 hnot
  refine
    { leaving := fun n r t hr hj => ?leaving, recording := fun n r t hr hj => ?recording,
      looking := fun n r t hr hj => ?looking, caught := fun t ht => ?caught, once := k.once,
      seen := fun t ht => ?seen, slipped := fun t ht => ?slipped }
  case leaving => exact k.leaving n r t (hold hr hj id) hj
  case recording => exact k.recording n r t (hold hr hj id) hj
  case looking => exact k.looking n r t (hold hr hj id) hj
  case caught =>
    refine (k.caught t ht).imp_right (Or.imp (fun hterminal => ?_) ?_)
    · exact (haround.advances.final t hterminal).symm ▸ hterminal
    · rintro ⟨n, hn, hcancels⟩
      exact ⟨n, hn, hcancels.around haround⟩
  case seen =>
    refine (k.seen t ht).imp haround.holds (Or.imp_right ?_)
    rintro ⟨v, hv, hinstr, hterminal, hstate⟩
    have hfinal := haround.advances.final t (hstate.symm ▸ hterminal)
    exact ⟨v, hv, hinstr, hterminal, hfinal.trans hstate⟩
  case slipped =>
    obtain ⟨v, hv, hinstr, hopen, r, hr, hrole⟩ := k.slipped t ht
    refine ⟨v, hv, hinstr, hopen, r, ?_, hrole⟩
    show m.strands[v.strand]? = some r
    rw [hstrands, List.getElem?_append_left (List.getElem?_eq_some_iff.mp hr).1]
    exact hr

theorem Reaches.clearing (h : (start config workers).Reaches c) (hout : c.StoppedOutside) :
    c.Clearing := by
  induction h with
  | refl => exact clearing_start config workers
  | turn hreach heedStop self hturn ih =>
    have hout' := hout.of_turn hturn
    have k := ih hout'
    have s := hreach.stopping
    obtain ⟨honce, hcaught⟩ := k.caught_turn hturn hreach.governed hreach.stopper_unique
    exact ⟨k.leaving_turn hturn, k.recording_turn hturn,
      k.looking_turn hturn hreach.audited s hout', hcaught, honce,
      k.seen_turn hturn hreach.governed, k.slipped_turn hturn hreach.stopper_unique⟩
  | move _ hmove ih => exact (ih (hout.of_around hmove.around)).move hmove

/-! ### The tally -/

/-- The tasks that waited when the loop was emptied and that the call of stop did not catch. -/
def passedOver (c : Chronicle α) : List TaskId := c.swept.filter (· ∉ c.caught)

/-- What was to be counted has settled or has not. -/
theorem counted_perm (c : Chronicle α) : c.counted.Perm (c.tallied ++ c.slipped) := by
  unfold counted tallied slipped
  induction c.events with
  | nil => exact .refl _
  | cons v rest ih =>
    cases hv : v.instr.record? with
    | none =>
      rw [List.filterMap_cons_none (show v.counted? = none from hv), List.filterMap_cons_none,
        List.filterMap_cons_none]
      · exact ih
      · rw [slipped?, hv]
        rfl
      · rw [tallied?, hv]
        rfl
    | some t =>
      rw [List.filterMap_cons_some (show v.counted? = some t from hv)]
      by_cases hterminal : (v.before.state t).isTerminal = true
      · rw [@List.filterMap_cons_some _ _ _ v rest t, List.filterMap_cons_none]
        · exact ih.cons t
        · simp [slipped?, hv, hterminal]
        · simp [tallied?, hv, hterminal]
      · rw [List.filterMap_cons_none, @List.filterMap_cons_some _ _ _ v rest t]
        · exact (ih.cons t).trans List.perm_middle.symm
        · simp [slipped?, hv, hterminal]
        · simp [tallied?, hv, hterminal]

/-- **When the call of stop has returned**, nobody is at a run of a task of the loop or about to
count one, and nothing waits. -/
theorem Clearing.nothing_held (k : c.Clearing) (st : c.Stopping)
    (hone : ∀ n ∈ c.stoppers, ∀ k ∈ c.stoppers, n = k) (hn : n ∈ c.stoppers) {s : Strand α}
    (hs : c.machine.strands[n]? = some s) (houtside : ¬ s.role.IsLoop)
    (hreturned : ∀ j ∈ s.code, j.isStopping = false ∧ j.isEnding = false) :
    (∀ t, c.machine.waiting t = 0) ∧ c.machine.held Instr.leave? = [] ∧
      c.machine.held Instr.record? = [] ∧ ∀ t, ¬ c.machine.Holds (.cancelLeft t) := by
  have hself : ∀ {r : Strand α}, c.machine.strands[n]? = some r → r = s := fun hr =>
    Option.some.inj (hr.symm.trans hs)
  obtain ⟨r, hr, hwhere⟩ := st.emptied n hn
  obtain rfl := hself hr
  have hempty := (hwhere.resolve_left fun hj => nomatch (hreturned _ hj).1).resolve_left
    fun hj => nomatch (hreturned _ hj).1
  -- the threads of the loop have left
  have hgone : ∀ {i : Nat} {r' : Strand α}, c.machine.strands[i]? = some r' → r'.role.IsLoop →
      r'.code = [] := by
    intro i r' hr' hrole
    have hne : i ≠ n := by
      rintro rfl
      exact houtside (hself hr' ▸ hrole)
    exact st.left i r' hr' (hempty.threads i r' hr' hne hrole)
  have hnil : ∀ f : Instr α → Option TaskId,
      (∀ (i : Nat) (r' : Strand α), c.machine.strands[i]? = some r' → ∀ j ∈ r'.code, f j = none) →
      c.machine.held f = [] := by
    refine fun f hf => List.eq_nil_iff_forall_not_mem.mpr fun t ht => ?_
    obtain ⟨j, ⟨r', hr', hj⟩, hfj⟩ := mem_held.mp ht
    obtain ⟨i, hi⟩ := List.mem_iff_getElem?.mp hr'
    cases (hf i r' hi j hj).symm.trans hfj
  have hE : c.machine.held Instr.enqueue? = [] := hnil _ fun i r' hr' j hj => by
    have hnot := st.isEnqueue_eq_false (st.phase n hn) hr' hj
    cases j with
    | enqueue => cases hnot
    | _ => rfl
  refine ⟨fun t => ?_, hnil _ fun i r' hr' j hj => ?_, hnil _ fun i r' hr' j hj => ?_, ?_⟩
  · unfold waiting
    rw [hE, hempty.queue, hempty.microtasks]
    rfl
  · cases j with
    | leave t =>
      rw [hgone hr' (k.leaving i r' t hr' hj)] at hj
      exact absurd hj List.not_mem_nil
    | _ => rfl
  · cases j with
    | record t =>
      rcases k.recording i r' t hr' hj with hrole | ⟨hi, -⟩
      · rw [hgone hr' hrole] at hj
        exact absurd hj List.not_mem_nil
      · obtain rfl := hone i hi n hn
        obtain rfl := hself hr'
        cases (hreturned _ hj).2
    | _ => rfl
  · rintro t ⟨r', hr', hj⟩
    obtain ⟨i, hi⟩ := List.mem_iff_getElem?.mp hr'
    obtain rfl := hone i (k.looking i r' t hi hj).1 n hn
    obtain rfl := hself hi
    cases (hreturned _ hj).1

/-- What waited when the loop was emptied was caught or passed over, and nothing was both. -/
theorem Clearing.count_swept (k : c.Clearing) (honce : c.swept.count t ≤ 1) :
    c.swept.count t = c.caught.count t + c.passedOver.count t := by
  unfold passedOver
  by_cases ht : t ∈ c.caught
  · have hcaught := List.count_eq_one_of_mem k.once ht
    have hswept := List.count_pos_iff.mpr (k.caught t ht).1
    have hnone : (c.swept.filter (· ∉ c.caught)).count t = 0 := by
      refine List.count_eq_zero.mpr fun hmem => ?_
      exact of_decide_eq_true (List.mem_filter.mp hmem).2 ht
    omega
  · have hall : (c.swept.filter (· ∉ c.caught)).count t = c.swept.count t :=
      List.count_filter (decide_eq_true ht)
    rw [List.count_eq_zero.mpr ht, hall, Nat.zero_add]

/-- **What a loop has counted when it was stopped.**  Let the loop have been used in any way, by
callers that cancel whatever they like, but let no task have been brought to it twice; let the
strand `n`, which is not a thread of the loop, be the one that stopped it, and let its call of stop
have returned.  Then:

* every task that was brought to the loop is one of four: it was counted by its final state, or a
  thread of the loop came to count it when it had not settled, or it was turned away, or the call of
  stop has passed it over; and it is so only once;
* so the three counters and these exceptions together are as many as the tasks that the loop took
  in, as tasks or as microtasks;
* each counter says how many of the tasks that were counted are in its state;
* a task that was passed over had settled, while it waited, before the call of stop came to it;
* a task that had not settled when it was to be counted was at a thread of the loop, which does not
  wait for a task that somebody else is running. -/
theorem Reaches.tally_after_stop {s : Strand α} (h : (start config workers).Reaches c)
    (hn : n ∈ c.stoppers) (hs : c.machine.strands[n]? = some s) (houtside : ¬ s.role.IsLoop)
    (hreturned : ∀ j ∈ s.code, j.isStopping = false ∧ j.isEnding = false)
    (honce : c.entries.Nodup) :
    c.entries.Perm (c.tallied ++ c.slipped ++ c.turnedAway ++ c.passedOver) ∧
    c.machine.loop.stats.completed + c.machine.loop.stats.failed +
        c.machine.loop.stats.cancelled +
        (c.slipped.length + c.turnedAway.length + c.passedOver.length) =
      c.machine.loop.stats.scheduled + c.machine.loop.stats.microtasks ∧
    (∀ state : TaskState,
      c.machine.loop.stats.count state = c.tallied.countP (c.machine.state · = state)) ∧
    (∀ t ∈ c.passedOver, c.FoundSettled t) ∧
    ∀ t ∈ c.slipped, c.Slipped t := by
  have a := h.audited
  have st := h.stopping
  have hone := h.stopper_unique
  have k := h.clearing fun i hi r hr => by
    obtain rfl := hone i hi n hn
    obtain rfl := Option.some.inj (hr.symm.trans hs)
    exact houtside
  obtain ⟨hwaiting, hleave, hrecord, hlooking⟩ :=
    k.nothing_held st hone hn hs houtside hreturned
  have hperm : c.entries.Perm (c.tallied ++ c.slipped ++ c.turnedAway ++ c.passedOver) := by
    refine List.perm_iff_count.mpr fun t => ?_
    have hentries := a.entries t
    have hcounted := a.counted t
    rw [hwaiting, hleave] at hentries
    rw [hrecord, hleave] at hcounted
    rw [List.count_nil] at hentries hcounted
    have hle := List.nodup_iff_count_le_one.mp honce t
    have hswept := k.count_swept (t := t) (by omega)
    have hparts := c.counted_perm.count_eq t
    simp only [List.count_append] at hparts ⊢
    omega
  refine ⟨hperm, ?_, a.score, fun t ht => ?_, k.slipped⟩
  · have hlength := hperm.length_eq
    have hfinal := countP_final a.final
    rw [← a.score, ← a.score, ← a.score] at hfinal
    simp only [List.length_append] at hlength
    rw [a.submissions, hlength, ← hfinal]
    show _ = c.machine.loop.stats.completed + c.machine.loop.stats.failed +
      c.machine.loop.stats.cancelled + _ + _ + _
    omega
  · obtain ⟨hswept, hnot⟩ := List.mem_filter.mp ht
    exact ((k.seen t hswept).resolve_left (hlooking t)).resolve_left (of_decide_eq_true hnot)

/-! ### Two runs -/

/-- The first task is run by the worker.  The other two are brought to the loop as microtasks, and
the last is cancelled while it waits; then strand 7 stops the loop. -/
def halfDone : Chronicle Nat :=
  (((((staffed.call (.submit 0 .caller)).call (.microtask 1 true)).call (.microtask 2 true)).call
    (.cancel 2)).call .stopLoop).run ([3, 3, 3, 4, 4, 5, 5] ++ List.replicate 8 6 ++
      List.replicate 12 0 ++ [7, 7, 0, 1, 2] ++ List.replicate 25 7)

/-- Of three tasks, one is counted when it was run and one when it is cancelled by the call of stop;
the third is passed over. -/
theorem tally_halfDone :
    halfDone.entries = [0, 1, 2] ∧ halfDone.passedOver = [2] ∧
      halfDone.machine.loop.stats.completed + halfDone.machine.loop.stats.failed +
        halfDone.machine.loop.stats.cancelled + 1 =
      halfDone.machine.loop.stats.scheduled + halfDone.machine.loop.stats.microtasks ∧
      halfDone.machine.loop.stats.completed = 1 ∧ halfDone.FoundSettled 2 := by
  have hreaches : (start { workers := 1 } 0).Reaches halfDone :=
    (((((reaches_staffed.call (.submit 0 .caller) trivial trivial).call (.microtask 1 true) trivial
      trivial).call (.microtask 2 true) trivial trivial).call (.cancel 2) trivial trivial).call
      .stopLoop trivial trivial).run _
  have hstoppers : halfDone.stoppers = [7] := by decide +kernel
  have hentries : halfDone.entries = [0, 1, 2] := by decide +kernel
  have hslipped : halfDone.slipped = [] := by decide +kernel
  have haway : halfDone.turnedAway = [] := by decide +kernel
  have hpassed : halfDone.passedOver = [2] := by decide +kernel
  have htallied : halfDone.tallied.countP (halfDone.machine.state · = .completed) = 1 := by
    decide +kernel
  have hstrand : halfDone.machine.strands[7]?.map (fun s : Strand Nat => (s.role, s.code.length)) =
      some (Role.caller, 0) := by
    decide +kernel
  obtain ⟨s, hs, hcaller⟩ := Option.map_eq_some_iff.mp hstrand
  obtain ⟨hrole, hlength⟩ := Prod.mk.inj hcaller
  have hnil : s.code = [] := List.eq_nil_of_length_eq_zero hlength
  obtain ⟨-, hsum, hstates, hsettled, -⟩ := hreaches.tally_after_stop
    (hstoppers ▸ List.mem_singleton_self 7) hs (hrole ▸ id)
    (hnil ▸ fun _ hj => absurd hj List.not_mem_nil) (hentries ▸ by decide)
  rw [hslipped, haway, hpassed, List.length_nil, List.length_singleton, Nat.zero_add] at hsum
  exact ⟨hentries, hpassed, hsum, (hstates .completed).trans htallied,
    hsettled 2 (hpassed ▸ List.mem_singleton_self 2)⟩

/-- A task is brought to the loop as a microtask and cancelled while it waits; then strand 5 stops
the loop. -/
def overlooked : Chronicle Nat :=
  (((staffed.call (.microtask 0 true)).call (.cancel 0)).call .stopLoop).run
    ([3, 3] ++ List.replicate 8 4 ++ [5, 5, 0, 1, 2] ++ List.replicate 6 5)

/-- **A task that was cancelled while it waited is not counted**, though it was taken in and is
settled, and the call of stop, which has returned, has looked at it. -/
theorem overlooked_uncounted :
    (start { workers := 1 } 0).Reaches overlooked ∧ 5 ∈ overlooked.stoppers ∧
      (∃ s : Strand Nat, overlooked.machine.strands[5]? = some s ∧ s.role = .caller ∧ s.code = []) ∧
      overlooked.entries = [0] ∧ overlooked.turnedAway = [] ∧ overlooked.slipped = [] ∧
      overlooked.machine.state 0 = .cancelled ∧
      overlooked.machine.loop.stats.scheduled + overlooked.machine.loop.stats.microtasks = 1 ∧
      overlooked.machine.loop.stats.completed + overlooked.machine.loop.stats.failed +
        overlooked.machine.loop.stats.cancelled = 0 := by
  refine ⟨?_, ?_, ⟨_, rfl, rfl, rfl⟩, rfl, rfl, rfl, rfl, rfl, rfl⟩
  · exact (((reaches_staffed.call (.microtask 0 true) trivial trivial).call (.cancel 0) trivial
      trivial).call .stopLoop trivial trivial).run _
  · rw [show overlooked.stoppers = [5] from rfl]
    exact List.mem_singleton_self 5

end Chronicle

end ManagedHost
