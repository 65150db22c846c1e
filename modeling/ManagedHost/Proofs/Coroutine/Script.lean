import ManagedHost.Proofs.Coroutine.Session

/-!
# Scripted producers

A `Coroutine` runs a producer that is given by a script, and runs it as far as it gets each time the
consumer has done something.  This is one of the many orders in which the moves of a session can
come: whatever a consumer does with a coroutine (`Coroutine.play`), there are moves that lead a
session to the same stream, the same result and the same values consumed
(`Coroutine.play_follows`).

The caller 0 is the producer here, and the caller 1 the consumer.
-/

namespace ManagedHost

namespace YieldStream

variable {α : Type}

theorem yield_eq_yielded {s stream : YieldStream α} {v : α} (h : s.yield v = (.yielded, stream)) :
    ¬ s.cancelled = true ∧ s.put v = (.yielded, stream) := by
  rw [yield_eq_put] at h
  split_ifs at h with hcancelled
  · cases h
  · exact ⟨hcancelled, h⟩

theorem yield_eq_refused {s stream : YieldStream α} {v : α} {e : TaskError}
    (h : s.yield v = (.refused e, stream)) : s.cancelled = true ∧ e = .cancelled := by
  rw [yield_eq_put] at h
  split_ifs at h with hcancelled
  · obtain ⟨he, -⟩ := Prod.mk.inj h
    exact ⟨hcancelled, (YieldResult.refused.inj he).symm⟩
  · unfold put at h
    split_ifs at h <;> cases h

/-- A read that consumes nothing leaves the stream as it is. -/
theorem pop_stream {s stream : YieldStream α} {result : NextResult α}
    (h : s.pop = (result, stream)) (hnone : ∀ v, result ≠ .got v) : stream = s := by
  unfold pop at h
  split at h
  · obtain ⟨rfl, -⟩ := Prod.mk.inj h
    exact absurd rfl (hnone _)
  · exact (Prod.mk.inj h).2.symm

theorem tryPop_stream {s stream : YieldStream α} (h : s.tryPop = (none, stream)) :
    stream = s := by
  unfold tryPop at h
  split at h
  · cases h
  · exact (Prod.mk.inj h).2.symm

namespace Session

/-! ### Calls made without interruption -/

/-- The session with nobody in a call and no notification to come. -/
def quiet (k : Account α) : Session α := { toAccount := k }

section Quiet

variable (k : Account α)

theorem place_none_place (c : Nat) (p : Option (Pending α)) :
    ((quiet k).place c p).place c none = quiet k := by
  unfold place quiet
  simp only [Function.update_idem]
  rw [Function.update_eq_self]

theorem enter_place (c : Nat) (call : Call α) :
    ((quiet k).place c (some ⟨call, false⟩)).enter c =
      match call with
      | .yield v => ((quiet k).place c (some ⟨call, false⟩)).enterYield c v
      | .next => ((quiet k).place c (some ⟨call, false⟩)).enterNext c
      | .cancel => ((quiet k).place c (some ⟨call, false⟩)).enterCancel c := by
  have hpending : ((quiet k).place c (some ⟨call, false⟩)).pending c = some ⟨call, false⟩ :=
    Function.update_self ..
  have hfree : ((quiet k).place c (some ⟨call, false⟩)).holder = none := rfl
  unfold enter
  rw [hpending, hfree]
  cases call <;> rfl

/-- A yield that succeeds at once. -/
theorem run_yield {v : α} {stream : YieldStream α} (h : k.stream.yield v = (.yielded, stream)) :
    (quiet k).run [.begin 0 (.yield v), .enter 0, .commit] =
      quiet ({ k with stream }.note (.yielded 0 v)) := by
  obtain ⟨hcancelled, hput⟩ := yield_eq_yielded h
  have henter : ((quiet k).place 0 (some ⟨.yield v, false⟩)).enter 0 =
      { quiet k with holder := some (0, v) } := by
    rw [enter_place]
    dsimp only
    unfold enterYield
    rw [place_none_place]
    exact if_neg hcancelled
  show (((quiet k).place 0 (some ⟨.yield v, false⟩)).enter 0).commit = _
  rw [henter]
  exact commit_yielded rfl hput

/-- A yield that is refused. -/
theorem run_refused {v : α} (h : k.stream.cancelled = true) :
    (quiet k).run [.begin 0 (.yield v), .enter 0] =
      quiet (k.note (.refused 0 v .cancelled)) := by
  show ((quiet k).place 0 (some ⟨.yield v, false⟩)).enter 0 = _
  rw [enter_place]
  dsimp only
  unfold enterYield
  rw [place_none_place]
  exact if_pos h

/-- The end of the producer, with the notification and the result that follow. -/
theorem run_finish (ending : Ending) (h : k.ending = none) :
    (quiet k).run [.finish ending, .notify, .publish] =
      quiet ({ k with
        stream := k.stream.finish, ending := some ending, result := some ending.result }.note
          (.finished ending)) := by
  have hfinish : (quiet k).finish ending =
      Session.note { quiet k with
        stream := k.stream.finish, ending := some ending, owed := 1 } (.finished ending) := by
    unfold finish
    rw [if_neg (by simp [quiet, h])]
    rfl
  show (((quiet k).finish ending).step .notify).step .publish = _
  rw [hfinish]
  rfl

/-- A read that does not wait, with the notification that follows. -/
theorem run_tryNext {v : α} {stream : YieldStream α} (h : k.stream.tryPop = (some v, stream)) :
    (quiet k).run [.tryNext 1, .notify] = quiet ({ k with stream }.note (.got 1 v)) := by
  have htook : (quiet k).tryNext 1 =
      Session.note { quiet k with stream, owed := 1 } (.got 1 v) := tryNext_some h
  show ((quiet k).tryNext 1).step .notify = _
  rw [htook]
  rfl

theorem run_nothing {stream : YieldStream α} (h : k.stream.tryPop = (none, stream)) :
    (quiet k).run [.tryNext 1] = quiet (k.note (.nothing 1)) :=
  tryNext_none h

/-- A read that finds a value. -/
theorem run_got {v : α} {stream : YieldStream α} (h : k.stream.pop = (.got v, stream)) :
    (quiet k).run [.begin 1 .next, .enter 1] = quiet ({ k with stream }.note (.got 1 v)) := by
  show ((quiet k).place 1 (some ⟨.next, false⟩)).enter 1 = _
  rw [enter_place]
  refine (enterNext_got h).trans ?_
  show ((((quiet { k with stream }).place 1 (some ⟨.next, false⟩)).place 1 none).wakeAll).note _ = _
  rw [place_none_place]
  rfl

/-- A read that sees the end. -/
theorem run_ended {stream : YieldStream α} (h : k.stream.pop = (.ended, stream)) :
    (quiet k).run [.begin 1 .next, .enter 1] = quiet (k.note (.ended 1)) := by
  show ((quiet k).place 1 (some ⟨.next, false⟩)).enter 1 = _
  rw [enter_place]
  refine (enterNext_ended h).trans ?_
  rw [place_none_place]
  rfl

/-- A cancel. -/
theorem run_cancel :
    (quiet k).run [.begin 1 .cancel, .enter 1] =
      quiet (({ k with stream := k.stream.cancel }.note .signalled).note (.cancelled 1)) := by
  show ((quiet ({ k with stream := k.stream.cancel }.note .signalled)).place 1
    (some ⟨.cancel, false⟩)).enter 1 = _
  rw [enter_place]
  dsimp only
  unfold enterCancel
  rw [place_none_place]
  rfl

end Quiet

end Session

end YieldStream

namespace Coroutine

open YieldStream (Account Ending Session consumedIn)

variable {α : Type}

/-! ### What a consumer does -/

/-- What a consumer can do with a coroutine. -/
inductive Action where
  | next
  | tryNext
  | cancel
  | release

/-- Do it.  Also returns the value consumed, if there is one. -/
def act (c : Coroutine α) : Action → Option α × Coroutine α
  | .next =>
    match c.next with
    | (.got value, c) => (some value, c)
    | (_, c) => (none, c)
  | .tryNext => c.tryNext
  | .cancel => (none, c.cancel)
  | .release => (none, c.release.2)

/-- Do one thing after the other.  Also returns the values consumed. -/
def play (c : Coroutine α) : List Action → List α × Coroutine α
  | [] => ([], c)
  | action :: rest =>
    let (value, c) := c.act action
    let (values, c) := c.play rest
    (value.toList ++ values, c)

/-- The account agrees with the coroutine. -/
structure Follows (k : Account α) (c : Coroutine α) : Prop where
  stream : k.stream = c.stream
  ending : k.ending.map Ending.result = c.outcome
  result : k.result = c.outcome

/-- Moves lead from the account to the coroutine, and consume the values. -/
def Leads (k : Account α) (values : List α) (c : Coroutine α) : Prop :=
  ∃ moves k', (Session.quiet k).run moves = Session.quiet k' ∧ Follows k' c ∧
    consumedIn k'.trace = consumedIn k.trace ++ values

section Leads

variable {k : Account α} {c c' : Coroutine α}

theorem Follows.leads (f : Follows k c) : Leads k [] c :=
  ⟨[], k, rfl, f, (List.append_nil _).symm⟩

theorem Leads.trans {values more : List α} (first : Leads k values c)
    (second : ∀ k', Follows k' c → Leads k' more c') : Leads k (values ++ more) c' := by
  obtain ⟨moves, k', hrun, hfollows, hconsumed⟩ := first
  obtain ⟨moves', k'', hrun', hfollows', hconsumed'⟩ := second k' hfollows
  refine ⟨moves ++ moves', k'', ?_, hfollows', ?_⟩
  · rw [Session.run_append, hrun, hrun']
  · rw [hconsumed', hconsumed, List.append_assoc]

/-- An event in which no value is consumed. -/
theorem leads_of_note {moves : List (YieldStream.Move α)} {k' : Account α}
    {e : YieldStream.Event α} (hrun : (Session.quiet k).run moves = Session.quiet (k'.note e))
    (htrace : k'.trace = k.trace) (he : e.got? = none) (f : Follows (k'.note e) c) :
    Leads k [] c := by
  refine ⟨moves, k'.note e, hrun, f, ?_⟩
  show consumedIn (k'.trace ++ [e]) = _
  rw [YieldStream.consumedIn_concat, he, htrace, Option.toList_none]

/-- A value that is consumed. -/
theorem leads_of_got {moves : List (YieldStream.Move α)} {stream : YieldStream α} {v : α}
    (hrun : (Session.quiet k).run moves = Session.quiet ({ k with stream }.note (.got 1 v)))
    (f : Follows k c) : Leads k [v] { c with stream } := by
  refine ⟨moves, _, hrun, ⟨rfl, f.ending, f.result⟩, ?_⟩
  exact YieldStream.consumedIn_concat ..

/-- The end of the producer. -/
theorem Follows.finish (f : Follows k c) (hwork : c.outcome = none) (ending : Ending) :
    Leads k [] (c.finish ending.result) := by
  have hnone : k.ending = none := by
    have hending := f.ending
    rwa [hwork, Option.map_eq_none_iff] at hending
  refine leads_of_note (Session.run_finish k ending hnone) rfl rfl ⟨?_, rfl, rfl⟩
  exact congrArg YieldStream.finish f.stream

/-- A yield that is refused is noted, and may end the producer. -/
theorem Follows.refused (f : Follows k c) (hwork : c.outcome = none)
    (hcancelled : k.stream.cancelled = true) (v : α) (keepOn : Bool) :
    Leads k [] (if keepOn then c.note (.error .cancelled)
      else (c.note (.error .cancelled)).finish (.error .cancelled)) := by
  have hnoted : Leads k [] (c.note (.error .cancelled)) :=
    leads_of_note (Session.run_refused k (v := v) hcancelled) rfl rfl
      ⟨f.stream, f.ending, f.result⟩
  cases keepOn with
  | true => exact hnoted
  | false => exact hnoted.trans fun k' f' => f'.finish hwork (.returned (.error .cancelled))

/-- **One action of the producer.** -/
theorem Follows.advance (f : Follows k c) (h : c.advance? = some c') : Leads k [] c' := by
  unfold advance? at h
  by_cases hended : c.outcome.isSome
  case pos =>
    rw [if_pos hended] at h
    cases h
  have hwork : c.outcome = none := Option.not_isSome_iff_eq_none.mp hended
  rw [if_neg hended] at h
  cases hscript : c.script with
  | nil =>
    rw [hscript] at h
    obtain rfl := Option.some.inj h
    exact f.finish hwork (.returned c.ending)
  | cons action rest =>
    rw [hscript] at h
    have hrest : Follows k { c with script := rest } := ⟨f.stream, f.ending, f.result⟩
    cases action with
    | yield v keepOn =>
      rcases hyield : c.stream.yield v with ⟨result, stream⟩
      simp only [hyield] at h
      rw [← f.stream] at hyield
      cases result with
      | yielded =>
        obtain rfl := Option.some.inj h
        exact leads_of_note (Session.run_yield k hyield) rfl rfl ⟨rfl, f.ending, f.result⟩
      | refused e =>
        obtain rfl := Option.some.inj h
        obtain ⟨hcancelled, rfl⟩ := YieldStream.yield_eq_refused hyield
        exact hrest.refused hwork hcancelled v keepOn
      | blocked => cases h
    | gate => cases h
    | waitCancel =>
      dsimp only at h
      split_ifs at h
      obtain rfl := Option.some.inj h
      exact hrest.leads
    | noteCancelled =>
      obtain rfl := Option.some.inj h
      exact Follows.leads ⟨f.stream, f.ending, f.result⟩
    | noteQueue =>
      obtain rfl := Option.some.inj h
      exact Follows.leads ⟨f.stream, f.ending, f.result⟩
    | cancelSelf =>
      obtain rfl := Option.some.inj h
      have hrun : (Session.quiet k).run [.signal] =
          Session.quiet (({ k with stream := k.stream.cancel } : Account α).note .signalled) := rfl
      exact leads_of_note hrun rfl rfl
        ⟨congrArg YieldStream.cancel f.stream, f.ending, f.result⟩
    | panic message =>
      obtain rfl := Option.some.inj h
      exact hrest.finish hwork (.panicked message)

/-- The producer runs as far as it gets. -/
theorem Follows.run (f : Follows k c) : Leads k [] c.run := by
  unfold Coroutine.run
  generalize c.script.length + 1 = fuel
  induction fuel generalizing k c with
  | zero => exact f.leads
  | succ fuel ih =>
    rw [runUpTo]
    split
    · next d hadvance => exact (f.advance hadvance).trans fun k' f' => ih f'
    · exact f.leads

/-! ### The consumer -/

theorem Leads.run {values : List α} (l : Leads k values c) : Leads k values c.run := by
  have hrun := l.trans fun k' f' => f'.run
  rwa [List.append_nil] at hrun

theorem Follows.next (f : Follows k c) : Leads k (c.act .next).1.toList (c.act .next).2 := by
  unfold act Coroutine.next
  rcases hpop : c.stream.pop with ⟨result, stream⟩
  have hpop' : k.stream.pop = (result, stream) := by rw [f.stream, hpop]
  cases result with
  | got v => exact (leads_of_got (Session.run_got k hpop') f).run
  | ended =>
    obtain rfl := YieldStream.pop_stream hpop nofun
    exact (leads_of_note (Session.run_ended k hpop') rfl rfl ⟨f.stream, f.ending, f.result⟩).run
  | blocked =>
    obtain rfl := YieldStream.pop_stream hpop nofun
    exact f.run

theorem Follows.tryNext (f : Follows k c) :
    Leads k (c.act .tryNext).1.toList (c.act .tryNext).2 := by
  unfold act Coroutine.tryNext
  rcases hpop : c.stream.tryPop with ⟨value, stream⟩
  have hpop' : k.stream.tryPop = (value, stream) := by rw [f.stream, hpop]
  cases value with
  | some v => exact (leads_of_got (Session.run_tryNext k hpop') f).run
  | none =>
    obtain rfl := YieldStream.tryPop_stream hpop
    exact (leads_of_note (Session.run_nothing k hpop') rfl rfl ⟨f.stream, f.ending, f.result⟩).run

theorem Follows.cancel (f : Follows k c) : Leads k [] c.cancel := by
  refine Leads.run ⟨_, _, Session.run_cancel k, ⟨?_, f.ending, f.result⟩, ?_⟩
  · exact congrArg YieldStream.cancel f.stream
  · show consumedIn (k.trace ++ [YieldStream.Event.signalled] ++
      [YieldStream.Event.cancelled 1]) = _
    rw [YieldStream.consumedIn_concat, YieldStream.consumedIn_concat]
    simp [YieldStream.Event.got?]

theorem Follows.release (f : Follows k c) : Leads k [] c.release.2 := by
  unfold Coroutine.release
  split
  · next rest hscript =>
    have hrest : Follows k { c with script := rest } := ⟨f.stream, f.ending, f.result⟩
    exact hrest.run
  · exact f.leads

/-- **Whatever the consumer does**, a session can come to the same. -/
theorem Follows.play (f : Follows k c) (actions : List Action) :
    Leads k (c.play actions).1 (c.play actions).2 := by
  induction actions generalizing k c with
  | nil => exact f.leads
  | cons action rest ih =>
    have hact : Leads k (c.act action).1.toList (c.act action).2 := by
      cases action with
      | next => exact f.next
      | tryNext => exact f.tryNext
      | cancel => exact f.cancel
      | release => exact f.release
    exact hact.trans fun k' f' => ih f'

end Leads

/-- **A scripted coroutine is a session**: whatever its script and whatever its consumer does, moves
lead to its stream and the producer's result, and the values that they consume are those that the
consumer gets. -/
theorem play_follows (capacity : Option Nat) (script : List (ProducerAction α))
    (ending : ProducerResult) (actions : List Action) :
    ∃ moves, let s := (Session.start capacity : Session α).run moves
      let (values, c) := (Coroutine.start capacity script ending).play actions
      s.stream = c.stream ∧ s.result = c.outcome ∧ consumedIn s.trace = values := by
  let k : Account α := { stream := .ofCapacity capacity }
  let c : Coroutine α := { stream := .ofCapacity capacity, script, ending }
  have hfollows : Follows k c := ⟨rfl, rfl, rfl⟩
  obtain ⟨moves, k', hrun, f, hconsumed⟩ := hfollows.run.trans fun k' f' => f'.play actions
  have hstart : (Session.start capacity : Session α) = Session.quiet k := rfl
  refine ⟨moves, ?_⟩
  rw [hstart, hrun]
  exact ⟨f.stream, f.result, hconsumed⟩

end Coroutine

end ManagedHost
