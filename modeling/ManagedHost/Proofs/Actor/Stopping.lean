import ManagedHost.Proofs.Actor.Handling

/-!
# Which stops count

A stop closes the mailbox of an actor that is running, and does nothing to one that is not.  So the
phase of an actor can be read off its moves: it is started once there was a start, its mailbox is
closed once there was a stop *after* a start (`StoppedIn`), and it is running in between
(`Session.run_phase`).  From there on every message is refused, and a start changes nothing.  A stop
that comes before the first start is lost: the start that follows finds the mailbox open.
-/

namespace ManagedHost

/-! ### The mailbox stays open or closed -/

namespace Channel

variable {α : Type} (c : Channel α)

theorem closed_takeFrom (waiters : List Nat) : (c.takeFrom waiters).2.closed = c.closed := by
  induction waiters with
  | nil => rfl
  | cons w rest ih =>
    unfold takeFrom
    split
    · rfl
    · exact ih

theorem closed_dequeue : c.dequeue.2.closed = c.closed := by
  unfold dequeue
  split
  · next value rest _ =>
    have htake := closed_takeFrom { c with buffer := rest } c.senders
    split <;> next heq => rw [takeParked] at heq; simpa [heq] using htake
  · exact closed_takeFrom c c.senders

theorem closed_receive : c.receive.2.closed = c.closed := by
  have hdequeue := c.closed_dequeue
  unfold receive
  split
  · next heq => simpa [heq] using hdequeue
  · next heq => split_ifs <;> simpa [heq] using hdequeue

theorem closed_offer {c' : Channel α} {value : α} (h : c.offer value = some c') :
    c'.closed = c.closed := by
  unfold offer at h
  split at h
  · obtain rfl := Option.some.inj h
    rfl
  · split_ifs at h
    obtain rfl := Option.some.inj h
    rfl

theorem closed_send (value : α) : (c.send value).2.closed = c.closed := by
  unfold send
  split_ifs
  · rfl
  · split
    · next hoffer => exact c.closed_offer hoffer
    · rfl

theorem closed_trySend (value : α) : (c.trySend value).2.closed = c.closed := by
  unfold trySend
  split_ifs
  · rfl
  · split
    · next hoffer => exact c.closed_offer hoffer
    · rfl

theorem closed_close : c.close.closed = true := by
  unfold close
  split_ifs with hclosed
  · exact hclosed
  · rfl

end Channel

namespace Actor

variable {μ : Type}

/-! ### One move -/

/-- What the phase of an actor is read off: whether it was started, whether it is running, and
whether its mailbox is closed. -/
structure Phase where
  started : Bool
  running : Bool
  closed : Bool

/-- Where the actor is in its life. -/
def phase (a : Actor μ) : Phase := ⟨a.started, a.running, a.mailbox.closed⟩

/-- The phase after one more move. -/
def Phase.step (p : Phase) : Move μ → Phase
  | .start => if p.started then p else { p with started := true, running := true }
  | .stop => if p.running then { p with running := false, closed := true } else p
  | _ => p

theorem phase_start (a : Actor μ) : a.start.phase = a.phase.step (.start : Move μ) := by
  unfold start phase started
  cases hworker : a.worker <;> simp [hworker, Phase.step]

theorem phase_stop (a : Actor μ) : a.stop.phase = a.phase.step (.stop : Move μ) := by
  unfold stop phase Phase.step
  dsimp only
  split_ifs
  · simp [started, Channel.closed_close]
  · rfl

theorem phase_finishHandling (a : Actor μ) : a.finishHandling.phase = a.phase := by
  unfold finishHandling phase started
  cases hworker : a.worker <;> simp [hworker]

/-- The worker goes on without a change of phase. -/
theorem phase_advance {a a' : Actor μ} {holds : μ → Bool} (h : a.advance? holds = some a') :
    a'.phase = a.phase := by
  unfold advance? at h
  split at h
  · next hworker =>
    have hclosed := a.mailbox.closed_receive
    split at h <;>
      · next hreceive =>
        obtain rfl := Option.some.inj h
        rw [hreceive] at hclosed
        simpa [phase, started, handle, hworker] using hclosed
  · next w hworker =>
    split at h
    · obtain rfl := Option.some.inj h
      simp [phase, started, handle, hworker]
    · obtain rfl := Option.some.inj h
      simp [phase, started, hworker]
    · cases h
  · next message hworker =>
    split_ifs at h
    obtain rfl := Option.some.inj h
    exact phase_finishHandling a
  · cases h

/-! ### Runs -/

/-- There was a stop after a start. -/
def StoppedIn (moves : List (Move μ)) : Prop :=
  ∃ before after, moves = before ++ Move.stop :: after ∧ Move.start ∈ before

theorem not_stoppedIn_nil : ¬ StoppedIn ([] : List (Move μ)) := by
  rintro ⟨before, after, heq, -⟩
  simp at heq

theorem stoppedIn_concat (moves : List (Move μ)) (move : Move μ) :
    StoppedIn (moves ++ [move]) ↔ StoppedIn moves ∨ (move = .stop ∧ .start ∈ moves) := by
  constructor
  · rintro ⟨before, after, heq, hstart⟩
    rcases List.eq_nil_or_concat after with rfl | ⟨rest, last, rfl⟩
    · obtain ⟨rfl, hmove⟩ := List.append_inj' heq rfl
      exact Or.inr ⟨by simpa using hmove, hstart⟩
    · rw [List.concat_eq_append, ← List.cons_append, ← List.append_assoc] at heq
      obtain ⟨rfl, -⟩ := List.append_inj' heq rfl
      exact Or.inl ⟨before, rest, rfl, hstart⟩
  · rintro (⟨before, after, rfl, hstart⟩ | ⟨rfl, hstart⟩)
    · exact ⟨before, after ++ [move], by simp, hstart⟩
    · exact ⟨moves, [], rfl, hstart⟩

theorem StoppedIn.start_mem {moves : List (Move μ)} (h : StoppedIn moves) : .start ∈ moves := by
  obtain ⟨before, after, rfl, hstart⟩ := h
  exact List.mem_append_left _ hstart

theorem StoppedIn.append {moves : List (Move μ)} (h : StoppedIn moves) (more : List (Move μ)) :
    StoppedIn (moves ++ more) := by
  obtain ⟨before, after, rfl, hstart⟩ := h
  exact ⟨before, after ++ more, by simp, hstart⟩

/-- The phase says of an actor what its moves say. -/
structure Phase.Reads (p : Phase) (moves : List (Move μ)) : Prop where
  started : p.started = true ↔ .start ∈ moves
  closed : p.closed = true ↔ StoppedIn moves
  running : p.running = true ↔ .start ∈ moves ∧ ¬ StoppedIn moves

/-- A move that is neither a start nor a stop tells nothing of the phase. -/
theorem Phase.Reads.quiet {p : Phase} {moves : List (Move μ)} (h : p.Reads moves) {move : Move μ}
    (hstart : move ≠ .start) (hstop : move ≠ .stop) : p.Reads (moves ++ [move]) := by
  have hconcat : StoppedIn (moves ++ [move]) ↔ StoppedIn moves := by simp [stoppedIn_concat, hstop]
  constructor <;> simp [hconcat, hstart.symm, h.started, h.closed, h.running]

/-- **One move**: the moves that were made still say what the phase says. -/
theorem Phase.Reads.step {p : Phase} {moves : List (Move μ)} (h : p.Reads moves) (move : Move μ) :
    (p.step move).Reads (moves ++ [move]) := by
  have hstarted := h.started
  have hclosed := h.closed
  have hrunning := h.running
  have hconcat := stoppedIn_concat moves move
  cases move with
  | start =>
    simp only [reduceCtorEq, false_and, or_false] at hconcat
    by_cases hbegun : p.started = true
    · rw [Phase.step, if_pos hbegun]
      constructor <;> simp [hconcat, hstarted.mp hbegun, hstarted, hclosed, hrunning]
    · have hopen : ¬ StoppedIn moves := fun hstopped => hbegun (hstarted.mpr hstopped.start_mem)
      rw [Phase.step, if_neg hbegun]
      constructor <;> simp [hconcat, hclosed, hopen]
  | stop =>
    simp only [true_and] at hconcat
    by_cases hrun : p.running = true
    · obtain ⟨hstart, -⟩ := hrunning.mp hrun
      rw [Phase.step, if_pos hrun]
      constructor <;> simp [hconcat, hstart, hstarted]
    · rw [Phase.step, if_neg hrun]
      have hsame : StoppedIn moves ∨ .start ∈ moves ↔ StoppedIn moves := by
        refine or_iff_left_of_imp fun hstart => ?_
        by_contra hopen
        exact hrun (hrunning.mpr ⟨hstart, hopen⟩)
      constructor <;> simp [hconcat, hsame, hstarted, hclosed, hrunning]
  | send m => exact h.quiet nofun nofun
  | trySend m => exact h.quiet nofun nofun
  | advance held => exact h.quiet nofun nofun
  | release => exact h.quiet nofun nofun

namespace Session

/-- **One move** changes the phase as the phase alone says. -/
theorem phase_step (s : Session μ) (move : Move μ) :
    (s.step move).actor.phase = s.actor.phase.step move := by
  cases move with
  | start => exact phase_start s.actor
  | send m =>
    show Phase.mk _ _ (s.actor.mailbox.send m).2.closed = _
    rw [Channel.closed_send]
    rfl
  | trySend m =>
    show Phase.mk _ _ (s.actor.mailbox.trySend m).2.closed = _
    rw [Channel.closed_trySend]
    rfl
  | stop => exact phase_stop s.actor
  | advance held =>
    show ((s.actor.advance? fun _ => held).getD s.actor).phase = s.actor.phase
    cases hadvance : s.actor.advance? fun _ => held with
    | none => rfl
    | some a => exact phase_advance hadvance
  | release => exact phase_finishHandling s.actor

/-- **A run**: the actor is started once there was a start, its mailbox is closed once there was a
stop after that, and it is running in between. -/
theorem phase_run (id : String) (capacity : Nat) (moves : List (Move μ)) :
    ((begin id capacity : Session μ).run moves).actor.phase.Reads moves := by
  induction moves using List.reverseRecOn with
  | nil =>
    have hnot := not_stoppedIn_nil (μ := μ)
    constructor <;> simp [run, begin, ofMailbox, phase, started, Channel.ofCapacity, hnot]
  | append_singleton moves move ih =>
    rw [run_append]
    show (((begin id capacity : Session μ).run moves).step move).actor.phase.Reads _
    rw [phase_step]
    exact ih.step move

/-- An actor that was started is not started again. -/
theorem step_start_of_started {s : Session μ} (h : s.actor.started = true) : s.step .start = s := by
  show ({ s with actor := s.actor.start } : Session μ) = s
  unfold started at h
  unfold start
  split
  · next hworker => simp [hworker] at h
  · rfl

/-- An actor that is not running is not stopped. -/
theorem step_stop_of_not_running {s : Session μ} (h : s.actor.running = false) :
    s.step .stop = s := by
  show ({ s with actor := s.actor.stop } : Session μ) = s
  simp [stop, h]

/-- **Which stops close the mailbox.**  Whatever moves an actor goes through:

* its mailbox is closed exactly if there was a stop after a start, and it is running exactly if
  there was a start and no stop after one;
* from then on, whatever is done, the mailbox stays closed and the actor is not running, a message
  is refused, or handed back by a sender that does not wait, and a further start or stop changes
  nothing;
* as long as there was no start, a stop does nothing at all, and a start then makes the actor run
  with an open mailbox. -/
theorem closed_iff_stopped (id : String) (capacity : Nat) (moves : List (Move μ)) :
    let s : Session μ := (begin id capacity).run moves
    (s.actor.mailbox.closed = true ↔ StoppedIn moves) ∧
      (s.actor.running = true ↔ .start ∈ moves ∧ ¬ StoppedIn moves) ∧
      (StoppedIn moves → ∀ more, (s.run more).actor.mailbox.closed = true ∧
        (s.run more).actor.running = false ∧
        (∀ m, (s.run more).actor.mailbox.send m = (.refused, (s.run more).actor.mailbox)) ∧
        (∀ m, (s.run more).actor.mailbox.trySend m =
          (.error (.closed m), (s.run more).actor.mailbox)) ∧
        (s.run more).step .start = s.run more ∧ (s.run more).step .stop = s.run more) ∧
      (.start ∉ moves → s.step .stop = s ∧ ((s.step .stop).step .start).actor.running = true ∧
        ((s.step .stop).step .start).actor.mailbox.closed = false) := by
  intro s
  have hphase : s.actor.phase.Reads moves := phase_run id capacity moves
  refine ⟨hphase.closed, hphase.running, fun hstopped more => ?_, fun hnew => ?_⟩
  · have hlater := phase_run id capacity (moves ++ more) (μ := μ)
    rw [run_append] at hlater
    change (s.run more).actor.phase.Reads (moves ++ more) at hlater
    generalize s.run more = u at hlater ⊢
    have hstopped' := hstopped.append more
    have hclosed : u.actor.mailbox.closed = true := hlater.closed.mpr hstopped'
    have hidle : u.actor.running = false :=
      Bool.eq_false_iff.mpr fun hrun => (hlater.running.mp hrun).2 hstopped'
    have hstarted : u.actor.started = true := hlater.started.mpr hstopped'.start_mem
    exact ⟨hclosed, hidle, fun m => if_pos hclosed, fun m => if_pos hclosed,
      step_start_of_started hstarted, step_stop_of_not_running hidle⟩
  · have hidle : s.actor.running = false :=
      Bool.eq_false_iff.mpr fun hrun => hnew (hphase.running.mp hrun).1
    have hsame : s.step .stop = s := step_stop_of_not_running hidle
    have hnext := hphase.step .start
    have hnot : ¬ StoppedIn (moves ++ [Move.start]) := by
      rw [stoppedIn_concat]
      rintro (⟨before, after, rfl, hstart⟩ | ⟨hmove, -⟩)
      · simp [hstart] at hnew
      · cases hmove
    rw [← phase_step] at hnext
    refine ⟨hsame, ?_⟩
    rw [hsame]
    exact ⟨hnext.running.mpr ⟨by simp, hnot⟩,
      Bool.eq_false_iff.mpr fun hclosed => hnot (hnext.closed.mp hclosed)⟩

/-- An actor that was started, stopped and started again, and one that was only stopped. -/
theorem closed_iff_stopped_restart :
    ((begin "a" 4 : Session Nat).run [.start, .trySend 1, .stop, .advance false]).run [.start]
        = (begin "a" 4).run [.start, .trySend 1, .stop, .advance false]
      ∧ ((begin "a" 4 : Session Nat).run [.trySend 1]).step .stop
        = (begin "a" 4).run [.trySend 1] := by
  have hstopped := (closed_iff_stopped (μ := Nat) "a" 4
    [.start, .trySend 1, .stop, .advance false]).2.2.1
    ⟨[.start, .trySend 1], [.advance false], rfl, by simp⟩ []
  have hnew := (closed_iff_stopped (μ := Nat) "a" 4 [.trySend 1]).2.2.2 (by simp)
  exact ⟨hstopped.2.2.2.2.1, hnew.1⟩

/-- An actor that is stopped before it is started takes messages afterwards, and runs once it is
started. -/
theorem early_stop_forgotten :
    ¬ ∀ (moves more : List (Move Nat)),
      let u : Session Nat := (((begin "a" 4).run moves).step .stop).run more
      u.actor.running = false ∧ ∀ m, (u.actor.mailbox.trySend m).1 = .error (.closed m) := by
  intro hall
  have hidle := (hall [] [.trySend 1, .start]).1
  exact absurd hidle (by decide)

end Session

end Actor

end ManagedHost
