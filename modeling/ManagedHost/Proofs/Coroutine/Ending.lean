import ManagedHost.Proofs.Coroutine.Delivery

/-!
# The end of a stream

Whoever reads a stream is told of its end when the producer has ended and all is consumed.  Others
may have kept the handle with which to yield, though, and a yield looks only whether the stream was
cancelled.

* `Session.end_final`: the end is final until a yield succeeds, and for good if a cancel has
  returned.
* `Session.late_yield_resumes`: a yield that succeeds after the end was told makes the stream go on.
-/

namespace ManagedHost

namespace YieldStream

variable {α : Type}

namespace Event

/-- Somebody is told that the stream has ended. -/
def tellsEnd : Event α → Bool
  | ended _ => true
  | polled done => done
  | _ => false

/-- Somebody gets a value, or is told that the stream has not ended. -/
def deniesEnd : Event α → Bool
  | got _ _ => true
  | polled done => !done
  | _ => false

end Event

/-- After these events the stream is at its end. -/
def AtEnd (trace : List (Event α)) : Prop :=
  endingsIn trace ≠ [] ∧ consumedIn trace = yieldedIn trace

variable {bound : Option Nat} {before mid after trace : List (Event α)} {e v : Event α}

theorem Answers.atEnd (h : Answers bound before e) (htells : e.tellsEnd = true) : AtEnd before := by
  cases e with
  | ended c => exact h
  | polled done => exact h.mp htells
  | _ => cases htells

/-- At the end there is no value to be had, and nobody is told that there might be. -/
theorem Answers.deniesEnd_eq_false (h : Answers bound before e) (hend : AtEnd before) :
    e.deniesEnd = false := by
  cases e with
  | got c value =>
    have hle : (consumedIn before ++ [value]).length ≤ (yieldedIn before).length :=
      List.IsPrefix.length_le h
    rw [hend.2, List.length_append, List.length_singleton] at hle
    exact absurd hle (Nat.not_succ_le_self _)
  | polled done =>
    obtain rfl : done = true := h.mpr hend
    rfl
  | _ => rfl

/-- Only a yield leads away from the end. -/
theorem AtEnd.concat (hend : AtEnd before) (h : Answers bound before e)
    (hyielded : e.yielded? = none) : AtEnd (before ++ [e]) := by
  have hgot : e.got? = none := by
    cases e with
    | got => cases h.deniesEnd_eq_false hend
    | _ => rfl
  unfold AtEnd
  rw [endingsIn_concat, consumedIn_concat, yieldedIn_concat, hyielded, hgot]
  exact ⟨List.append_ne_nil_of_left_ne_nil hend.1 _, congrArg (· ++ []) hend.2⟩

theorem AtEnd.append (hend : AtEnd before) (h : Explained bound (before ++ mid))
    (hyielded : ∀ w ∈ mid, w.yielded? = none) : AtEnd (before ++ mid) := by
  induction mid generalizing before with
  | nil =>
    rw [List.append_nil]
    exact hend
  | cons w rest ih =>
    obtain ⟨hw, hrest⟩ := List.forall_mem_cons.mp hyielded
    have hnext := hend.concat (h before w rest rfl) hw
    rw [List.append_cons] at h ⊢
    exact ih hnext h hrest

theorem Explained.left (h : Explained bound (trace ++ after)) : Explained bound trace := by
  rintro before e rest rfl
  exact h before e (rest ++ after) (by simp)

namespace Session

/-- After the end was told, the stream is at its end until a yield succeeds. -/
theorem atEnd_of_told (h : Explained bound (before ++ e :: mid)) (htells : e.tellsEnd = true)
    (hyielded : ∀ w ∈ mid, w.yielded? = none) : AtEnd (before ++ e :: mid) := by
  have hanswers := h before e mid rfl
  refine (hanswers.atEnd htells).append h (List.forall_mem_cons.mpr ⟨?_, hyielded⟩)
  cases e with
  | yielded => cases htells
  | _ => rfl

/-- **The end of a stream is final until a yield succeeds.**  For any bound of the queue and
whatever the parties do in whatever order, once somebody was told that the stream has ended:

* whoever gets a value later, or is told that the stream has not ended, is so after a yield that
  has succeeded meanwhile;
* as long as none has, the stream is done, and readers find no value and see the end;
* none will, if a cancel had returned before. -/
theorem end_final (capacity : Option Nat) (moves : List (Move α)) :
    let s := (start capacity : Session α).run moves
    ∀ (before : List (Event α)) (e : Event α) (mid : List (Event α)),
      s.trace = before ++ e :: mid → e.tellsEnd = true →
      (∀ (early : List (Event α)) (v : Event α) (late : List (Event α)),
        mid = early ++ v :: late → v.deniesEnd = true →
        ∃ w ∈ early, w.yielded? ≠ none) ∧
      ((∀ w ∈ mid, w.yielded? = none) → s.stream.isFinished = true ∧
        s.stream.tryPop = (none, s.stream) ∧ s.stream.pop = (.ended, s.stream)) ∧
      ((∃ c, Event.cancelled c ∈ before) → ∀ w ∈ mid, w.yielded? = none) := by
  intro s before e mid htrace htells
  have r := ((sound_start (α := α) capacity).run moves).recorded
  have h : Explained _ (before ++ e :: mid) := htrace ▸ r.explained
  refine ⟨?_, fun hyielded => ?_, ?_⟩
  · rintro early v late rfl hdenies
    by_contra hnone
    have hyielded : ∀ w ∈ early, w.yielded? = none := by
      intro w hw
      by_contra hsome
      exact hnone ⟨w, hw, hsome⟩
    rw [← List.cons_append, ← List.append_assoc] at h
    have hend := atEnd_of_told h.left htells hyielded
    exact absurd hdenies (Bool.eq_false_iff.mp ((h _ v late rfl).deniesEnd_eq_false hend))
  · have hend := atEnd_of_told h htells hyielded
    rw [← htrace] at hend
    have hvalues := r.consumed_iff.mp hend.2
    have hdone := r.ended_iff.mp hend.1
    refine ⟨r.finished_iff.mpr hend, ?_, ?_⟩
    · unfold tryPop
      rw [hvalues]
    · unfold pop
      rw [hvalues, if_pos hdone]
  · rintro ⟨c, hc⟩ w hw
    obtain ⟨early, late, rfl⟩ := List.append_of_mem hw
    have hanswers := h (before ++ e :: early) w late (by simp)
    cases w with
    | yielded caller value => exact absurd (List.mem_append_left _ hc) (hanswers.1 c)
    | _ => rfl

/-- **A yield that comes after the end makes the stream go on**: the producer has ended and the
stream is done, then a caller yields, and the next one gets a value. -/
theorem late_yield_resumes :
    ¬ ∀ (capacity : Option Nat) (moves : List (Move Nat)) (before : List (Event Nat))
        (e : Event Nat) (mid : List (Event Nat)),
      ((start capacity).run moves).trace = before ++ e :: mid → e.tellsEnd = true →
      ∀ v ∈ mid, v.deniesEnd = false := by
  intro hall
  have hdenied := hall none [.finish (.returned (.ok ())), .poll, .begin 1 (.yield 7), .enter 1,
    .commit, .tryNext 0] [.finished (.returned (.ok ()))] (.polled true)
    [.yielded 1 7, .got 0 7] rfl rfl (.got 0 7) (by simp)
  cases hdenied

end Session

end YieldStream

end ManagedHost
