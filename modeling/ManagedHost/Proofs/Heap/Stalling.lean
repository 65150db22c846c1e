import ManagedHost.Proofs.Heap.Averaging
import Mathlib.Logic.Function.Iterate

/-!
# Where the threshold stalls

Both adjustments of the threshold are rounded down.  A tenth more of a threshold below
`smallestRaised` rounds down to the threshold itself, so slow pauses raise a threshold exactly from
`smallestRaised` on (`Recorded.raised_iff`), and a smaller one never rises again, whatever is
recorded (`run_of_small`).  A twentieth less, rounded down, lowers every threshold but zero, so fast
pauses take any threshold below `smallestRaised`, and to zero in the end (`Calm.run`).
-/

namespace ManagedHost

/-- Which of two durations is longer can be read off the nanoseconds. -/
theorem Duration.longer_iff {a b : Duration} (ha : a.IsNormal) (hb : b.IsNormal) :
    a.longer b = true ↔ b.toNanos < a.toNanos := by
  have hnanosA := ha.nanos_lt
  have hnanosB := hb.nanos_lt
  simp only [longer, toNanos, nanosPerSec, Bool.or_eq_true, Bool.and_eq_true, decide_eq_true_eq,
    beq_iff_eq] at *
  constructor
  · rintro (hsecs | ⟨hsecs, hnanos⟩) <;> omega
  · intro hlonger
    by_cases hsecs : b.secs < a.secs
    · exact Or.inl hsecs
    · refine Or.inr ⟨?_, ?_⟩ <;> omega

namespace Pacer

/-! ### Rounding -/

/-- The smallest threshold that a slow pause raises. -/
def smallestRaised : Nat := 10

/-- A threshold after a slow pause. -/
def raise (threshold : Nat) : Nat := threshold * 110 / 100

/-- A threshold after a fast pause. -/
def lower (threshold : Nat) : Nat := threshold * 95 / 100

theorem lt_raise_iff (threshold : Nat) :
    threshold < raise threshold ↔ smallestRaised ≤ threshold := by
  unfold raise smallestRaised
  omega

theorem raise_of_small {threshold : Nat} (h : threshold < smallestRaised) :
    raise threshold = threshold := by
  unfold raise
  unfold smallestRaised at h
  omega

theorem lower_le (threshold : Nat) : lower threshold ≤ threshold := by
  unfold lower
  omega

/-- Each fast pause takes at least one from a threshold, so as many of them as the threshold says
leave nothing of it. -/
theorem iterate_lower_eq_zero {threshold n : Nat} (h : threshold ≤ n) :
    lower^[n] threshold = 0 := by
  induction n generalizing threshold with
  | zero => exact Nat.le_zero.mp h
  | succ n ih =>
    rw [Function.iterate_succ_apply]
    apply ih
    unfold lower
    omega

/-! ### One pause -/

section Recording

variable {p p' : Pacer} {pause : Duration} {answer : Except Fault (Option Nat)}

/-- A pause that leaves the average above the target is answered with the raised threshold. -/
theorem Recorded.raised {threshold : Nat} (h : Recorded p pause (.ok (some threshold)) p')
    (hslow : p'.average.longer p.target = true) : threshold = raise p.threshold := by
  cases h with
  | @adjusted average _ _ _ _ _ rounded =>
    have hpercent : (p.averaged pause average).percent = 110 := if_pos hslow
    rw [rounded, hpercent, raise]

/-- **A slow pause raises the threshold** exactly from `smallestRaised` on, and returns it unchanged
below. -/
theorem Recorded.raised_iff {threshold : Nat} (h : Recorded p pause (.ok (some threshold)) p')
    (hslow : p'.average.longer p.target = true) :
    (p.threshold < threshold ↔ smallestRaised ≤ p.threshold)
      ∧ (p.threshold < smallestRaised → threshold = p.threshold) := by
  rw [h.raised hslow]
  exact ⟨lt_raise_iff p.threshold, raise_of_small⟩

/-- No pause raises a small threshold. -/
theorem Recorded.threshold_of_small (h : Recorded p pause answer p')
    (hsmall : p.threshold < smallestRaised) :
    p'.threshold ≤ p.threshold ∧ ∀ threshold, answer = .ok (some threshold) →
      threshold ≤ p.threshold := by
  cases h with
  | off => exact ⟨le_rfl, by simp⟩
  | averageLost => exact ⟨le_rfl, by simp⟩
  | thresholdLost => exact ⟨le_rfl, by simp⟩
  | @adjusted average threshold _ _ _ _ rounded =>
    have hle : threshold ≤ p.threshold := by
      have hkept := raise_of_small hsmall
      have hlowered := lower_le p.threshold
      unfold raise at hkept
      unfold lower at hlowered
      change threshold = p.threshold * (p.averaged pause average).percent / 100 at rounded
      rw [rounded, percent]
      split_ifs <;> omega
    refine ⟨hle, fun threshold' heq => ?_⟩
    simp only [Except.ok.injEq, Option.some.injEq] at heq
    exact heq ▸ hle

end Recording

/-! ### Small thresholds -/

theorem perform_of_small {p : Pacer} {call : Call}
    (hcall : ∀ pause, call = .record pause → pause.IsNormal)
    (hsmall : p.threshold < smallestRaised) :
    (p.perform call).2.threshold ≤ p.threshold
      ∧ ∀ threshold, (p.perform call).1 = .ok (some threshold) → threshold ≤ p.threshold := by
  cases call with
  | record pause => exact (p.recorded (hcall pause rfl)).threshold_of_small hsmall
  | enable => exact ⟨le_rfl, by simp [perform]⟩
  | disable => exact ⟨le_rfl, by simp [perform]⟩
  | setTarget target => exact ⟨le_rfl, by simp [perform]⟩

/-- **A small threshold never rises again**, whatever is called. -/
theorem run_of_small {p : Pacer} {calls : List Call}
    (hcalls : ∀ pause, .record pause ∈ calls → pause.IsNormal)
    (hsmall : p.threshold < smallestRaised) :
    (p.run calls).threshold ≤ p.threshold
      ∧ ∀ threshold, .ok (some threshold) ∈ p.answers calls → threshold ≤ p.threshold := by
  induction calls generalizing p with
  | nil => exact ⟨le_rfl, by simp [answers]⟩
  | cons call rest ih =>
    have hcall : ∀ pause, call = .record pause → pause.IsNormal :=
      fun pause heq => hcalls pause (by simp [heq])
    obtain ⟨hstep, hanswer⟩ := perform_of_small hcall hsmall
    obtain ⟨hlast, hanswers⟩ := ih (p := (p.perform call).2)
      (fun pause hmem => hcalls pause (List.mem_cons_of_mem _ hmem)) (by omega)
    refine ⟨hlast.trans hstep, fun threshold hmem => ?_⟩
    rcases List.mem_cons.mp hmem with hfirst | hlater
    · exact hanswer threshold hfirst.symm
    · exact (hanswers threshold hlater).trans hstep

/-! ### Fast pauses -/

/-- The pacer is on, its average is not above the target, and neither the average nor the threshold
is near the end of its range. -/
structure Calm (p : Pacer) : Prop where
  enabled : p.enabled = true
  normal : p.target.IsNormal
  average_le : p.average.toNanos ≤ p.target.toNanos
  short : 10 * p.target.toNanos < Duration.span
  fits : p.threshold * 95 < Size.limit

/-- A pause that is not above the target lowers the threshold and leaves the pacer calm. -/
theorem Calm.record {p : Pacer} (h : p.Calm) {pause : Duration} (hpause : pause.IsNormal)
    (hle : pause.toNanos ≤ p.target.toNanos) :
    (p.record pause).1 = .ok (some (lower p.threshold))
      ∧ (p.record pause).2.threshold = lower p.threshold
      ∧ (p.record pause).2.target = p.target ∧ (p.record pause).2.Calm := by
  have hrecorded := p.recorded hpause
  have haverage := hrecorded.average_between.2
  have hweighed : p.weighed pause < Duration.span := by
    have haverageLe := h.average_le
    have hshort := h.short
    unfold weighed
    omega
  have hnormal : Duration.IsNormal (.ofNanos (p.weighed pause / 10)) :=
    Duration.isNormal_ofNanos ((Nat.div_le_self _ _).trans_lt hweighed)
  -- the new average lies between the old one and the pause, so it is not above the target either
  have hfast {average : Duration} (value : average = .ofNanos (p.weighed pause / 10))
      (hbetween : average.toNanos ≤ max p.average.toNanos pause.toNanos) :
      (p.averaged pause average).percent = 95 := by
    rw [percent, if_neg]
    show ¬ average.longer p.target = true
    rw [Duration.longer_iff (value ▸ hnormal) h.normal]
    have haverageLe := h.average_le
    omega
  generalize (p.record pause).1 = answer at hrecorded ⊢
  generalize (p.record pause).2 = p' at hrecorded haverage ⊢
  cases hrecorded with
  | off disabled => simp [h.enabled] at disabled
  | averageLost _ long => omega
  | @thresholdLost average _ _ value large =>
    rw [hfast value haverage] at large
    exact absurd h.fits (Nat.not_lt_of_le large)
  | @adjusted average threshold enabled _ value _ rounded =>
    rw [hfast value haverage] at rounded
    obtain rfl : threshold = lower p.threshold := rounded
    refine ⟨rfl, rfl, rfl, enabled, h.normal, ?_, h.short, ?_⟩
    · exact haverage.trans (Nat.max_le.mpr ⟨h.average_le, hle⟩)
    · exact (Nat.mul_le_mul_right 95 (lower_le p.threshold)).trans_lt h.fits

/-- **Fast pauses lower the threshold one after the other**, without a fault. -/
theorem Calm.run {p : Pacer} (h : p.Calm) {pauses : List Duration}
    (hpauses : ∀ pause ∈ pauses, pause.IsNormal ∧ pause.toNanos ≤ p.target.toNanos) :
    (p.run (pauses.map .record)).threshold = lower^[pauses.length] p.threshold
      ∧ ∀ answer ∈ p.answers (pauses.map .record), ∃ threshold, answer = .ok (some threshold) := by
  induction pauses generalizing p with
  | nil => exact ⟨rfl, by simp [answers]⟩
  | cons pause rest ih =>
    obtain ⟨⟨hpause, hle⟩, hrest⟩ := List.forall_mem_cons.mp hpauses
    obtain ⟨hanswer, hthreshold, htarget, hcalm⟩ := h.record hpause hle
    obtain ⟨hlast, hanswers⟩ := ih hcalm (htarget ▸ hrest)
    constructor
    · rw [List.length_cons, Function.iterate_succ_apply, ← hthreshold]
      exact hlast
    · exact List.forall_mem_cons.mpr ⟨⟨_, hanswer⟩, hanswers⟩

/-- **How far slow pauses can raise the threshold.**  In every state a pause that leaves the average
above the target raises the threshold exactly if the threshold is `smallestRaised` or more; from a
smaller one no calls at all bring a larger one back.  And fast pauses lead there: from a calm state
each of them lowers the threshold, and as many of them as the threshold says leave zero. -/
theorem raised_unless_small (p : Pacer) :
    (∀ (pause : Duration) (threshold : Nat), pause.IsNormal →
      (p.record pause).1 = .ok (some threshold) →
      (p.record pause).2.average.longer p.target = true →
      (p.threshold < threshold ↔ smallestRaised ≤ p.threshold)
        ∧ (p.threshold < smallestRaised → threshold = p.threshold))
    ∧ (p.threshold < smallestRaised → ∀ calls : List Call,
      (∀ pause, .record pause ∈ calls → pause.IsNormal) →
      (p.run calls).threshold ≤ p.threshold
        ∧ ∀ threshold, .ok (some threshold) ∈ p.answers calls → threshold ≤ p.threshold)
    ∧ (p.Calm → ∀ pauses : List Duration,
      (∀ pause ∈ pauses, pause.IsNormal ∧ pause.toNanos ≤ p.target.toNanos) →
      (p.run (pauses.map .record)).threshold = lower^[pauses.length] p.threshold
        ∧ (p.threshold ≤ pauses.length → (p.run (pauses.map .record)).threshold = 0)
        ∧ ∀ answer ∈ p.answers (pauses.map .record),
          ∃ threshold, answer = .ok (some threshold)) := by
  refine ⟨fun pause threshold hpause hanswer hslow => ?_, fun hsmall calls hcalls => ?_,
    fun hcalm pauses hpauses => ?_⟩
  · have hrecorded := p.recorded hpause
    rw [hanswer] at hrecorded
    exact hrecorded.raised_iff hslow
  · exact run_of_small hcalls hsmall
  · obtain ⟨hlast, hanswers⟩ := hcalm.run hpauses
    refine ⟨hlast, fun hlong => ?_, hanswers⟩
    rw [hlast]
    exact iterate_lower_eq_zero hlong

/-- The way down from the default threshold. -/
def descent : List Duration := List.replicate 259 ⟨0, 1000⟩

theorem calm_default : Calm {} :=
  ⟨rfl, ⟨by decide, by decide⟩, by decide, by decide, by decide⟩

theorem descent_fast : ∀ pause ∈ descent, pause.IsNormal
    ∧ pause.toNanos ≤ (Duration.ofMillis 10).toNanos := by
  intro pause hmem
  obtain rfl := List.eq_of_mem_replicate hmem
  exact ⟨⟨by decide, by decide⟩, by decide⟩

/-- A slow pause at the smallest threshold that it raises, pauses at the threshold below, and the
way down from the default. -/
theorem raised_unless_small_descent :
    (10 < 11 ↔ smallestRaised ≤ 10)
    ∧ (({ threshold := 9 } : Pacer).run [.record ⟨0, 5⟩, .record ⟨100, 0⟩]).threshold ≤ 9
    ∧ (({} : Pacer).run (descent.map .record)).threshold
      = lower^[descent.length] defaultThreshold := by
  have hslow := (raised_unless_small { threshold := 10 }).1 ⟨100, 0⟩ 11 ⟨by decide, by decide⟩
    (by decide +kernel) (by decide +kernel)
  have hsmall := (raised_unless_small { threshold := 9 }).2.1 (by decide)
    [.record ⟨0, 5⟩, .record ⟨100, 0⟩] (by
      simp only [List.mem_cons, Call.record.injEq, List.not_mem_nil, or_false]
      rintro pause (rfl | rfl) <;> exact ⟨by decide, by decide⟩)
  have hfast := (raised_unless_small {}).2.2 calm_default descent descent_fast
  exact ⟨hslow.1, hsmall.1, hfast.1⟩

/-- From the default threshold, 259 pauses of a microsecond leave a threshold of nine, and a pause
of a hundred seconds, with the average far above the target then, returns nine again. -/
theorem descended_stalls :
    ¬ ∀ (target : Duration) (threshold : Nat) (calls : List Call), target.IsNormal → 0 < threshold →
      (∀ pause, .record pause ∈ calls → pause.IsNormal) →
      (∀ answer ∈ ({ target, threshold } : Pacer).answers calls, ∃ t, answer = .ok t) →
      ∀ (pause : Duration) (t : Nat), pause.IsNormal →
        ((({ target, threshold } : Pacer).run calls).record pause).1 = .ok (some t) →
        ((({ target, threshold } : Pacer).run calls).record pause).2.average.longer
          (({ target, threshold } : Pacer).run calls).target = true →
        (({ target, threshold } : Pacer).run calls).threshold < t := by
  intro hall
  obtain ⟨-, hanswers⟩ := calm_default.run descent_fast
  have hraised := hall (.ofMillis 10) defaultThreshold (descent.map .record)
    ⟨by decide, by decide⟩ (by decide)
    (fun pause hmem => by
      obtain ⟨pause', hmem', heq⟩ := List.mem_map.mp hmem
      obtain rfl := Call.record.inj heq
      exact (descent_fast pause' hmem').1)
    (fun answer hmem => (hanswers answer hmem).imp' some fun _ heq => heq)
    ⟨100, 0⟩ 9 ⟨by decide, by decide⟩ (by decide +kernel) (by decide +kernel)
  exact absurd hraised (by decide +kernel)

end Pacer

end ManagedHost
