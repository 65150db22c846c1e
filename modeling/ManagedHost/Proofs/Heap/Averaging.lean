import ManagedHost.Heap.Pacing
import Mathlib.Algebra.Order.Ring.Nat
import Mathlib.Tactic.SplitIfs

/-!
# The moving average of pauses

Durations are added, multiplied and divided limb by limb, with carries between seconds and
nanoseconds.  Read in nanoseconds (`Duration.toNanos`) each operation is the one on natural numbers,
and it fails exactly where the result reaches `Duration.span` (`scale_eq`, `add_eq`, `divide_eq`).
So the next average of a pacer is a tenth of nine old averages and the pause, rounded down once
(`Pacer.nextAverage_eq`).

* `Pacer.Recorded`: everything that recording a pause can do, one constructor for each outcome.
* `Pacer.average_exact`: the average after one pause, and its bound over all sequences of pauses.
-/

namespace ManagedHost

namespace Duration

/-- The number of nanoseconds from which on a length cannot be represented. -/
def span : Nat := secsLimit * nanosPerSec

/-- The nanoseconds are less than a second, and the seconds fit in a machine word. -/
structure IsNormal (d : Duration) : Prop where
  secs_lt : d.secs < secsLimit
  nanos_lt : d.nanos < nanosPerSec

/-- The duration of `n` nanoseconds. -/
def ofNanos (n : Nat) : Duration := ⟨n / nanosPerSec, n % nanosPerSec⟩

@[simp]
theorem toNanos_ofNanos (n : Nat) : (ofNanos n).toNanos = n := Nat.div_add_mod' n nanosPerSec

theorem isNormal_ofNanos {n : Nat} (h : n < span) : (ofNanos n).IsNormal where
  secs_lt := Nat.div_lt_of_lt_mul (by rwa [Nat.mul_comm])
  nanos_lt := Nat.mod_lt n (by decide)

/-! ### Arithmetic -/

/-- A multiple is the multiple of the nanoseconds. -/
theorem scale_eq (d : Duration) (factor : Nat) :
    d.scale factor = if d.toNanos * factor < span then .ok (ofNanos (d.toNanos * factor))
      else .error .durationScale := by
  have hpos : 0 < nanosPerSec := by decide
  have htotal : d.toNanos * factor = d.nanos * factor + d.secs * factor * nanosPerSec := by
    rw [toNanos, Nat.add_mul, Nat.mul_right_comm, Nat.add_comm]
  have hsecs : d.toNanos * factor / nanosPerSec
      = d.secs * factor + d.nanos * factor / nanosPerSec := by
    rw [htotal, Nat.add_mul_div_right _ _ hpos, Nat.add_comm]
  have hnanos : d.toNanos * factor % nanosPerSec = d.nanos * factor % nanosPerSec := by
    rw [htotal, Nat.add_mul_mod_self_right]
  have hspan : d.toNanos * factor < span
      ↔ d.secs * factor + d.nanos * factor / nanosPerSec < secsLimit := by
    rw [← hsecs, Nat.div_lt_iff_lt_mul hpos, span]
  simp only [scale, hspan, ofNanos, hsecs, hnanos]
  generalize d.nanos * factor / nanosPerSec = carried
  split_ifs <;> first | rfl | omega

/-- A sum is the sum of the nanoseconds. -/
theorem add_eq {a b : Duration} (ha : a.IsNormal) (hb : b.IsNormal) :
    a.add b = if a.toNanos + b.toNanos < span then .ok (ofNanos (a.toNanos + b.toNanos))
      else .error .durationSum := by
  have hlimbs : a.toNanos + b.toNanos = a.nanos + b.nanos + (a.secs + b.secs) * nanosPerSec := by
    simp only [toNanos, Nat.add_mul]
    omega
  have hnanos : a.nanos + b.nanos < nanosPerSec + nanosPerSec :=
    Nat.add_lt_add ha.nanos_lt hb.nanos_lt
  have hpos : 0 < nanosPerSec := by decide
  have hspan : a.toNanos + b.toNanos < span
      ↔ (a.nanos + b.nanos) / nanosPerSec + (a.secs + b.secs) < secsLimit := by
    rw [hlimbs, span, ← Nat.div_lt_iff_lt_mul hpos, Nat.add_mul_div_right _ _ hpos]
  simp only [add, hspan, ofNanos]
  rw [hlimbs, Nat.add_mul_div_right _ _ hpos, Nat.add_mul_mod_self_right]
  generalize a.secs + b.secs = secs
  generalize a.nanos + b.nanos = nanos at hnanos ⊢
  by_cases hcarry : nanos < nanosPerSec
  · rw [Nat.div_eq_of_lt hcarry, Nat.mod_eq_of_lt hcarry, Nat.zero_add]
    split_ifs <;> first | rfl | omega
  · have hle : nanosPerSec ≤ nanos := Nat.le_of_not_lt hcarry
    have hrest : nanos - nanosPerSec < nanosPerSec := by omega
    rw [Nat.div_eq_sub_div hpos hle, Nat.mod_eq_sub_mod hle, Nat.div_eq_of_lt hrest,
      Nat.mod_eq_of_lt hrest, Nat.zero_add, Nat.add_comm 1]
    split_ifs <;> first | rfl | omega

/-- A quotient is the quotient of the nanoseconds, rounded down once. -/
theorem divide_eq {d : Duration} (hd : d.IsNormal) {divisor : Nat} (hpos : 0 < divisor) :
    d.divide divisor = ofNanos (d.toNanos / divisor) := by
  have hrest : d.secs % divisor < divisor := Nat.mod_lt _ hpos
  have hnanos := hd.nanos_lt
  -- what the whole seconds leave over goes to the nanoseconds
  have hsmall : (d.secs % divisor * nanosPerSec + d.nanos) / divisor < nanosPerSec := by
    rw [Nat.div_lt_iff_lt_mul hpos]
    have hle : (d.secs % divisor + 1) * nanosPerSec ≤ divisor * nanosPerSec :=
      Nat.mul_le_mul_right _ hrest
    rw [Nat.add_mul, Nat.one_mul] at hle
    rw [Nat.mul_comm nanosPerSec]
    omega
  have hcarried : d.nanos / divisor + (d.secs % divisor * nanosPerSec + d.nanos % divisor) / divisor
      = (d.secs % divisor * nanosPerSec + d.nanos) / divisor := by
    conv_rhs => rw [← Nat.div_add_mod d.nanos divisor, Nat.add_left_comm,
      Nat.add_comm (divisor * _), Nat.add_mul_div_left _ _ hpos, Nat.add_comm]
  have hquotient : d.toNanos / divisor
      = (d.secs % divisor * nanosPerSec + d.nanos) / divisor + d.secs / divisor * nanosPerSec := by
    have htotal : d.toNanos = d.secs % divisor * nanosPerSec + d.nanos
        + divisor * (d.secs / divisor * nanosPerSec) := by
      conv_lhs => rw [toNanos, ← Nat.div_add_mod d.secs divisor, Nat.add_mul, Nat.mul_assoc]
      omega
    rw [htotal, Nat.add_mul_div_left _ _ hpos]
  rw [divide, hcarried, hquotient, ofNanos,
    Nat.add_mul_div_right _ _ (by decide), Nat.add_mul_mod_self_right, Nat.div_eq_of_lt hsmall,
    Nat.mod_eq_of_lt hsmall, Nat.zero_add]

end Duration

namespace Pacer

open Duration (span)

/-! ### One pause -/

/-- The next average is a tenth of nine old averages and the pause. -/
theorem nextAverage_eq (average : Duration) {pause : Duration} (hp : pause.IsNormal) :
    nextAverage average pause =
      if 9 * average.toNanos + pause.toNanos < span
      then .ok (.ofNanos ((9 * average.toNanos + pause.toNanos) / 10))
      else .error (if 9 * average.toNanos < span then .durationSum else .durationScale) := by
  rw [nextAverage, Duration.scale_eq, Nat.mul_comm _ 9]
  by_cases hscale : 9 * average.toNanos < span
  · have hadd := Duration.add_eq (Duration.isNormal_ofNanos hscale) hp
    rw [Duration.toNanos_ofNanos] at hadd
    rw [if_pos hscale, if_pos hscale]
    refine (pure_bind (Duration.ofNanos (9 * average.toNanos)) _).trans ?_
    rw [hadd]
    by_cases hsum : 9 * average.toNanos + pause.toNanos < span
    · have hdivide := Duration.divide_eq (Duration.isNormal_ofNanos hsum) (Nat.succ_pos 9)
      rw [Duration.toNanos_ofNanos] at hdivide
      rw [if_pos hsum, if_pos hsum]
      refine (pure_bind (Duration.ofNanos (9 * average.toNanos + pause.toNanos)) _).trans ?_
      rw [hdivide]
      rfl
    · rw [if_neg hsum, if_neg hsum]
      rfl
  · rw [if_neg hscale, if_neg hscale, if_neg (by omega)]
    rfl

/-- The answer says that the average could not be computed. -/
def LosesAverage (answer : Except Fault (Option Nat)) : Prop :=
  answer = .error .durationSum ∨ answer = .error .durationScale

/-- The pacer once it has seen a pause, before it computes anything. -/
def noted (p : Pacer) (pause : Duration) : Pacer :=
  { p with collections := p.collections + 1, last := pause }

/-- The nanoseconds of nine averages and the pause. -/
def weighed (p : Pacer) (pause : Duration) : Nat := 9 * p.average.toNanos + pause.toNanos

/-- The pacer once it has computed the average. -/
def averaged (p : Pacer) (pause average : Duration) : Pacer := { p.noted pause with average }

/-- By how many percent the threshold goes on when the average has been computed. -/
def percent (p : Pacer) : Nat := if p.average.longer p.target then 110 else 95

/-- **Recording a pause**: what it can answer, and the pacer afterwards. -/
inductive Recorded (p : Pacer) (pause : Duration) : Except Fault (Option Nat) → Pacer → Prop where
  | off (disabled : p.enabled = false) : Recorded p pause (.ok none) p
  | averageLost {fault : Fault} (enabled : p.enabled = true) (long : span ≤ p.weighed pause)
      (lost : LosesAverage (.error fault)) : Recorded p pause (.error fault) (p.noted pause)
  | thresholdLost {average : Duration} (enabled : p.enabled = true) (short : p.weighed pause < span)
      (value : average = .ofNanos (p.weighed pause / 10))
      (large : Size.limit ≤ p.threshold * (p.averaged pause average).percent) :
      Recorded p pause (.error .multiplyOverflow) (p.averaged pause average)
  | adjusted {average : Duration} {threshold : Nat} (enabled : p.enabled = true)
      (short : p.weighed pause < span) (value : average = .ofNanos (p.weighed pause / 10))
      (fits : p.threshold * (p.averaged pause average).percent < Size.limit)
      (rounded : threshold = p.threshold * (p.averaged pause average).percent / 100) :
      Recorded p pause (.ok (some threshold)) { p.averaged pause average with threshold }

section Recording

variable {p : Pacer} {pause : Duration}

/-- A pacer that is on goes on with the next average. -/
theorem record_of_enabled (henabled : p.enabled = true) :
    p.record pause = match nextAverage p.average pause with
      | .error fault => (.error fault, p.noted pause)
      | .ok average =>
        match adjust p.threshold (p.averaged pause average).percent with
        | .error fault => (.error fault, p.averaged pause average)
        | .ok threshold => (.ok (some threshold), { p.averaged pause average with threshold }) :=
  if_neg (by rw [henabled]; decide)

theorem recorded (p : Pacer) (hpause : pause.IsNormal) :
    Recorded p pause (p.record pause).1 (p.record pause).2 := by
  have hnext : nextAverage p.average pause = if p.weighed pause < span
      then .ok (.ofNanos (p.weighed pause / 10))
      else .error (if 9 * p.average.toNanos < span then .durationSum else .durationScale) :=
    nextAverage_eq p.average hpause
  cases henabled : p.enabled with
  | false =>
    have hrecord : p.record pause = (.ok none, p) := if_pos (by rw [henabled]; decide)
    rw [hrecord]
    exact .off henabled
  | true =>
    rw [record_of_enabled henabled]
    by_cases hspan : p.weighed pause < span
    · -- the average stays a variable: its digits take part in no computation
      obtain ⟨average, value⟩ : ∃ average, average = Duration.ofNanos (p.weighed pause / 10) :=
        ⟨_, rfl⟩
      rw [if_pos hspan, ← value] at hnext
      rw [hnext]
      by_cases hfits : p.threshold * (p.averaged pause average).percent < Size.limit
      · have hadjust : adjust p.threshold (p.averaged pause average).percent
            = .ok (p.threshold * (p.averaged pause average).percent / 100) := if_pos hfits
        simp only [hadjust]
        exact .adjusted henabled hspan value hfits rfl
      · have hadjust : adjust p.threshold (p.averaged pause average).percent
            = .error .multiplyOverflow := if_neg hfits
        simp only [hadjust]
        exact .thresholdLost henabled hspan value (Nat.le_of_not_lt hfits)
    · rw [if_neg hspan] at hnext
      rw [hnext]
      refine .averageLost henabled (Nat.le_of_not_lt hspan) ?_
      split_ifs
      · exact .inl rfl
      · exact .inr rfl

/-- The average is lost exactly where the weighed sum cannot be represented. -/
theorem Recorded.losesAverage_iff {answer : Except Fault (Option Nat)} {p' : Pacer}
    (h : Recorded p pause answer p') (henabled : p.enabled = true) :
    LosesAverage answer ↔ span ≤ p.weighed pause := by
  cases h with
  | off disabled => exact absurd disabled (by rw [henabled]; decide)
  | averageLost _ long lost => exact iff_of_true lost long
  | thresholdLost _ short =>
    exact iff_of_false (by rintro (h | h) <;> cases h) (Nat.not_le_of_lt short)
  | adjusted _ short => exact iff_of_false (by rintro (h | h) <;> cases h) (Nat.not_le_of_lt short)

/-- The average goes on, also where the threshold is lost then, or stays as it was. -/
theorem Recorded.average_cases {answer : Except Fault (Option Nat)} {p' : Pacer}
    (h : Recorded p pause answer p') :
    p'.average = p.average ∨
      (p.weighed pause < span ∧ p'.average = .ofNanos (p.weighed pause / 10)) := by
  cases h with
  | off => exact .inl rfl
  | averageLost => exact .inl rfl
  | thresholdLost _ short value => exact .inr ⟨short, value⟩
  | adjusted _ short value => exact .inr ⟨short, value⟩

/-- Where the weighed sum can be represented, a pacer that is on has the new average. -/
theorem Recorded.average_eq {answer : Except Fault (Option Nat)} {p' : Pacer}
    (h : Recorded p pause answer p') (henabled : p.enabled = true)
    (hshort : p.weighed pause < span) :
    p'.average = .ofNanos (p.weighed pause / 10) := by
  cases h with
  | off disabled => exact absurd disabled (by rw [henabled]; decide)
  | averageLost _ long => exact absurd hshort (Nat.not_lt_of_le long)
  | thresholdLost _ _ value => exact value
  | adjusted _ _ value => exact value

/-- The new average lies between the old one and the pause. -/
theorem Recorded.average_between {answer : Except Fault (Option Nat)} {p' : Pacer}
    (h : Recorded p pause answer p') :
    min p.average.toNanos pause.toNanos ≤ p'.average.toNanos
      ∧ p'.average.toNanos ≤ max p.average.toNanos pause.toNanos := by
  obtain heq | ⟨-, heq⟩ := h.average_cases
  · rw [heq]
    omega
  · rw [heq, Duration.toNanos_ofNanos, weighed]
    omega

end Recording

/-! ### Sequences -/

/-- What can be asked of a pacer. -/
inductive Call where
  | record (pause : Duration)
  | enable
  | disable
  | setTarget (target : Duration)

/-- The answer of a call, and the pacer afterwards. -/
def perform (p : Pacer) : Call → Except Fault (Option Nat) × Pacer
  | .record pause => p.record pause
  | .enable => (.ok none, { p with enabled := true })
  | .disable => (.ok none, { p with enabled := false })
  | .setTarget target => (.ok none, { p with target })

/-- The pacer after calls, one after the other. -/
def run : Pacer → List Call → Pacer
  | p, [] => p
  | p, call :: rest => (p.perform call).2.run rest

/-- The answers of calls, one after the other. -/
def answers : Pacer → List Call → List (Except Fault (Option Nat))
  | _, [] => []
  | p, call :: rest => (p.perform call).1 :: (p.perform call).2.answers rest

/-- The call records no pause of more than `bound` nanoseconds. -/
def Call.IsWithin (bound : Nat) : Call → Prop
  | .record pause => pause.IsNormal ∧ pause.toNanos ≤ bound
  | _ => True

/-- **One call keeps the bound** on the average, and cannot lose the average. -/
theorem perform_within {p : Pacer} {call : Call} {bound : Nat} (hbound : 10 * bound < span)
    (haverage : p.average.toNanos ≤ bound) (hcall : call.IsWithin bound) :
    (p.perform call).2.average.toNanos ≤ bound ∧ ¬ LosesAverage (p.perform call).1 := by
  have hquiet : ¬ LosesAverage (.ok none) := by rintro (h | h) <;> cases h
  cases call with
  | record pause =>
    obtain ⟨hpause, hle⟩ := hcall
    have h := p.recorded hpause
    refine ⟨h.average_between.2.trans (Nat.max_le.mpr ⟨haverage, hle⟩), fun hlost => ?_⟩
    cases henabled : p.enabled with
    | false =>
      have hoff : p.perform (.record pause) = (.ok none, p) := if_pos (by rw [henabled]; decide)
      rw [hoff] at hlost
      exact hquiet hlost
    | true =>
      have hlong : span ≤ p.weighed pause := (h.losesAverage_iff henabled).mp hlost
      unfold weighed at hlong
      omega
  | enable => exact ⟨haverage, hquiet⟩
  | disable => exact ⟨haverage, hquiet⟩
  | setTarget target => exact ⟨haverage, hquiet⟩

/-- **A run keeps the bound** on the average, and never loses the average. -/
theorem run_within {p : Pacer} {calls : List Call} {bound : Nat} (hbound : 10 * bound < span)
    (haverage : p.average.toNanos ≤ bound) (hcalls : ∀ call ∈ calls, call.IsWithin bound) :
    (p.run calls).average.toNanos ≤ bound ∧ ∀ answer ∈ p.answers calls, ¬ LosesAverage answer := by
  induction calls generalizing p with
  | nil => exact ⟨haverage, by simp [answers]⟩
  | cons call rest ih =>
    obtain ⟨hcall, hrest⟩ := List.forall_mem_cons.mp hcalls
    obtain ⟨hstep, hkept⟩ := perform_within hbound haverage hcall
    obtain ⟨hlast, hanswers⟩ := ih hstep hrest
    exact ⟨hlast, List.forall_mem_cons.mpr ⟨hkept, hanswers⟩⟩

/-- **The average of the pauses is exact.**  A pause that is recorded by a pacer that is on turns
the average into a tenth of nine averages and the pause, in whole nanoseconds rounded down once; it
is lost exactly where nine averages and the pause reach `span`, and stays as it was then.  So the
average always lies between the old average and the pause, and over all calls with pauses of at most
`bound` nanoseconds, ten times which can be represented, it does not exceed `bound` and is never
lost. -/
theorem average_exact (p : Pacer) :
    (p.enabled = true → ∀ pause : Duration, pause.IsNormal →
      (LosesAverage (p.record pause).1 ↔ span ≤ 9 * p.average.toNanos + pause.toNanos)
        ∧ (9 * p.average.toNanos + pause.toNanos < span → (p.record pause).2.average.IsNormal
          ∧ (p.record pause).2.average.toNanos = (9 * p.average.toNanos + pause.toNanos) / 10)
        ∧ min p.average.toNanos pause.toNanos ≤ (p.record pause).2.average.toNanos
        ∧ (p.record pause).2.average.toNanos ≤ max p.average.toNanos pause.toNanos)
    ∧ ∀ (bound : Nat) (calls : List Call), 10 * bound < span → p.average.toNanos ≤ bound →
        (∀ call ∈ calls, call.IsWithin bound) →
        (p.run calls).average.toNanos ≤ bound ∧
          ∀ answer ∈ p.answers calls, ¬ LosesAverage answer := by
  refine ⟨fun henabled pause hpause => ?_, fun bound calls => run_within⟩
  have h := p.recorded hpause
  refine ⟨h.losesAverage_iff henabled, fun hshort => ?_, h.average_between⟩
  rw [h.average_eq henabled hshort]
  exact ⟨Duration.isNormal_ofNanos (Nat.lt_of_le_of_lt (Nat.div_le_self _ _) hshort),
    Duration.toNanos_ofNanos _⟩

/-- A carry from the seconds into the nanoseconds, an average that is lost, and a bound of eleven
seconds. -/
theorem average_exact_carried :
    (({ average := ⟨10, 999999999⟩ } : Pacer).record ⟨1, 8⟩).2.average.toNanos = 9999999999
    ∧ LosesAverage (({ average := ⟨2049638230412172401, 0⟩ } : Pacer).record ⟨7, 0⟩).1
    ∧ (({ average := ⟨10, 999999999⟩ } : Pacer).run
        [.record ⟨1, 8⟩, .setTarget .zero, .record ⟨11, 0⟩, .disable,
          .record ⟨0, 5⟩]).average.toNanos
        ≤ 11000000000 := by
  have hcarried := (average_exact { average := ⟨10, 999999999⟩ }).1 rfl ⟨1, 8⟩
    ⟨by decide, by decide⟩
  have hlost := (average_exact { average := ⟨2049638230412172401, 0⟩ }).1 rfl ⟨7, 0⟩
    ⟨by decide, by decide⟩
  have hrun := (average_exact { average := ⟨10, 999999999⟩ }).2 11000000000
    [.record ⟨1, 8⟩, .setTarget .zero, .record ⟨11, 0⟩, .disable, .record ⟨0, 5⟩] (by decide)
    (by decide)
  refine ⟨(hcarried.2.1 (by decide)).2, hlost.1.mpr (by decide), (hrun ?_).1⟩
  simp only [List.forall_mem_cons, List.not_mem_nil, false_implies, implies_true, and_true]
  exact ⟨⟨⟨by decide, by decide⟩, by decide⟩, trivial, ⟨⟨by decide, by decide⟩, by decide⟩, trivial,
    ⟨by decide, by decide⟩, by decide⟩

end Pacer

end ManagedHost
