import ManagedHost.Proofs.Heap.Averaging

/-!
# The range of the threshold

A pacer multiplies its threshold before it divides, and nothing keeps the threshold from above.
While the average stays over the target the threshold climbs by a tenth with each pause, so a long
enough climb leaves the machine word: `unrelieved_overflows`.  From the default threshold that takes
more than `steepest` raises, however they are spread over a run (`threshold_in_range`), since the
threshold is never above `ceiling`, which a climb without a break reaches.
-/

namespace ManagedHost

namespace Pacer

/-! ### Raises -/

/-- The threshold after `n` raises in a row, from the default. -/
def ceiling : Nat → Nat
  | 0 => defaultThreshold
  | n + 1 => ceiling n * 110 / 100

theorem ceiling_le_succ (n : Nat) : ceiling n ≤ ceiling (n + 1) := by
  rw [ceiling]
  omega

theorem ceiling_mono {m n : Nat} (h : m ≤ n) : ceiling m ≤ ceiling n :=
  monotone_nat_of_le_succ ceiling_le_succ h

/-- How many raises in a row the default threshold takes. -/
def steepest : Nat := 247

theorem ceiling_raise {n : Nat} (h : n < steepest) : ceiling n * 110 < Size.limit := by
  have htop : ceiling 246 * 110 < Size.limit := by decide +kernel
  exact (Nat.mul_le_mul_right _ (ceiling_mono (Nat.le_of_lt_succ h))).trans_lt htop

theorem ceiling_lower {n : Nat} (h : n ≤ steepest) : ceiling n * 95 < Size.limit := by
  have htop : ceiling steepest * 95 < Size.limit := by decide +kernel
  exact (Nat.mul_le_mul_right _ (ceiling_mono h)).trans_lt htop

/-- How many times the call raises the threshold, or would: the average is above the target after
it. -/
def raises (p : Pacer) : Call → Nat
  | .record pause => if p.enabled && (p.record pause).2.average.longer p.target then 1 else 0
  | _ => 0

/-- How many of the calls raise the threshold. -/
def raisesIn : Pacer → List Call → Nat
  | _, [] => 0
  | p, call :: rest => p.raises call + (p.perform call).2.raisesIn rest

/-! ### Runs -/

/-- An hour in nanoseconds. -/
def hour : Nat := 3600 * Duration.nanosPerSec

theorem ten_hours_lt_span : 10 * hour < Duration.span := by decide

variable {p : Pacer} {n : Nat}

/-- A fault that does not lose the average is one of the threshold. -/
theorem perform_fault {call : Call} {bound : Nat} {fault : Fault} (hcall : call.IsWithin bound)
    (hkept : ¬ LosesAverage (p.perform call).1) (hfault : (p.perform call).1 = .error fault) :
    fault = .multiplyOverflow := by
  cases call with
  | record pause =>
    have h := p.recorded hcall.1
    change Recorded p pause (p.perform (.record pause)).1 (p.perform (.record pause)).2 at h
    rw [hfault] at h hkept
    generalize (p.perform (.record pause)).2 = p' at h
    cases h with
    | averageLost _ _ lost => exact absurd lost hkept
    | thresholdLost => rfl
  | enable => cases hfault
  | disable => cases hfault
  | setTarget target => cases hfault

/-- **One pause**: a threshold under the ceiling stays in range and under the ceiling, which moves
up with a raise. -/
theorem Recorded.threshold_le {pause : Duration} {answer : Except Fault (Option Nat)} {p' : Pacer}
    (h : Recorded p pause answer p') (hkept : ¬ LosesAverage answer) (hle : p.threshold ≤ ceiling n)
    {r : Nat} (hr : r = if p.enabled && p'.average.longer p.target then 1 else 0)
    (hroom : n + r ≤ steepest) :
    (∃ threshold, answer = .ok threshold) ∧ p'.threshold ≤ ceiling (n + r) := by
  cases h with
  | off => exact ⟨⟨none, rfl⟩, hle.trans (ceiling_mono (Nat.le_add_right n r))⟩
  | averageLost _ _ lost => exact absurd lost hkept
  | @thresholdLost average enabled _ _ large =>
    exfalso
    change Size.limit ≤ p.threshold * (if average.longer p.target then 110 else 95) at large
    change r = if p.enabled && average.longer p.target then 1 else 0 at hr
    rw [enabled, Bool.true_and] at hr
    split_ifs at hr large with hover
    · have hraise := ceiling_raise (n := n) (by omega)
      omega
    · have hlower := ceiling_lower (n := n) (by omega)
      omega
  | @adjusted average threshold enabled _ _ _ rounded =>
    refine ⟨⟨some threshold, rfl⟩, ?_⟩
    change threshold = p.threshold * (if average.longer p.target then 110 else 95) / 100 at rounded
    change r = if p.enabled && average.longer p.target then 1 else 0 at hr
    change threshold ≤ ceiling (n + r)
    rw [enabled, Bool.true_and] at hr
    split_ifs at hr rounded with hover
    · rw [hr, ceiling, rounded]
      omega
    · rw [hr, Nat.add_zero, rounded]
      omega

/-- **One call**: a threshold under the ceiling stays in range and under the ceiling. -/
theorem perform_threshold {call : Call} {bound : Nat} (hcall : call.IsWithin bound)
    (hkept : ¬ LosesAverage (p.perform call).1) (hle : p.threshold ≤ ceiling n)
    (hroom : n + p.raises call ≤ steepest) :
    (∃ threshold, (p.perform call).1 = .ok threshold)
      ∧ (p.perform call).2.threshold ≤ ceiling (n + p.raises call) := by
  cases call with
  | record pause => exact (p.recorded hcall.1).threshold_le hkept hle rfl hroom
  | enable => exact ⟨⟨none, rfl⟩, hle⟩
  | disable => exact ⟨⟨none, rfl⟩, hle⟩
  | setTarget target => exact ⟨⟨none, rfl⟩, hle⟩

/-- **A run** with pauses of up to an hour: a fault is one of the threshold, and there is none if
few enough calls raise it. -/
theorem run_threshold {calls : List Call} (hcalls : ∀ call ∈ calls, call.IsWithin hour)
    (haverage : p.average.toNanos ≤ hour) :
    (∀ fault, Except.error fault ∈ p.answers calls → fault = .multiplyOverflow)
      ∧ (p.threshold ≤ ceiling n → n + p.raisesIn calls ≤ steepest →
        ∀ answer ∈ p.answers calls, ∃ threshold, answer = .ok threshold) := by
  induction calls generalizing p n with
  | nil => exact ⟨by simp [answers], by simp [answers]⟩
  | cons call rest ih =>
    obtain ⟨hcall, hrest⟩ := List.forall_mem_cons.mp hcalls
    obtain ⟨hstep, hkept⟩ := perform_within ten_hours_lt_span haverage hcall
    refine ⟨fun fault hmem => ?_, fun hle hroom => ?_⟩
    · rcases List.mem_cons.mp hmem with hfirst | hlater
      · exact perform_fault hcall hkept hfirst.symm
      · exact (ih (n := n) hrest hstep).1 fault hlater
    · rw [raisesIn, ← Nat.add_assoc] at hroom
      obtain ⟨hfirst, hunder⟩ :=
        perform_threshold hcall hkept hle ((Nat.le_add_right _ _).trans hroom)
      exact List.forall_mem_cons.mpr ⟨hfirst, (ih hrest hstep).2 hunder hroom⟩

/-- **When the threshold stays in range.**  In every run of a new pacer, with pauses of up to an
hour and any targets, the only fault is that of the threshold's product; and there is none, however
long the run, if not more than `steepest` of its pauses are recorded while the average is above the
target. -/
theorem threshold_in_range (target : Duration) (calls : List Call)
    (hcalls : ∀ call ∈ calls, call.IsWithin hour) :
    (∀ fault, Except.error fault ∈ ({ target } : Pacer).answers calls → fault = .multiplyOverflow)
      ∧ (({ target } : Pacer).raisesIn calls ≤ steepest →
        ∀ answer ∈ ({ target } : Pacer).answers calls, ∃ threshold, answer = .ok threshold) := by
  have hzero : Duration.zero.toNanos ≤ hour := by decide
  have hrun := run_threshold (p := { target }) (n := 0) hcalls hzero
  refine ⟨hrun.1, fun hraises => hrun.2 (Nat.le_refl _) ?_⟩
  rwa [Nat.zero_add]

/-- The longest climb that stays in range. -/
theorem threshold_in_range_climb :
    ({ target := .zero } : Pacer).raisesIn (List.replicate steepest (.record ⟨1, 0⟩)) ≤ steepest
      ∧ ∀ answer ∈ ({ target := .zero } : Pacer).answers (List.replicate steepest (.record ⟨1, 0⟩)),
        ∃ threshold, answer = .ok threshold := by
  have hraises : ({ target := .zero } : Pacer).raisesIn (List.replicate steepest (.record ⟨1, 0⟩))
      ≤ steepest := by decide +kernel
  refine ⟨hraises, (threshold_in_range .zero _ fun call hcall => ?_).2 hraises⟩
  obtain rfl := List.eq_of_mem_replicate hcall
  exact ⟨⟨by decide, by decide⟩, by decide⟩

/-- One more pause of a second, each over the target, and the threshold's product leaves the machine
word. -/
theorem unrelieved_overflows :
    ¬ ∀ (target : Duration) (calls : List Call), (∀ call ∈ calls, call.IsWithin hour) →
      ∀ answer ∈ ({ target } : Pacer).answers calls, ∃ threshold, answer = .ok threshold := by
  intro hall
  have hfault : Except.error Fault.multiplyOverflow
      ∈ ({ target := .zero } : Pacer).answers (List.replicate (steepest + 1) (.record ⟨1, 0⟩)) := by
    decide +kernel
  obtain ⟨threshold, heq⟩ := hall .zero _ (fun call hcall => by
    obtain rfl := List.eq_of_mem_replicate hcall
    exact ⟨⟨by decide, by decide⟩, by decide⟩) _ hfault
  cases heq

end Pacer

end ManagedHost
