import ManagedHost.Number.Shortest
import Mathlib.Data.Nat.Log
import Mathlib.Tactic.Ring

/-!
# The shortest decimal reads back
-/

namespace ManagedHost

namespace Binary64

/-! ### Ratios -/

theorem roundQuotient_mul {k : Nat} (hk : 0 < k) (num den : Nat) :
    roundQuotient (num * k) (den * k) = roundQuotient num den := by
  have hrest : 2 * (num % den * k) = 2 * (num % den) * k := (Nat.mul_assoc _ _ _).symm
  simp only [roundQuotient, Nat.mul_div_mul_right num den hk, Nat.mul_mod_mul_right, hrest,
    Nat.mul_lt_mul_right hk]

theorem roundQuotient_exact {den : Nat} (hden : 0 < den) (n : Nat) :
    roundQuotient (n * den) den = n := by
  simp [roundQuotient, Nat.mul_div_cancel n hden, hden]

/-- Only the ratio counts. -/
theorem codeOfRatio_mul {k : Nat} (hk : 0 < k) (num den : Nat) :
    codeOfRatio (num * k) (den * k) = codeOfRatio num den := by
  have hunits : num * k * Nat.pow 2 1074 = num * Nat.pow 2 1074 * k := Nat.mul_right_comm _ _ _
  have hden (step : Nat) : den * k * step = den * step * k := Nat.mul_right_comm _ _ _
  simp only [codeOfRatio, hunits, Nat.mul_div_mul_right _ den hk, hden, roundQuotient_mul hk]

/-! ### Magnitudes -/

/-- The binary exponent of a magnitude shows in its bits. -/
theorem log2_magnitude (code : Nat) :
    (significand code * Nat.pow 2 (scale code)).log2 - 52 = scale code := by
  unfold significand scale
  split_ifs with hsmall
  · have hscale : code / Nat.pow 2 52 - 1 = 0 := by
      rw [Nat.div_eq_of_lt hsmall]
    have hpow : Nat.pow 2 0 = 1 := rfl
    rw [hscale, hpow, Nat.mul_one]
    rcases Nat.eq_zero_or_pos code with rfl | hpos
    · rfl
    · have := (Nat.log2_lt (Nat.pos_iff_ne_zero.mp hpos)).mpr hsmall
      omega
  · set s := code / Nat.pow 2 52 - 1
    set r := code % Nat.pow 2 52
    have hr : r < Nat.pow 2 52 := Nat.mod_lt _ (Nat.two_pow_pos 52)
    have hlow : 2 ^ (52 + s) ≤ (2 ^ 52 + r) * 2 ^ s := by
      rw [Nat.pow_add]
      exact Nat.mul_le_mul_right _ (Nat.le_add_right _ r)
    have hhigh : (2 ^ 52 + r) * 2 ^ s < 2 ^ (52 + s + 1) := by
      have hdouble : 2 ^ (52 + s + 1) = (2 ^ 52 + 2 ^ 52) * 2 ^ s := by ring
      rw [hdouble]
      exact Nat.mul_lt_mul_of_pos_right (Nat.add_lt_add_left hr _) (Nat.two_pow_pos s)
    have hlog : ((2 ^ 52 + r) * 2 ^ s).log2 = 52 + s :=
      (Nat.log2_eq_iff (Nat.pos_iff_ne_zero.mp (Nat.lt_of_lt_of_le (Nat.two_pow_pos _) hlow))).mpr
        ⟨hlow, hhigh⟩
    exact Nat.sub_eq_of_eq_add (hlog.trans (Nat.add_comm 52 s))

/-- A code is its binary exponent and its significand put together. -/
theorem scale_add_significand (code : Nat) :
    scale code * Nat.pow 2 52 + significand code = code := by
  unfold significand scale
  split_ifs with hsmall
  · rw [Nat.div_eq_of_lt hsmall, Nat.zero_sub, Nat.zero_mul, Nat.zero_add]
  · have hquotient : 0 < code / Nat.pow 2 52 :=
      Nat.div_pos (Nat.le_of_not_lt hsmall) (Nat.two_pow_pos 52)
    have hcode := Nat.div_add_mod' code (Nat.pow 2 52)
    have hstep : (code / Nat.pow 2 52 - 1) * Nat.pow 2 52 + Nat.pow 2 52
        = code / Nat.pow 2 52 * Nat.pow 2 52 := by
      rw [← Nat.succ_mul, Nat.succ_eq_add_one, Nat.sub_add_cancel hquotient]
    rw [← Nat.add_assoc, hstep, hcode]

/-- **A finite magnitude rounds to itself**, given as a ratio of any kind.  The least exponent has a
name, `bits`, so that no step computes the power. -/
theorem codeOfRatio_exact {code num den bits : Nat} (hbits : 1074 = bits)
    (hcode : code < infinityCode) (hden : 0 < den)
    (h : num * Nat.pow 2 bits = significand code * Nat.pow 2 (scale code) * den) :
    codeOfRatio num den = code := by
  have hround : significand code * Nat.pow 2 (scale code) * den
      = significand code * (den * Nat.pow 2 (scale code)) := by
    rw [Nat.mul_assoc, Nat.mul_comm (Nat.pow 2 (scale code)) den]
  have hunit : 0 < den * Nat.pow 2 (scale code) := Nat.mul_pos hden (Nat.two_pow_pos _)
  simp only [codeOfRatio, hbits, h, Nat.mul_div_cancel _ hden, log2_magnitude]
  rw [hround, roundQuotient_exact hunit, scale_add_significand]
  exact Nat.min_eq_left (Nat.le_of_lt hcode)

/-! ### Decimals -/

theorem codeOfDecimal_natCast {exponent : Nat} (h : exponent ≤ 400) (coefficient : Nat) :
    codeOfDecimal coefficient exponent = codeOfRatio (coefficient * Nat.pow 10 exponent) 1 := by
  have hcut :
      max (min (exponent : Int) 400) (-(digitCount coefficient + 400 : Int)) = exponent := by
    omega
  simp only [codeOfDecimal, hcut, Int.toNat_natCast, Int.toNat_neg_natCast]

theorem codeOfDecimal_neg {places coefficient : Nat} (h : places ≤ digitCount coefficient + 400) :
    codeOfDecimal coefficient (-(places : Int)) = codeOfRatio coefficient (Nat.pow 10 places) := by
  have hcut :
      max (min (-(places : Int)) 400) (-(digitCount coefficient + 400 : Int)) = -places := by
    omega
  have hone : coefficient * Nat.pow 10 0 = coefficient := Nat.mul_one coefficient
  simp only [codeOfDecimal, hcut, Int.toNat_neg_natCast, Int.neg_neg, Int.toNat_natCast, hone]

theorem pow_ten_le {spare k : Nat} (h : k ≤ 2 * spare) : 10 ^ k ≤ 5 ^ (spare + k) := calc
  10 ^ k = 2 ^ k * 5 ^ k := Nat.mul_pow 2 5 k
  _ ≤ 2 ^ (2 * spare) * 5 ^ k := Nat.mul_le_mul_right _ (Nat.pow_le_pow_right (by decide) h)
  _ = 4 ^ spare * 5 ^ k := by rw [Nat.pow_mul]
  _ ≤ 5 ^ spare * 5 ^ k := Nat.mul_le_mul_right _ (Nat.pow_le_pow_left (by decide) spare)
  _ = 5 ^ (spare + k) := (Nat.pow_add 5 spare k).symm

/-- The digits of a multiple of `5 ^ below` are enough for `codeOfDecimal` to take it whole. -/
theorem le_digitCount {below : Nat} (hbelow : below ≤ 1074) {m : Nat} (hm : 0 < m) :
    below ≤ digitCount (m * Nat.pow 5 below) + 400 := by
  by_contra hfew
  -- Each place beyond the first 401 costs a factor of two, and those pay for it.
  obtain ⟨spare, k, rfl, hk, hdigits⟩ : ∃ spare k, below = spare + k ∧ k ≤ 2 * spare
      ∧ digitCount (m * Nat.pow 5 below) ≤ k := ⟨401, below - 401, by omega, by omega, by omega⟩
  have hkpos : 0 < k := Nat.lt_of_lt_of_le Nat.length_toDigits_pos hdigits
  have hsmall : m * 5 ^ (spare + k) < 10 ^ k :=
    (Nat.length_toDigits_le_iff (by decide) hkpos).mp hdigits
  have hlarge : 10 ^ k ≤ m * 5 ^ (spare + k) :=
    (pow_ten_le hk).trans (Nat.le_mul_of_pos_left _ hm)
  exact absurd hsmall (Nat.not_lt.mpr hlarge)

theorem significand_pos {code : Nat} (h : code ≠ 0) : 0 < significand code := by
  unfold significand
  split_ifs
  · exact Nat.pos_of_ne_zero h
  · exact Nat.add_pos_left (Nat.two_pow_pos 52) _

theorem two_pow_sub_mul {m n : Nat} (h : m ≤ n) :
    Nat.pow 2 (n - m) * Nat.pow 2 m = Nat.pow 2 n :=
  Nat.pow_sub_mul_pow 2 h

/-- **The exact decimal** of a finite magnitude rounds to it. -/
theorem codeOfDecimal_exact {code : Nat} (hcode : code < infinityCode) :
    codeOfDecimal (exactDecimal code).coefficient (exactDecimal code).exponent = code := by
  obtain ⟨bits, hbits⟩ : ∃ bits, 1074 = bits := ⟨_, rfl⟩
  have hwhole {n : Nat} (hn : n * 1 * Nat.pow 2 bits
      = significand code * Nat.pow 2 (scale code) * 1) : codeOfDecimal n 0 = code :=
    (codeOfDecimal_natCast (Nat.zero_le 400) n).trans (codeOfRatio_exact hbits hcode Nat.one_pos hn)
  unfold exactDecimal
  rw [hbits]
  split_ifs with hzero hlarge
  · refine hwhole ?_
    have hsignificand : significand 0 = 0 := rfl
    simp only [hzero, hsignificand, Nat.zero_mul]
  · refine hwhole ?_
    rw [Nat.mul_one, Nat.mul_one, Nat.mul_assoc, two_pow_sub_mul hlarge]
  · have hbelow : bits - scale code ≤ 1074 := hbits ▸ Nat.sub_le _ _
    have hpos := significand_pos hzero
    have hten : Nat.pow 10 (bits - scale code)
        = Nat.pow 2 (bits - scale code) * Nat.pow 5 (bits - scale code) :=
      Nat.mul_pow 2 5 (bits - scale code)
    have hfive : 0 < Nat.pow 5 (bits - scale code) := Nat.pow_pos (by decide)
    dsimp only
    rw [codeOfDecimal_neg (le_digitCount hbelow hpos), hten, codeOfRatio_mul hfive]
    refine codeOfRatio_exact hbits hcode (Nat.two_pow_pos _) ?_
    rw [Nat.mul_assoc, Nat.mul_comm (Nat.pow 2 (scale code)),
      two_pow_sub_mul (Nat.le_of_not_le hlarge)]

/-- Zero stays zero. -/
theorem codeOfDecimal_zero (exponent : Int) : codeOfDecimal 0 exponent = 0 := by
  have hsignificand : significand 0 = 0 := rfl
  simp only [codeOfDecimal, Nat.zero_mul]
  refine codeOfRatio_exact rfl (by decide) (Nat.pow_pos (by decide)) ?_
  simp only [hsignificand, Nat.zero_mul]

/-- A decimal above the finite magnitudes rounds to infinity. -/
theorem codeOfRatio_large {num size bits : Nat} (hbits : 1074 = bits) (hnum : 2 ^ size ≤ num)
    (hsize : 2047 + 52 ≤ size + bits) : codeOfRatio num 1 = infinityCode := by
  have hunits : 2 ^ (size + bits) ≤ num * Nat.pow 2 bits := by
    rw [Nat.pow_add]
    exact Nat.mul_le_mul_right _ hnum
  have hpos : 0 < num * Nat.pow 2 bits := Nat.lt_of_lt_of_le (Nat.two_pow_pos _) hunits
  have hlog : size + bits ≤ (num * Nat.pow 2 bits).log2 :=
    (Nat.le_log2 (Nat.pos_iff_ne_zero.mp hpos)).mpr hunits
  have hscale : 2047 ≤ (num * Nat.pow 2 bits).log2 - 52 := by omega
  simp only [codeOfRatio, hbits, Nat.div_one, Nat.one_mul]
  exact Nat.min_eq_right (Nat.le_trans (Nat.mul_le_mul_right _ hscale) (Nat.le_add_right _ _))

/-- The exponent of a finite decimal is in range. -/
theorem exponent_le_of_finite {coefficient : Nat} {exponent : Int} (hpos : 0 < coefficient)
    (h : codeOfDecimal coefficient exponent < infinityCode) : exponent ≤ 400 := by
  by_contra hlarge
  -- The exponent is cut off, and what is left is still far above the greatest finite magnitude.
  obtain ⟨cut, hcutoff⟩ : ∃ cut : Nat, cut = 400 := ⟨_, rfl⟩
  have hcut : max (min exponent 400) (-(digitCount coefficient + 400 : Int)) = cut := by omega
  have hten {k : Nat} : 2 ^ (3 * k) ≤ coefficient * 10 ^ k := calc
    2 ^ (3 * k) = 8 ^ k := Nat.pow_mul 2 3 k
    _ ≤ 10 ^ k := Nat.pow_le_pow_left (by decide) k
    _ ≤ coefficient * 10 ^ k := Nat.le_mul_of_pos_left _ hpos
  have hinfinite : codeOfDecimal coefficient exponent = infinityCode := by
    simp only [codeOfDecimal, hcut, Int.toNat_natCast, Int.toNat_neg_natCast]
    exact codeOfRatio_large rfl hten (by omega)
  rw [hinfinite] at h
  exact absurd h (Nat.lt_irrefl _)

/-- A whole decimal is the same with a zero after the point. -/
theorem codeOfDecimal_point {coefficient exponent : Nat} (h : exponent ≤ 400) :
    codeOfDecimal (coefficient * Nat.pow 10 exponent * 10) (-(1 : Nat))
      = codeOfDecimal coefficient exponent := by
  rw [codeOfDecimal_neg (Nat.le_add_left 1 _), codeOfDecimal_natCast h]
  exact codeOfRatio_mul (by decide) (coefficient * Nat.pow 10 exponent) 1

theorem Decimal.reads_iff {d : Decimal} {code : Nat} :
    d.reads code = true ↔ codeOfDecimal d.coefficient d.exponent = code := by
  rw [reads, beq_iff_eq]

theorem Decimal.reads_of_chosen? {below above d : Decimal} {code : Nat} {nearer : Bool}
    (h : below.chosen? above (below.reads code) (above.reads code) nearer = some d) :
    d.reads code = true := by
  generalize hbelow : below.reads code = belowReads at h
  generalize habove : above.reads code = aboveReads at h
  unfold chosen? at h
  split_ifs at h with hfirst hsecond
  · cases h
    exact hbelow.trans (Bool.and_eq_true_iff.mp hfirst).1
  · cases h
    exact habove.trans hsecond

/-- **The search** takes only decimals that round to the magnitude, and ends at the exact one. -/
theorem reads_shortestFrom {code : Nat} {exact : Decimal} (h : exact.reads code = true)
    (dropped : Nat) : (shortestFrom code exact dropped).reads code = true := by
  induction dropped with
  | zero => rwa [shortestFrom]
  | succ dropped ih =>
    rw [shortestFrom]
    cases hfound : shortened? code exact (dropped + 1) with
    | some d => exact Decimal.reads_of_chosen? hfound
    | none => exact ih

/-- **The shortest decimal** of a finite magnitude rounds to it. -/
theorem codeOfDecimal_shortest {code : Nat} (hcode : code < infinityCode) :
    codeOfDecimal (shortest code).coefficient (shortest code).exponent = code := by
  have hexact := Decimal.reads_iff.mpr (codeOfDecimal_exact hcode)
  rw [← Decimal.reads_iff, shortest]
  exact reads_shortestFrom hexact _

end Binary64

end ManagedHost
