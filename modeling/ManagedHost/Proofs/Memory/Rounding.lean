import ManagedHost.Proofs.Memory.Alignment
import Mathlib.Order.Bounds.Basic

/-!
# Exact rounding up

`Size.multiplesFrom align n` are the multiples of `align` from `n` on, and rounding up should give
the least of them.  `Size.alignUp` finds it by adding `align - 1` and clearing low bits, and gives
up where the sum is out of range.

* `Size.isLeast_two_pow`: the closed form of `Size.alignUp_two_pow` is that least multiple.
* `Size.padded_lt_limit_iff`: the sum is out of range only where the least multiple is.  That is
  because a power of two below the limit divides the limit, so there is no multiple between the
  last one in range and the limit.
* `Size.alignUp_of_isLeast`: so rounding up fails only where it has to.
* `Size.alignUp_exact`: the same for machine words and their mask.
-/

namespace ManagedHost

namespace Size

/-- The multiples of `align` that are at least `n`. -/
def multiplesFrom (align n : Nat) : Set Nat := {m | align ∣ m ∧ n ≤ m}

/-! ### The least multiple -/

/-- Dividing with rounding up and multiplying again gives the least multiple. -/
theorem isLeast_two_pow (n k : Nat) :
    IsLeast (multiplesFrom (2 ^ k) n) (2 ^ k * ((n + (2 ^ k - 1)) / 2 ^ k)) := by
  have hpos : 0 < 2 ^ k := Nat.two_pow_pos k
  have hsplit := Nat.div_add_mod (n + (2 ^ k - 1)) (2 ^ k)
  have hrest := Nat.mod_lt (n + (2 ^ k - 1)) hpos
  constructor
  · exact ⟨Dvd.intro _ rfl, by omega⟩
  · rintro m ⟨⟨q, rfl⟩, hle⟩
    apply Nat.mul_le_mul_left
    -- one unit more than `q` of them would hold a number that is too large
    apply Nat.le_of_lt_succ
    apply Nat.div_lt_of_lt_mul
    rw [Nat.succ_eq_add_one, Nat.mul_add_one]
    omega

/-- There is a least multiple of a power of two from any number on. -/
theorem exists_isLeast {align : Nat} (halign : align.isPowerOfTwo) (n : Nat) :
    ∃ m, IsLeast (multiplesFrom align n) m := by
  obtain ⟨k, rfl⟩ := halign
  exact ⟨_, isLeast_two_pow n k⟩

/-- The least multiple is less than one unit above the number. -/
theorem lt_of_isLeast {align n m : Nat} (hpos : 0 < align)
    (h : IsLeast (multiplesFrom align n) m) : m < n + align := by
  obtain ⟨⟨hdvd, -⟩, hleast⟩ := h
  by_contra hge
  -- otherwise one unit less would do
  have hless : m - align ∈ multiplesFrom align n := ⟨Nat.dvd_sub hdvd dvd_rfl, by omega⟩
  have hle := hleast hless
  omega

/-! ### The range of sizes -/

/-- A power of two below the limit divides it. -/
theorem dvd_limit {align : Nat} (halign : align.isPowerOfTwo) (hlimit : align < limit) :
    align ∣ limit := by
  obtain ⟨k, rfl⟩ := halign
  have hk : k < 64 := (Nat.pow_lt_pow_iff_right (by decide)).mp hlimit
  exact Nat.pow_dvd_pow 2 hk.le

/-- **The sum leaves the range together with the result.** -/
theorem padded_lt_limit_iff {align n m : Nat} (halign : align.isPowerOfTwo)
    (hlimit : align < limit) (h : IsLeast (multiplesFrom align n) m) :
    n + (align - 1) < limit ↔ m < limit := by
  have hpos : 0 < align := Nat.pos_of_isPowerOfTwo halign
  have hlt := lt_of_isLeast hpos h
  constructor
  · intro hpadded
    omega
  · intro hm
    -- `m` and the limit are both multiples, so a whole unit lies between them
    have hunit : align ≤ limit - m :=
      Nat.le_of_dvd (by omega) (Nat.dvd_sub (dvd_limit halign hlimit) h.1.1)
    have hle := h.1.2
    omega

/-- **Rounding up is exact**: it gives the least multiple, and fails only where that one is out of
range. -/
theorem alignUp_of_isLeast {align n m : Nat} (halign : align.isPowerOfTwo)
    (hlimit : align < limit) (h : IsLeast (multiplesFrom align n) m) :
    alignUp n align = if m < limit then some m else none := by
  have hiff := padded_lt_limit_iff halign hlimit h
  obtain ⟨k, rfl⟩ := halign
  have hm : 2 ^ k * ((n + (2 ^ k - 1)) / 2 ^ k) = m := (isLeast_two_pow n k).unique h
  rw [alignUp_two_pow, hm]
  exact if_congr hiff rfl rfl

/-! ### Machine words -/

/-- Clearing the bits of a mask subtracts what the mask selects. -/
theorem toNat_and_not (a mask : UInt64) :
    (a &&& ~~~mask).toNat = a.toNat - (a.toNat &&& mask.toNat) := by
  have hapart : (a.toBitVec &&& ~~~mask.toBitVec) &&& (a.toBitVec &&& mask.toBitVec) = 0#64 := by
    ext i
    simp only [BitVec.getElem_and, BitVec.getElem_not, BitVec.getElem_zero]
    grind
  have hboth : (a.toBitVec &&& ~~~mask.toBitVec) ||| (a.toBitVec &&& mask.toBitVec)
      = a.toBitVec := by
    ext i
    simp only [BitVec.getElem_or, BitVec.getElem_and, BitVec.getElem_not]
    grind
  have hsum := BitVec.toNat_add_of_and_eq_zero hapart
  rw [BitVec.add_eq_or_of_and_eq_zero _ _ hapart, hboth, BitVec.toNat_and] at hsum
  have hword : a.toNat = (a &&& ~~~mask).toNat + (a.toNat &&& mask.toNat) := hsum
  omega

/-- Where the padded size is in range, rounding up is what the mask makes of the padded word. -/
theorem alignUp_eq_mask {size align : UInt64} (hpos : 0 < align.toNat)
    (h : size.toNat + (align.toNat - 1) < limit) :
    alignUp size.toNat align.toNat = some ((size + (align - 1)) &&& ~~~(align - 1)).toNat := by
  have hone : (align - 1).toNat = align.toNat - 1 :=
    UInt64.toNat_sub_of_le align 1 (UInt64.le_iff_toNat_le.mpr hpos)
  have hpadded : (size + (align - 1)).toNat = size.toNat + (align.toNat - 1) := by
    rw [UInt64.toNat_add, hone]
    exact Nat.mod_eq_of_lt h
  rw [toNat_and_not, hpadded, hone, alignUp, add?, if_pos h, Option.map_some]

/-- **Rounding up on machine words.**  For every size and every power of two, the result is the
least multiple that is at least the size where that one is a word, namely the padded word with its
low bits cleared; and there is no result exactly where it is none. -/
theorem alignUp_exact (size align : UInt64) (halign : align.toNat.isPowerOfTwo) :
    ∃ m, IsLeast (multiplesFrom align.toNat size.toNat) m ∧
      alignUpChecked size.toNat align.toNat = .ok (if m < limit then some m else none) ∧
      (m < limit → m = ((size + (align - 1)) &&& ~~~(align - 1)).toNat) := by
  have hpos : 0 < align.toNat := Nat.pos_of_isPowerOfTwo halign
  have hlimit : align.toNat < limit := align.toNat_lt
  obtain ⟨m, hm⟩ := exists_isLeast halign size.toNat
  have hexact := alignUp_of_isLeast halign hlimit hm
  refine ⟨m, hm, ?_, ?_⟩
  · rw [alignUpChecked, if_neg hpos.ne', hexact]
  · intro hlt
    rw [alignUp_eq_mask hpos ((padded_lt_limit_iff halign hlimit hm).mpr hlt), if_pos hlt] at hexact
    exact (Option.some.inj hexact).symm

/-- At the largest alignment, one more than the largest multiple has no multiple above it that is
a word. -/
theorem alignUp_exact_two_pow_63 :
    UInt64.toNat 0x8000000000000000 = 2 ^ 63 ∧
      ∃ m, IsLeast (multiplesFrom (UInt64.toNat 0x8000000000000000)
          (UInt64.toNat 0x8000000000000001)) m ∧
        alignUpChecked (UInt64.toNat 0x8000000000000001) (UInt64.toNat 0x8000000000000000)
          = .ok none ∧ ¬ m < limit := by
  have hpow : UInt64.toNat 0x8000000000000000 = 2 ^ 63 := by decide
  obtain ⟨m, hleast, hresult, -⟩ :=
    alignUp_exact 0x8000000000000001 0x8000000000000000 ⟨63, hpow⟩
  refine ⟨hpow, m, hleast, ?_⟩
  have hnone : alignUpChecked (UInt64.toNat 0x8000000000000001) (UInt64.toNat 0x8000000000000000)
      = .ok none := by decide
  refine ⟨hnone, ?_⟩
  intro hlt
  rw [hnone, if_pos hlt] at hresult
  cases hresult

end Size

end ManagedHost
