/-!
# Binary64 numbers

A binary64 number is held as a sign and a code, the 63 bits below the sign bit.  The codes below
`infinityCode` are those of the finite magnitudes, in ascending order: the code `c` stands for
`significand c * 2 ^ scale c` units of `2 ^ -1074`, the least positive magnitude.  So rounding a
magnitude is rounding it to a whole number of units of the right scale, in exact arithmetic.
-/

namespace ManagedHost

/-- A binary64 number. -/
structure Binary64 where
  negative : Bool
  /-- The bits below the sign bit. -/
  code : Nat
deriving DecidableEq, Inhabited

namespace Binary64

/-- The code of infinity; greater codes are no numbers. -/
def infinityCode : Nat := 0x7ff * Nat.pow 2 52

/-- The least code that is no number and signals nothing. -/
def nanCode : Nat := 0x7ff8 * Nat.pow 2 48

/-- The bit pattern of the number. -/
def bits (x : Binary64) : Nat := if x.negative then Nat.pow 2 63 + x.code else x.code

/-- The number with the given bit pattern. -/
def ofBits (n : Nat) : Binary64 := ⟨Nat.pow 2 63 ≤ n, n % Nat.pow 2 63⟩

/-- The machine's number with the same bit pattern. -/
def toFloat (x : Binary64) : Float := Float.ofBits x.bits.toUInt64

/-- Whether the number is finite. -/
def isFinite (x : Binary64) : Bool := x.code < infinityCode

/-- Whether the number is a number at all. -/
def isNaN (x : Binary64) : Bool := infinityCode < x.code

/-- Whether the number is finite and above zero. -/
def isPositive (x : Binary64) : Bool := x.isFinite && !x.negative && x.code != 0

/-! ### Magnitudes -/

/-- The significand of a finite magnitude. -/
def significand (code : Nat) : Nat :=
  if code < Nat.pow 2 52 then code else Nat.pow 2 52 + code % Nat.pow 2 52

/-- The binary exponent of a finite magnitude above that of the least magnitude. -/
def scale (code : Nat) : Nat := code / Nat.pow 2 52 - 1

/-- The quotient rounded to the nearest whole number; a half goes to the even neighbour. -/
def roundQuotient (num den : Nat) : Nat :=
  let quotient := num / den
  let rest := num % den
  if 2 * rest < den then quotient
  else if den < 2 * rest then quotient + 1
  else quotient + quotient % 2

/-- The code of the magnitude nearest to `num / den`; a half goes to the even significand. -/
def codeOfRatio (num den : Nat) : Nat :=
  let units := num * Nat.pow 2 1074
  let scale := (units / den).log2 - 52
  min (scale * Nat.pow 2 52 + roundQuotient units (den * Nat.pow 2 scale)) infinityCode

/-! ### Decimal values -/

/-- The number of decimal digits of `n`; zero has one. -/
def digitCount (n : Nat) : Nat := (Nat.toDigits 10 n).length

/-- The code of the magnitude nearest to `coefficient * 10 ^ exponent`.  An exponent past 400 leads
to infinity and one past the digits of the coefficient by 400 leads to zero, so that both can be cut
off there. -/
def codeOfDecimal (coefficient : Nat) (exponent : Int) : Nat :=
  let exponent := max (min exponent 400) (-(digitCount coefficient + 400 : Int))
  codeOfRatio (coefficient * Nat.pow 10 exponent.toNat) (Nat.pow 10 (-exponent).toNat)

/-- The number nearest to `± coefficient * 10 ^ exponent`. -/
def ofDecimal (negative : Bool) (coefficient : Nat) (exponent : Int) : Binary64 :=
  ⟨negative, codeOfDecimal coefficient exponent⟩

/-- The number nearest to an integer. -/
def ofInt (n : Int) : Binary64 := ofDecimal (n < 0) n.natAbs 0

end Binary64

end ManagedHost
