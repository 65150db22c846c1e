import ManagedHost.Number.Binary64

/-!
# The shortest decimal of a binary64 number

A finite magnitude is a decimal with finitely many digits.  Its shortest decimal is the one with the
fewest digits that rounds to the magnitude: for no digit, one digit, two digits and so on, the two
neighbours of the magnitude on that grid are tried, and the search ends at the latest at the
magnitude itself.
-/

namespace ManagedHost

namespace Binary64

/-- A decimal magnitude, `coefficient * 10 ^ exponent`. -/
structure Decimal where
  coefficient : Nat
  exponent : Int
deriving DecidableEq, Inhabited

/-- The finite magnitude with the given code as a decimal. -/
def exactDecimal (code : Nat) : Decimal :=
  if code = 0 then ⟨0, 0⟩
  else if 1074 ≤ scale code then ⟨significand code * Nat.pow 2 (scale code - 1074), 0⟩
  else
    let below := 1074 - scale code
    ⟨significand code * Nat.pow 5 below, -(below : Int)⟩

/-- Whether the decimal rounds to the magnitude with the given code. -/
def Decimal.reads (d : Decimal) (code : Nat) : Bool :=
  codeOfDecimal d.coefficient d.exponent == code

/-- Of the decimals below and above, the one that rounds to the magnitude; if both do, the one below
only if it is nearer. -/
def Decimal.chosen? (below above : Decimal) (belowReads aboveReads belowNearer : Bool) :
    Option Decimal :=
  if belowReads && (belowNearer || !aboveReads) then some below
  else if aboveReads then some above
  else none

/-- The decimal with `dropped` digits less than `exact` that rounds to the magnitude.  Of two, the
nearer is taken, and the greater if both are as near. -/
def shortened? (code : Nat) (exact : Decimal) (dropped : Nat) : Option Decimal :=
  let step := Nat.pow 10 dropped
  let below : Decimal := ⟨exact.coefficient / step, exact.exponent + dropped⟩
  let above : Decimal := ⟨exact.coefficient / step + 1, exact.exponent + dropped⟩
  below.chosen? above (below.reads code) (above.reads code)
    (2 * (exact.coefficient % step) < step)

/-- The first decimal found when at most `dropped` digits are left out, the most first. -/
def shortestFrom (code : Nat) (exact : Decimal) : Nat → Decimal
  | 0 => exact
  | dropped + 1 => (shortened? code exact (dropped + 1)).getD (shortestFrom code exact dropped)

/-- The shortest decimal that rounds to the finite magnitude with the given code. -/
def shortest (code : Nat) : Decimal :=
  let exact := exactDecimal code
  shortestFrom code exact (digitCount exact.coefficient)

/-- The decimal in positional notation. -/
def Decimal.positional (d : Decimal) : List Char :=
  let digits := Nat.toDigits 10 d.coefficient
  if 0 ≤ d.exponent then
    if d.coefficient = 0 then digits else digits ++ List.replicate d.exponent.toNat '0'
  else
    let places := (-d.exponent).toNat
    if digits.length ≤ places then
      '0' :: '.' :: List.replicate (places - digits.length) '0' ++ digits
    else
      digits.take (digits.length - places) ++ '.' :: digits.drop (digits.length - places)

/-- The text of a number: the shortest decimal in positional notation. -/
def text (x : Binary64) : String :=
  if x.isNaN then "NaN"
  else
    (if x.negative then "-" else "")
      ++ (if x.isFinite then String.ofList (shortest x.code).positional else "inf")

end Binary64

end ManagedHost
