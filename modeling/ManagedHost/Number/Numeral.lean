import ManagedHost.Number.Binary64

/-!
# Decimal numerals

A numeral is an optional sign, digits, an optional point with digits after it, and an optional
exponent.  Which of the digit groups may be empty is left to the format that uses the numeral.
-/

namespace ManagedHost

/-- The parts of a decimal numeral as written. -/
structure Numeral where
  /-- The sign, if one is written: whether it is a minus. -/
  sign : Option Bool
  /-- The digits before the point. -/
  whole : List Char
  /-- The digits after the point, if there is a point. -/
  fraction : Option (List Char)
  /-- Whether the exponent is negative, and its digits, if there is an exponent. -/
  exponent : Option (Bool × List Char)
deriving DecidableEq, Inhabited

namespace Numeral

/-- Split a leading sign off: whether it is a minus. -/
def splitSign : List Char → Option Bool × List Char
  | '+' :: rest => (some false, rest)
  | '-' :: rest => (some true, rest)
  | rest => (none, rest)

/-- Split the leading digits off. -/
def splitDigits (cs : List Char) : List Char × List Char :=
  (cs.takeWhile Char.isDigit, cs.dropWhile Char.isDigit)

/-- Split a point and the digits after it off. -/
def splitFraction : List Char → Option (List Char) × List Char
  | '.' :: rest => (some (splitDigits rest).1, (splitDigits rest).2)
  | rest => (none, rest)

/-- Split an exponent off. -/
def splitExponent : List Char → Option (Bool × List Char) × List Char
  | c :: rest =>
    if c = 'e' ∨ c = 'E' then
      let (sign, rest) := splitSign rest
      (some (sign.getD false, (splitDigits rest).1), (splitDigits rest).2)
    else (none, c :: rest)
  | [] => (none, [])

/-- The parts of a numeral, if the whole text is one. -/
def ofChars? (cs : List Char) : Option Numeral :=
  let (sign, cs) := splitSign cs
  let (whole, cs) := splitDigits cs
  let (fraction, cs) := splitFraction cs
  let (exponent, cs) := splitExponent cs
  if cs.isEmpty then some { sign, whole, fraction, exponent } else none

/-- Whether a minus is written. -/
def isNegative (n : Numeral) : Bool := n.sign.getD false

/-- Whether neither a point nor an exponent is written. -/
def isInteger (n : Numeral) : Bool := n.fraction.isNone && n.exponent.isNone

/-- All digits of the numeral as one number. -/
def coefficient (n : Numeral) : Nat := Nat.ofDigitChars 10 (n.whole ++ n.fraction.getD []) 0

/-- The power of ten that the coefficient is multiplied by. -/
def power (n : Numeral) : Int :=
  let written : Int := match n.exponent with
    | some (negative, digits) =>
      let size : Int := Nat.ofDigitChars 10 digits 0
      if negative then -size else size
    | none => 0
  written - (n.fraction.getD []).length

/-- The binary64 number nearest to the numeral. -/
def toBinary64 (n : Numeral) : Binary64 := .ofDecimal n.isNegative n.coefficient n.power

/-- A numeral of digits only. -/
def ofNat (n : Nat) : Numeral := ⟨none, Nat.toDigits 10 n, none, none⟩

/-- Whether the numeral has a digit outside the exponent, and one in the exponent if there is an
exponent. -/
def hasDigits (n : Numeral) : Bool :=
  !(n.whole ++ n.fraction.getD []).isEmpty && !(n.exponent.any (·.2.isEmpty))

end Numeral

/-! ### Plain number texts -/

/-- The whole number from 0 to `2 ^ 64 - 1` that a text gives: digits after an optional plus. -/
def wordOfText? (text : String) : Option Nat :=
  match Numeral.ofChars? text.toList with
  | some n =>
    if n.isInteger && n.hasDigits && n.sign != some true && n.coefficient < Nat.pow 2 64 then
      some n.coefficient
    else none
  | none => none

/-- The number that a text gives: a numeral with at least one digit, or, in any case and after an
optional sign, a name of infinity or of no number. -/
def Binary64.ofText? (text : String) : Option Binary64 :=
  match Numeral.ofChars? text.toList with
  | some n => if n.hasDigits then some n.toBinary64 else none
  | none =>
    let (sign, rest) := Numeral.splitSign text.toList
    match String.ofList (rest.map Char.toLower) with
    | "inf" => some ⟨sign.getD false, infinityCode⟩
    | "infinity" => some ⟨sign.getD false, infinityCode⟩
    | "nan" => some ⟨sign.getD false, nanCode⟩
    | _ => none

end ManagedHost
