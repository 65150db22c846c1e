import ManagedHost.Number.Numeral
import ManagedHost.Toml.Quoted
import ManagedHost.Toml.Value

/-!
# Unquoted scalars

Booleans, numbers and moments are written without quotes.  In a number an underscore may stand
between two digits.
-/

namespace ManagedHost

namespace Toml

/-- Leave out the underscores; each has to stand between two digits.  `before` says whether a digit
was just read. -/
def ungroup? (isDigit : Char → Bool) : Bool → List Char → Option (List Char)
  | _, [] => some []
  | before, '_' :: c :: rest =>
    if before && isDigit c then (ungroup? isDigit true rest).map (c :: ·) else none
  | _, c :: rest =>
    if c = '_' then none else (ungroup? isDigit (isDigit c) rest).map (c :: ·)

/-- Whether the digits are those of a number without needless zeros in front. -/
def isCanonical : List Char → Bool
  | [] => false
  | ['0'] => true
  | c :: _ => c != '0'

/-- The value of digits in a base up to 16. -/
def digitsIn? (base : Nat) : Nat → List Char → Option Nat
  | n, [] => some n
  | n, c :: rest => match hexDigit? c with
    | some d => if d < base then digitsIn? base (base * n + d) rest else none
    | none => none

/-- A whole number after the mark of its base. -/
def basedInteger? (base : Nat) (digits : List Char) : Option Nat :=
  match ungroup? (fun c => (hexDigit? c).isSome) false digits with
  | some (c :: rest) => digitsIn? base 0 (c :: rest)
  | _ => none

/-- An integer.  One outside the range of 128 bits, with or without a sign, is kept as it is
written. -/
def Value.ofInt (written : List Char) (n : Int) : Value :=
  if -Int.pow 2 127 ≤ n ∧ n < Int.pow 2 128 then .integer n else .excess (String.ofList written)

/-- A float.  One that rounds to infinity is kept as it is written. -/
def Value.ofFloat (written : List Char) (x : Binary64) : Value :=
  if x.isFinite then .float x else .excess (String.ofList written)

/-- The value of a numeral.  A number with a point or an exponent has digits on both sides of
either. -/
def ofNumeral? (written : List Char) (n : Numeral) : Option Value :=
  if !isCanonical n.whole then none
  else if n.isInteger then
    some (.ofInt written (if n.isNegative then -(n.coefficient : Int) else n.coefficient))
  else if n.fraction.any (·.isEmpty) || n.exponent.any (·.2.isEmpty) then none
  else some (.ofFloat written n.toBinary64)

/-- A number with a sign, a point or an exponent as it is written in base ten. -/
def decimalNumber? (s : List Char) : Option Value :=
  ((ungroup? Char.isDigit false s).bind Numeral.ofChars?).bind (ofNumeral? s)

/-- Infinity, or no number, by name. -/
def namedFloat? (s : List Char) : Option Value :=
  let (sign, name) := Numeral.splitSign s
  let negative := sign.getD false
  if name = ['i', 'n', 'f'] then some (.float ⟨negative, Binary64.infinityCode⟩)
  else if name = ['n', 'a', 'n'] then some (.float ⟨negative, Binary64.nanCode⟩)
  else none

/-- The value of an unquoted scalar. -/
def Value.ofScalar? (s : List Char) : Option Value :=
  match s with
  | ['t', 'r', 'u', 'e'] => some (.boolean true)
  | ['f', 'a', 'l', 's', 'e'] => some (.boolean false)
  | '0' :: 'x' :: digits => (basedInteger? 16 digits).map fun n => .ofInt s n
  | '0' :: 'o' :: digits => (basedInteger? 8 digits).map fun n => .ofInt s n
  | '0' :: 'b' :: digits => (basedInteger? 2 digits).map fun n => .ofInt s n
  | s =>
    (namedFloat? s).or ((decimalNumber? s).or ((Moment.ofChars? s).map .moment))

/-- Whether the character ends an unquoted scalar. -/
def endsScalar (c : Char) : Bool :=
  isSpace c || c == '=' || c == ',' || c == '[' || c == ']' || c == '\x7b' || c == '\x7d'
    || c == '#' || c == '\r' || c == '\n'

/-- Split an unquoted scalar off.  A space after a date does not end it if a digit follows. -/
def splitScalar (s : List Char) : List Char × List Char :=
  let word := s.takeWhile (!endsScalar ·)
  match (readDate word), s.dropWhile (!endsScalar ·) with
  | some (_, []), ' ' :: c :: rest =>
    if c.isDigit then
      (word ++ ' ' :: (c :: rest).takeWhile (!endsScalar ·), (c :: rest).dropWhile (!endsScalar ·))
    else (word, ' ' :: c :: rest)
  | _, rest => (word, rest)

end Toml

end ManagedHost
