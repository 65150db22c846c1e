/-!
# Dates and times

A moment is a date, a time of day, or both with an optional offset from universal time.
-/

namespace ManagedHost

namespace Toml

/-- A day of the calendar. -/
structure Date where
  year : Nat
  month : Nat
  day : Nat
deriving DecidableEq, Inhabited

/-- A time of day. -/
structure Time where
  hour : Nat
  minute : Nat
  second : Nat := 0
  /-- Nanoseconds after the second. -/
  nanos : Nat := 0
deriving DecidableEq, Inhabited

/-- The distance of local time from universal time. -/
inductive Offset where
  | zulu
  | minutes (n : Int)
deriving DecidableEq, Inhabited

/-- A date, a time, or both. -/
structure Moment where
  date : Option Date := none
  time : Option Time := none
  offset : Option Offset := none
deriving DecidableEq, Inhabited

/-! ### Rules -/

/-- The number of days of a month. -/
def daysOfMonth (year month : Nat) : Nat :=
  if month = 2 then
    if year % 4 = 0 ∧ (year % 100 ≠ 0 ∨ year % 400 = 0) then 29 else 28
  else if month = 4 ∨ month = 6 ∨ month = 9 ∨ month = 11 then 30
  else 31

/-- Whether the date is on the calendar. -/
def Date.isValid (d : Date) : Bool :=
  1 ≤ d.month && d.month ≤ 12 && 1 ≤ d.day && d.day ≤ daysOfMonth d.year d.month

/-- Whether the time is on the clock; a leap second may be the sixty-first. -/
def Time.isValid (t : Time) : Bool :=
  t.hour ≤ 23 && t.minute ≤ 59 && t.second ≤ 60

/-! ### Reading -/

/-- A number of exactly `count` digits, and what follows. -/
def readDigits (count : Nat) (s : List Char) : Option (Nat × List Char) :=
  let digits := s.take count
  if digits.length = count ∧ digits.all Char.isDigit then
    some (Nat.ofDigitChars 10 digits 0, s.drop count)
  else none

/-- What follows the character `c`. -/
def readChar (c : Char) : List Char → Option (List Char)
  | d :: rest => if d = c then some rest else none
  | [] => none

/-- A date, and what follows. -/
def readDate (s : List Char) : Option (Date × List Char) := do
  let (year, s) ← readDigits 4 s
  let s ← readChar '-' s
  let (month, s) ← readDigits 2 s
  let s ← readChar '-' s
  let (day, s) ← readDigits 2 s
  let date : Date := ⟨year, month, day⟩
  if date.isValid then some (date, s) else none

/-- The nanoseconds that the digits of a fraction give; digits after the ninth are dropped. -/
def nanosOfDigits (digits : List Char) : Nat :=
  Nat.ofDigitChars 10 ((digits ++ List.replicate 9 '0').take 9) 0

/-- The seconds and the nanoseconds after a minute, and what follows. -/
def readSeconds : List Char → Option ((Nat × Nat) × List Char)
  | ':' :: rest =>
    match readDigits 2 rest with
    | some (second, '.' :: rest) =>
      let digits := rest.takeWhile Char.isDigit
      if digits.isEmpty then none
      else some ((second, nanosOfDigits digits), rest.dropWhile Char.isDigit)
    | some (second, rest) => some ((second, 0), rest)
    | none => none
  | rest => some ((0, 0), rest)

/-- A time, and what follows.  The seconds may be left out, and with them their fraction; they are
zero then. -/
def readTime (s : List Char) : Option (Time × List Char) := do
  let (hour, s) ← readDigits 2 s
  let s ← readChar ':' s
  let (minute, s) ← readDigits 2 s
  let ((second, nanos), s) ← readSeconds s
  let time : Time := ⟨hour, minute, second, nanos⟩
  if time.isValid then some (time, s) else none

/-- An offset, if one is written up to the end. -/
def readOffset : List Char → Option (Option Offset)
  | [] => some none
  | c :: rest =>
    if c = 'Z' ∨ c = 'z' then if rest.isEmpty then some (some .zulu) else none
    else if c = '+' ∨ c = '-' then do
      let (hours, rest) ← readDigits 2 rest
      let rest ← readChar ':' rest
      let (minutes, rest) ← readDigits 2 rest
      let size : Int := hours * 60 + minutes
      if hours ≤ 23 ∧ minutes ≤ 59 ∧ rest.isEmpty then
        some (some (.minutes (if c = '-' then -size else size)))
      else none
    else none

/-- A date followed by a time after `T` or a space, a date alone, or a time alone. -/
def Moment.ofChars? (s : List Char) : Option Moment :=
  match readDate s with
  | some (date, []) => some { date := some date }
  | some (date, c :: rest) =>
    if c = 'T' ∨ c = 't' ∨ c = ' ' then do
      let (time, rest) ← readTime rest
      let offset ← readOffset rest
      some { date := some date, time := some time, offset }
    else none
  | none =>
    match readTime s with
    | some (time, []) => some { time := some time }
    | _ => none

/-! ### Printing -/

/-- The number with zeros before it up to the given number of digits. -/
def padded (count n : Nat) : String :=
  let digits := Nat.toDigits 10 n
  String.ofList (List.replicate (count - digits.length) '0' ++ digits)

/-- The point and the digits of a fraction without the zeros at its end; nothing if it is zero. -/
def fractionText (nanos : Nat) : String :=
  let kept := ((padded 9 nanos).toList.reverse.dropWhile (· == '0')).reverse
  if kept.isEmpty then "" else "." ++ String.ofList kept

/-- The date in canonical form. -/
def Date.text (d : Date) : String :=
  padded 4 d.year ++ "-" ++ padded 2 d.month ++ "-" ++ padded 2 d.day

/-- The time in canonical form. -/
def Time.text (t : Time) : String :=
  padded 2 t.hour ++ ":" ++ padded 2 t.minute ++ ":" ++ padded 2 t.second ++ fractionText t.nanos

/-- The offset in canonical form. -/
def Offset.text : Offset → String
  | zulu => "Z"
  | minutes n =>
    (if n < 0 then "-" else "+") ++ padded 2 (n.natAbs / 60) ++ ":" ++ padded 2 (n.natAbs % 60)

/-- The moment in canonical form, with a `T` between date and time. -/
def Moment.text (m : Moment) : String :=
  ((m.date.map Date.text).getD "")
    ++ (if m.date.isSome && m.time.isSome then "T" else "")
    ++ ((m.time.map Time.text).getD "") ++ ((m.offset.map Offset.text).getD "")

end Toml

end ManagedHost
