/-!
# Quoted texts

TOML quotes a text in four ways: between quotation marks with escapes (`basic`), between apostrophes
as it stands (`literal`), and either of them with the mark tripled, over several lines.  The readers
start after the opening mark and give the text and what follows the closing mark.  The printer
chooses the way that needs the fewest escapes.
-/

namespace ManagedHost

namespace Toml

/-- Whether the character may stand in a text or a comment as it is: a tab, or no control. -/
def isPrintable (c : Char) : Bool := c == '\t' || (0x20 ≤ c.toNat && c.toNat != 0x7f)

/-- Whether the character is a space or a tab. -/
def isSpace (c : Char) : Bool := c == ' ' || c == '\t'

/-- What follows a line end: a line feed, or a carriage return and a line feed. -/
def afterLineEnd? : List Char → Option (List Char)
  | '\n' :: rest => some rest
  | '\r' :: '\n' :: rest => some rest
  | _ => none

/-! ### Escapes -/

/-- The value of a hexadecimal digit. -/
def hexDigit? (c : Char) : Option Nat :=
  if '0' ≤ c ∧ c ≤ '9' then some (c.toNat - '0'.toNat)
  else if 'a' ≤ c ∧ c ≤ 'f' then some (c.toNat - 'a'.toNat + 10)
  else if 'A' ≤ c ∧ c ≤ 'F' then some (c.toNat - 'A'.toNat + 10)
  else none

/-- The number that hexadecimal digits give. -/
def hexNumber? : Nat → List Char → Option Nat
  | n, [] => some n
  | n, c :: rest => match hexDigit? c with
    | some d => hexNumber? (16 * n + d) rest
    | none => none

/-- The character whose code the hexadecimal digits give. -/
def charOfHex? (digits : List Char) : Option Char :=
  match hexNumber? 0 digits with
  | some n => if n.isValidChar then some (Char.ofNat n) else none
  | none => none

/-- The character that an escape stands for, read after the backslash, and what follows. -/
def escape? : List Char → Option (Char × List Char)
  | 'b' :: rest => some ('\x08', rest)
  | 't' :: rest => some ('\t', rest)
  | 'n' :: rest => some ('\n', rest)
  | 'f' :: rest => some ('\x0c', rest)
  | 'r' :: rest => some ('\r', rest)
  | 'e' :: rest => some ('\x1b', rest)
  | '"' :: rest => some ('"', rest)
  | '\\' :: rest => some ('\\', rest)
  | 'x' :: a :: b :: rest => (charOfHex? [a, b]).map (·, rest)
  | 'u' :: a :: b :: c :: d :: rest => (charOfHex? [a, b, c, d]).map (·, rest)
  | 'U' :: a :: b :: c :: d :: e :: f :: g :: h :: rest =>
    (charOfHex? [a, b, c, d, e, f, g, h]).map (·, rest)
  | _ => none

theorem length_of_escape? {s rest : List Char} {c : Char} (h : escape? s = some (c, rest)) :
    rest.length < s.length := by
  unfold escape? at h
  split at h <;> simp only [Option.map_eq_some_iff, Option.some.injEq, Prod.mk.injEq,
    reduceCtorEq] at h <;> simp only [List.length_cons] <;> grind

/-- Drop spaces, tabs and line ends. -/
def dropBlankLines : List Char → List Char
  | '\r' :: '\n' :: rest => dropBlankLines rest
  | c :: rest => if isSpace c || c == '\n' then dropBlankLines rest else c :: rest
  | [] => []

/-- After a backslash at the end of a line, the text goes on at the next character that is neither
space nor line end. -/
def continued? (s : List Char) : Option (List Char) :=
  (afterLineEnd? (s.dropWhile isSpace)).map dropBlankLines

theorem length_of_afterLineEnd? {s rest : List Char} (h : afterLineEnd? s = some rest) :
    rest.length < s.length := by
  unfold afterLineEnd? at h
  split at h
  · cases h
    exact Nat.lt_succ_self _
  · cases h
    exact Nat.lt_succ_of_lt (Nat.lt_succ_self _)
  · cases h

theorem length_dropBlankLines_le (s : List Char) : (dropBlankLines s).length ≤ s.length := by
  fun_induction dropBlankLines s with
  | case1 rest ih => simp only [List.length_cons]; omega
  | case2 c rest _ _ ih => simp only [List.length_cons]; omega
  | case3 => exact Nat.le_refl _
  | case4 => exact Nat.le_refl _

theorem length_dropWhile_le {α : Type} (p : α → Bool) (s : List α) :
    (s.dropWhile p).length ≤ s.length :=
  (List.dropWhile_sublist p).length_le

theorem length_of_continued? {s rest : List Char} (h : continued? s = some rest) :
    rest.length < s.length := by
  obtain ⟨t, ht, rfl⟩ := Option.map_eq_some_iff.1 h
  have := length_of_afterLineEnd? ht
  have := length_dropBlankLines_le t
  have := length_dropWhile_le isSpace s
  omega

/-! ### Reading -/

/-- Put characters before the text that was read. -/
def pushing (cs : List Char) : Option (List Char × List Char) → Option (List Char × List Char)
  | some (text, rest) => some (cs ++ text, rest)
  | none => none

/-- A text on one line up to a quotation mark. -/
def readBasic : List Char → Option (List Char × List Char)
  | [] => none
  | '"' :: rest => some ([], rest)
  | '\\' :: rest =>
    match h : escape? rest with
    | some (c, after) =>
      have := length_of_escape? h
      pushing [c] (readBasic after)
    | none => none
  | c :: rest => if isPrintable c then pushing [c] (readBasic rest) else none
termination_by s => s.length

/-- A text on one line up to an apostrophe. -/
def readLiteral : List Char → Option (List Char × List Char)
  | [] => none
  | '\'' :: rest => some ([], rest)
  | c :: rest => if isPrintable c then pushing [c] (readLiteral rest) else none

/-- Up to two marks that stand directly before the closing three belong to the text: they are read
after the first three. -/
def extraMarks (mark : Char) : List Char → List Char × List Char
  | a :: b :: rest =>
    if a = mark ∧ b = mark then ([a, b], rest)
    else if a = mark then ([a], b :: rest) else ([], a :: b :: rest)
  | [a] => if a = mark then ([a], []) else ([], [a])
  | [] => ([], [])

/-- A text over several lines up to three quotation marks. -/
def readBasicBlock : List Char → Option (List Char × List Char)
  | [] => none
  | '"' :: '"' :: '"' :: rest => some (extraMarks '"' rest)
  | '\\' :: rest =>
    match h : escape? rest with
    | some (c, after) =>
      have := length_of_escape? h
      pushing [c] (readBasicBlock after)
    | none =>
      match h : continued? rest with
      | some after =>
        have := length_of_continued? h
        readBasicBlock after
      | none => none
  | '\r' :: '\n' :: rest => pushing ['\r', '\n'] (readBasicBlock rest)
  | c :: rest =>
    if isPrintable c || c == '\n' then pushing [c] (readBasicBlock rest) else none
termination_by s => s.length

/-- A text over several lines up to three apostrophes. -/
def readLiteralBlock : List Char → Option (List Char × List Char)
  | [] => none
  | '\'' :: '\'' :: '\'' :: rest => some (extraMarks '\'' rest)
  | '\r' :: '\n' :: rest => pushing ['\r', '\n'] (readLiteralBlock rest)
  | c :: rest =>
    if isPrintable c || c == '\n' then pushing [c] (readLiteralBlock rest) else none

/-- Drop a line end at the start of a block. -/
def dropLineEnd (s : List Char) : List Char := (afterLineEnd? s).getD s

/-- A text on one line with its marks. -/
def readLine : List Char → Option (List Char × List Char)
  | '"' :: rest => readBasic rest
  | '\'' :: rest => readLiteral rest
  | _ => none

/-- A quoted text of any kind with its marks. -/
def readQuoted : List Char → Option (List Char × List Char)
  | '"' :: '"' :: '"' :: rest => readBasicBlock (dropLineEnd rest)
  | '\'' :: '\'' :: '\'' :: rest => readLiteralBlock (dropLineEnd rest)
  | s => readLine s

/-! ### Printing -/

/-- The ways to quote a text. -/
inductive Quoting where
  | basic
  | literal
  | basicBlock
  | literalBlock
deriving DecidableEq, Inhabited

/-- The length of the longest run of `mark`, after a run of length `run`. -/
def longestRun (mark : Char) : Nat → List Char → Nat
  | run, [] => run
  | run, c :: rest => max run (longestRun mark (if c = mark then run + 1 else 0) rest)

/-- Whether the character is a control that has to be escaped everywhere. -/
def isEscaped (c : Char) : Bool := !isPrintable c && c != '\n'

/-- The plainest way to quote a text: without escapes if there is such a way, on one line if the
text is on one line, and with quotation marks rather than apostrophes. -/
def Quoting.ofText (text : List Char) : Quoting :=
  let controls := text.any isEscaped
  let lines := text.contains '\n'
  let backslashes := text.contains '\\'
  let marks := longestRun '"' 0 text
  let apostrophes := longestRun '\'' 0 text
  if !controls && !lines && !backslashes && marks = 0 then basic
  else if !controls && !lines && apostrophes = 0 then literal
  else if !controls && !backslashes && marks ≤ 2 then basicBlock
  else if !controls && apostrophes ≤ 2 then literalBlock
  else if lines then basicBlock
  else basic

/-- The hexadecimal digit of a number below 16. -/
def upperHexDigit (n : Nat) : Char :=
  if n < 10 then Char.ofNat ('0'.toNat + n) else Char.ofNat ('A'.toNat + (n - 10))

/-- A character between quotation marks; `lines` says whether line feeds may stand there. -/
def escaped (lines : Bool) (c : Char) : List Char :=
  if c = '\x08' then ['\\', 'b']
  else if c = '\t' then ['\\', 't']
  else if c = '\n' then if lines then ['\n'] else ['\\', 'n']
  else if c = '\x0c' then ['\\', 'f']
  else if c = '\r' then ['\\', 'r']
  else if c = '"' then ['\\', '"']
  else if c = '\\' then ['\\', '\\']
  else if isEscaped c then
    ['\\', 'u', '0', '0', upperHexDigit (c.toNat / 16), upperHexDigit (c.toNat % 16)]
  else [c]

/-- The inside of a basic text.  A block keeps up to two quotation marks in a row as they are;
`marks` counts those just written. -/
def escapeAll (lines : Bool) : Nat → List Char → List Char
  | _, [] => []
  | marks, c :: rest =>
    if c = '"' ∧ lines ∧ marks < 2 then c :: escapeAll lines (marks + 1) rest
    else escaped lines c ++ escapeAll lines 0 rest

/-- The text in the given quotes.  A block of several lines starts on a line of its own. -/
def printAs (quoting : Quoting) (text : List Char) : List Char :=
  let start := if text.contains '\n' then ['\n'] else []
  match quoting with
  | .basic => '"' :: escapeAll false 0 text ++ ['"']
  | .literal => '\'' :: text ++ ['\'']
  | .basicBlock => ['"', '"', '"'] ++ start ++ escapeAll true 0 text ++ ['"', '"', '"']
  | .literalBlock => ['\'', '\'', '\''] ++ start ++ text ++ ['\'', '\'', '\'']

/-- The text in the plainest quotes. -/
def printQuoted (text : String) : String :=
  String.ofList (printAs (.ofText text.toList) text.toList)

end Toml

end ManagedHost
