import ManagedHost.Number.Shortest
import ManagedHost.Toml.Document

/-!
# Printing

Values are printed on one line, quoted texts of several lines apart.  A float always has a point,
which tells it from an integer.
-/

namespace ManagedHost

namespace Toml

/-- A float: its shortest decimal, with a zero after the point if it is whole. -/
def printFloat (x : Binary64) : String :=
  if x.isNaN then if x.negative then "-nan" else "nan"
  else if x.isFinite && !x.text.toList.contains '.' then x.text ++ ".0"
  else x.text

/-- A key, in quotes if it needs them. -/
def printKey (key : String) : String :=
  if key.toList.all isKeyChar && !key.isEmpty then key else printQuoted key

mutual

/-- A value on one line. -/
def Value.print : Value → String
  | .text s => printQuoted s
  | .integer n => toString n
  | .float x => printFloat x
  | .boolean b => if b then "true" else "false"
  | .moment m => m.text
  | .excess written => written
  | .array items => "[" ++ printItems items ++ "]"
  | .table entries => "\x7b " ++ printPairs entries ++ " \x7d"

/-- Values with commas between them. -/
def printItems : List Value → String
  | [] => ""
  | [v] => v.print
  | v :: rest => v.print ++ ", " ++ printItems rest

/-- Keys and values with commas between them. -/
def printPairs : List (String × Value) → String
  | [] => ""
  | [(key, v)] => printKey key ++ " = " ++ v.print
  | (key, v) :: rest => printKey key ++ " = " ++ v.print ++ ", " ++ printPairs rest

end

/-- A statement that gives a key a value. -/
def printEntry (entry : String × Value) : String :=
  printKey entry.1 ++ " = " ++ entry.2.print ++ "\n"

/-- A header and the entries of its table. -/
def printSection (part : String × Table) : String :=
  "[" ++ printKey part.1 ++ "]\n" ++ String.join (part.2.map printEntry)

/-- A document of tables with a blank line between them. -/
def printSections (parts : List (String × Table)) : String :=
  String.intercalate "\n" (parts.map printSection)

end Toml

end ManagedHost
