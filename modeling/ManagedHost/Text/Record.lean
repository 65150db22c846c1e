import ManagedHost.Text.Hidden

/-!
# Records in text

Diagnostic texts show a value as its name followed by its fields in braces, and a text in quotes.
-/

namespace ManagedHost

namespace Text

/-- A record on one line: the name, then the fields with their values. -/
def record (name : String) (fields : List (String × String)) : String :=
  let shown := fields.map fun (field, value) => field ++ ": " ++ value
  name ++ " \x7b " ++ String.intercalate ", " shown ++ " \x7d"

/-- A value in parentheses after its name. -/
def tagged (name value : String) : String := name ++ "(" ++ value ++ ")"

/-- The number in hexadecimal, without leading zeros. -/
def hex (n : Nat) : String := String.ofList (Nat.toDigits 16 n)

/-- One character of a quoted text; a hidden one is shown by its code. -/
def quotedChar (c : Char) : String :=
  if c = '"' then "\\\""
  else if c = '\\' then "\\\\"
  else if c = '\n' then "\\n"
  else if c = '\r' then "\\r"
  else if c = '\t' then "\\t"
  else if c = '\x00' then "\\0"
  else if isHidden c then "\\u\x7b" ++ hex c.toNat ++ "\x7d"
  else c.toString

/-- A text in quotes, with special characters escaped. -/
def quoted (s : String) : String := "\"" ++ String.join (s.toList.map quotedChar) ++ "\""

end Text

end ManagedHost
