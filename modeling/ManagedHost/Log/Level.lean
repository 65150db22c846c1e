import ManagedHost.Text.Blank

/-!
# Log levels
-/

namespace ManagedHost

/-- How much is logged, the most detailed level first. -/
inductive LogLevel where
  | trace
  | debug
  | info
  | warn
  | error
deriving DecidableEq, Inhabited

namespace LogLevel

/-- The canonical name of a level. -/
def name : LogLevel → String
  | trace => "trace"
  | debug => "debug"
  | info => "info"
  | warn => "warn"
  | error => "error"

/-- The level's name with a capital letter. -/
def title : LogLevel → String
  | trace => "Trace"
  | debug => "Debug"
  | info => "Info"
  | warn => "Warn"
  | error => "Error"

/-- The rank of a level: the more detailed, the lower. -/
def rank : LogLevel → Nat
  | trace => 0
  | debug => 1
  | info => 2
  | warn => 3
  | error => 4

/-- The level that a text names, in any case and between blanks. -/
def ofText? (text : String) : Option LogLevel :=
  match Text.asciiLower (Text.trim text) with
  | "trace" => some trace
  | "debug" => some debug
  | "info" => some info
  | "warn" => some warn
  | "warning" => some warn
  | "error" => some error
  | _ => none

/-- The text of the error about a text that names no level. -/
def unknownMessage (text : String) : String := "unknown log level `" ++ text ++ "`"

end LogLevel

end ManagedHost
