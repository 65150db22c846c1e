import ManagedHost.Log.Level

/-!
# Log events

An event is shown on one line: the level in capitals, right-aligned, the message, and the fields.
-/

namespace ManagedHost

/-- The level in capitals, right-aligned in five columns. -/
def LogLevel.label : LogLevel → String
  | trace => "TRACE"
  | debug => "DEBUG"
  | info => " INFO"
  | warn => " WARN"
  | error => "ERROR"

/-- Something worth logging. -/
structure LogEvent where
  level : LogLevel
  message : String
  /-- Names and shown values. -/
  fields : List (String × String) := []
deriving DecidableEq, Inhabited

/-- The line that shows the event. -/
def LogEvent.line (e : LogEvent) : String :=
  String.intercalate " "
    (e.level.label :: e.message :: e.fields.map fun (name, value) => name ++ "=" ++ value)

/-- The logger of a process: once it is installed it keeps its level. -/
structure Logger where
  level : Option LogLevel := none
deriving DecidableEq, Inhabited

namespace Logger

/-- Install the logger with a level; also returns whether it was not installed before. -/
def install (l : Logger) (level : LogLevel) : Bool × Logger :=
  match l.level with
  | some _ => (false, l)
  | none => (true, ⟨some level⟩)

/-- Install the logger with the level that a text names, if it names one. -/
def installNamed? (l : Logger) (text : String) : Option (Bool × Logger) :=
  (LogLevel.ofText? text).map l.install

/-- Whether the event is shown: its level has at least the rank of the logger's. -/
def shows (l : Logger) (e : LogEvent) : Bool := l.level.any (·.rank ≤ e.level.rank)

/-- The lines of the events that are shown. -/
def lines (l : Logger) (events : List LogEvent) : List String :=
  (events.filter l.shows).map LogEvent.line

end Logger

end ManagedHost
