import ManagedHost.Channel.Select

/-!
# Task errors
-/

namespace ManagedHost

/-- Why a task, a promise or a submission did not succeed. -/
inductive TaskError where
  | cancelled
  /-- The body panicked. -/
  | panicked (message : String)
  /-- The body returned an error. -/
  | failed (message : String)
  /-- A submission to a loop that is not running. -/
  | notRunning
  /-- A submission to a loop that has stopped. -/
  | stopped
  /-- The resolver of a promise was dropped unsettled. -/
  | abandoned
deriving DecidableEq, Inhabited

namespace TaskError

/-- The text of the error. -/
def message : TaskError → String
  | cancelled => "task cancelled"
  | panicked message => "panic: " ++ message
  | failed message => message
  | notRunning => "event loop not running"
  | stopped => "event loop stopped"
  | abandoned => "promise abandoned without resolution"

/-- The name of the kind of error. -/
def kind : TaskError → String
  | cancelled => "Cancelled"
  | panicked _ => "Panicked"
  | failed _ => "Failed"
  | notRunning => "NotRunning"
  | stopped => "Stopped"
  | abandoned => "Abandoned"

/-- The error with its contents, for diagnosis. -/
def describe : TaskError → String
  | panicked message => Text.tagged "Panicked" (Text.quoted message)
  | failed message => Text.tagged "Failed" (Text.quoted message)
  | e => e.kind

/-- A send on a closed channel as the error of a task. -/
def ofClosed : TaskError := .failed closedMessage

/-- A chain of causes as the error of a task. -/
def ofChain (e : ErrorChain) : TaskError := .failed e.full

end TaskError

/-- What a panic carries when it is neither text nor anything else that can be shown. -/
def unknownPanic : String := "unknown panic payload"

end ManagedHost
