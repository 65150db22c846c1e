import ManagedHost.Task.Error

/-!
# Tasks

A task is a cell that settles at most once.  It starts out pending; running it takes its body, and
the body's result, a cancellation or a failure settles it.  Tasks continue other tasks: a
continuation is dispatched when its parent settles, or at once if that has happened already.

Everything that happens to a cell is one of a few atomic changes, which the functions of this module
make: starting, taking the body, settling, giving the signal, sealing the list of continuations.
-/

namespace ManagedHost

/-- Tasks are numbered. -/
abbrev TaskId := Nat

/-- The task's name when it was given none. -/
def TaskId.display (id : TaskId) : String := Text.tagged "Task" (toString (id : Nat))

/-- The number of a task, for diagnosis. -/
def TaskId.describe (id : TaskId) : String := Text.tagged "TaskId" (toString (id : Nat))

/-- Where a task is in its life. -/
inductive TaskState where
  | pending
  | running
  | completed
  | failed
  | cancelled
deriving DecidableEq, Inhabited

namespace TaskState

/-- The name of a state. -/
def name : TaskState → String
  | pending => "pending"
  | running => "running"
  | completed => "completed"
  | failed => "failed"
  | cancelled => "cancelled"

/-- The name of a state with a capital letter. -/
def title : TaskState → String
  | pending => "Pending"
  | running => "Running"
  | completed => "Completed"
  | failed => "Failed"
  | cancelled => "Cancelled"

/-- The letter that stands for a state. -/
def letter : TaskState → Char
  | pending => 'p'
  | running => 'r'
  | completed => 'c'
  | failed => 'f'
  | cancelled => 'x'

/-- The code of a state. -/
def code : TaskState → Nat
  | pending => 0
  | running => 1
  | completed => 2
  | failed => 3
  | cancelled => 4

/-- The state with the given code; an unknown code is pending. -/
def ofCode : Nat → TaskState
  | 1 => running
  | 2 => completed
  | 3 => failed
  | 4 => cancelled
  | _ => pending

/-- Whether the state is final. -/
def isTerminal : TaskState → Bool
  | pending | running => false
  | completed | failed | cancelled => true

end TaskState

/-- What a task settles with. -/
abbrev TaskResult (α : Type) := Except TaskError α

/-- The state of a task that has settled with the result. -/
def TaskResult.state {α : Type} : TaskResult α → TaskState
  | .ok _ => .completed
  | .error .cancelled => .cancelled
  | .error _ => .failed

/-- How a piece of user code ends. -/
inductive Completion (α : Type) where
  | returns (result : TaskResult α)
  | panics (message : String)
deriving Inhabited

/-- The result of a task whose code ends so: a panic is caught. -/
def Completion.result {α : Type} : Completion α → TaskResult α
  | returns result => result
  | panics message => .error (.panicked message)

/-- One action of a body.  Tasks are named by the handles given out for them. -/
inductive Action where
  | note (text : String)
  /-- Note whether the task's signal has been given. -/
  | noteToken
  /-- Note the state of a task. -/
  | noteState (handle : Nat)
  /-- Give the task's own signal and nothing else. -/
  | signal
  | cancel (handle : Nat)
  | run (handle : Nat)
  /-- Wait until released. -/
  | gate
  /-- Wait for the task's signal. -/
  | waitToken
  /-- Stop the loop from within. -/
  | stopLoop
deriving DecidableEq, Inhabited

/-- How a script ends. -/
inductive Ending (α : Type) where
  | done (completion : Completion α)
  /-- With a value that shows whether the task's signal has been given. -/
  | token (value : Bool → α)

/-- What the setup of a promise does with the resolver. -/
inductive SetupStep (α : Type) where
  | settle (result : TaskResult α)
  /-- Keep the resolver for later. -/
  | keep
  | drop

/-- The setup of a promise: a note, what becomes of the resolver, and perhaps a panic. -/
structure PromiseSetup (α : Type) where
  text : String
  step : SetupStep α
  panic : Option String := none

/-- What a task does when it runs. -/
inductive Body (α : Type) where
  | script (actions : List Action) (ending : Ending α)
  /-- Apply `f` to the parent's value; an error of the parent is passed on. -/
  | andThen (parent : TaskId) (text : Option String) (f : α → Completion α)
  /-- Apply `g` to the parent's error; a value of the parent is passed on. -/
  | orElse (parent : TaskId) (text : Option String) (g : TaskError → Completion α)
  /-- Wait for the promise's resolver. -/
  | promise (setup : PromiseSetup α)
  /-- Wait for the tasks in order and pack their values. -/
  | all (tasks : List TaskId) (pack : List α → α)
  /-- Wait for the first of the tasks to settle. -/
  | race (tasks : List TaskId)

/-- The cell of a task. -/
structure TaskCell (α : Type) where
  /-- The name, if the task was given one. -/
  name : Option String := none
  state : TaskState := .pending
  /-- The body; `none` once it is taken or dropped. -/
  body : Option (Body α)
  /-- The result, once the task has settled. -/
  outcome : Option (TaskResult α) := none
  /-- Whether the task's cancellation signal has been given. -/
  token : Bool := false
  /-- The task that this one continues. -/
  parent : Option TaskId := none
  /-- Whether the list of continuations has been taken for dispatch. -/
  sealed : Bool := false
  /-- Continuations that wait for this task, oldest first. -/
  continuations : List TaskId := []
  /-- Whether continuations go to the loop. -/
  bound : Bool := false

namespace TaskCell

variable {α : Type}

/-- A pending task. -/
def ofBody (body : Body α) : TaskCell α :=
  { body := some body
    parent := match body with
      | .andThen parent _ _ | .orElse parent _ _ => some parent
      | _ => none }

/-- Move a pending task to running. -/
def start? (c : TaskCell α) : Option (TaskCell α) :=
  if c.state = .pending then some { c with state := .running } else none

/-- Take the body out of the cell. -/
def takeBody (c : TaskCell α) : Option (Body α) × TaskCell α := (c.body, { c with body := none })

/-- Settle a task that is in the state `old`, publishing its result. -/
def settle? (c : TaskCell α) (old : TaskState) (result : TaskResult α) : Option (TaskCell α) :=
  if c.state = old then some { c with state := result.state, outcome := some result } else none

/-- Give the task's signal. -/
def signal (c : TaskCell α) : TaskCell α := { c with token := true }

/-- Take the continuations and seal the list. -/
def takeContinuations (c : TaskCell α) : List TaskId × TaskCell α :=
  (c.continuations, { c with sealed := true, continuations := [] })

/-- Put a continuation on the list, unless the list is sealed. -/
def register? (c : TaskCell α) (child : TaskId) : Option (TaskCell α) :=
  if c.sealed then none else some { c with continuations := c.continuations ++ [child] }

/-- The task on one line, with its number shown as `id`.  A task without a name is named after its
number. -/
def describe (c : TaskCell α) (id : String) : String :=
  Text.record "Task" [("id", Text.tagged "TaskId" id),
    ("name", Text.quoted (c.name.getD (Text.tagged "Task" id))), ("state", c.state.title)]

end TaskCell

end ManagedHost
