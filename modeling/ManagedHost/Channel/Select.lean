import ManagedHost.Channel.Basic

/-!
# Selecting among channel operations

A select holds a list of send and receive cases over numbered channels.  Executing it tries the
cases in order and performs the first that can complete at once, then runs that case's handler.  A
send case fires at most once: its value is gone after that.
-/

namespace ManagedHost

/-- The causes of a failure, the outermost first. -/
abbrev ErrorChain := List String

/-- The whole chain on one line. -/
def ErrorChain.full (e : ErrorChain) : String := String.intercalate ": " e

/-- The outermost cause. -/
def ErrorChain.outer (e : ErrorChain) : String := e.headD ""

namespace Select

/-- What a case does when it fires. -/
inductive Action (α : Type) where
  /-- Send the value on the channel; `none` once it is sent. -/
  | send (channel : Nat) (value : Option α)
  | recv (channel : Nat)
deriving DecidableEq, Inhabited

/-- One case of a select. -/
structure Case (α : Type) where
  action : Action α
  /-- The error that the case's handler returns, if it fails. -/
  failure : Option ErrorChain := none
deriving DecidableEq, Inhabited

/-- A case that fired: its index, the value it received if it is a receive case, and the error of
its handler. -/
structure Fired (α : Type) where
  index : Nat
  value : Option α
  failure : Option ErrorChain
deriving DecidableEq, Inhabited

/-- The text of the error of a select whose handler failed. -/
def errorMessage (index : Nat) (failure : ErrorChain) : String :=
  s!"select case {index} failed: " ++ failure.outer

/-- The error of a select whose handler failed: which case it was, and why. -/
structure SelectError where
  index : Nat
  source : ErrorChain
deriving DecidableEq, Inhabited

/-- The text of the error. -/
def SelectError.message (e : SelectError) : String := errorMessage e.index e.source

variable {α : Type}

/-- What executing a select returns: the index of the case that fired, if one did, or the error of
its handler. -/
def result : Option (Fired α) → Except SelectError (Option Nat)
  | none => .ok none
  | some f =>
    match f.failure with
    | none => .ok (some f.index)
    | some source => .error { index := f.index, source }

/-- Attempt a send: the value is taken out of the case, and put back if the channel hands it
back. -/
def Case.trySend (case : Case α) (ch : Nat) (value : α) (channels : List (Channel α)) :
    Option (Option α) × Case α × List (Channel α) :=
  let taken : Case α := { case with action := .send ch none }
  match channels[ch]? with
  | some c =>
    match c.trySend value with
    | (.ok _, c) => (some none, taken, channels.set ch c)
    | (.error e, c) =>
      (none, { taken with action := .send ch (some e.value) }, channels.set ch c)
  | none => (none, case, channels)

/-- Attempt a receive. -/
def Case.tryReceive (case : Case α) (ch : Nat) (channels : List (Channel α)) :
    Option (Option α) × Case α × List (Channel α) :=
  match channels[ch]? with
  | some c =>
    match c.tryReceive with
    | (.ok value, c) => (some (some value), case, channels.set ch c)
    | (.error _, c) => (none, case, channels.set ch c)
  | none => (none, case, channels)

/-- Attempt the case's operation without waiting: whether the case fired, with the value that it
received if it did receive one, and what becomes of the case and the channels. -/
def Case.tryFire (case : Case α) (channels : List (Channel α)) :
    Option (Option α) × Case α × List (Channel α) :=
  match case.action with
  | .send ch (some value) => case.trySend ch value channels
  | .send _ none => (none, case, channels)
  | .recv ch => case.tryReceive ch channels

/-- Fire the first case that is ready; `index` is the number of the list's first case. -/
def fireFirst (index : Nat) :
    List (Case α) → List (Channel α) → Option (Fired α) × List (Case α) × List (Channel α)
  | [], channels => (none, [], channels)
  | case :: rest, channels =>
    match case.tryFire channels with
    | (some value, case, channels) =>
      (some ⟨index, value, case.failure⟩, case :: rest, channels)
    | (none, case, channels) =>
      let (fired, rest, channels) := fireFirst (index + 1) rest channels
      (fired, case :: rest, channels)

/-- Execute the select once. -/
def execute (cases : List (Case α)) (channels : List (Channel α)) :
    Option (Fired α) × List (Case α) × List (Channel α) := fireFirst 0 cases channels

end Select

end ManagedHost
