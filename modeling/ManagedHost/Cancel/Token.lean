import ManagedHost.Text.Record

/-!
# Cancellation tokens

A token is a handle on a signal that can be given once.  Copies of a token share its signal.
-/

namespace ManagedHost

/-- A table of signals and of the tokens that refer to them. -/
structure TokenTable where
  /-- Whether each signal has been given. -/
  signals : List Bool := []
  /-- The signal of each token. -/
  tokens : List Nat := []
deriving DecidableEq, Inhabited

namespace TokenTable

/-- A new token with a signal of its own. -/
def fresh (t : TokenTable) : TokenTable :=
  { signals := t.signals ++ [false], tokens := t.tokens ++ [t.signals.length] }

/-- The signal of a token. -/
def signal (t : TokenTable) (token : Nat) : Nat := t.tokens.getD token t.signals.length

/-- A new token that shares the signal of an old one. -/
def share (t : TokenTable) (token : Nat) : TokenTable :=
  { t with tokens := t.tokens ++ [t.signal token] }

/-- Give the token's signal. -/
def cancel (t : TokenTable) (token : Nat) : TokenTable :=
  { t with signals := t.signals.set (t.signal token) true }

/-- Whether the token's signal has been given. -/
def isCancelled (t : TokenTable) (token : Nat) : Bool := t.signals.getD (t.signal token) false

/-- The token on one line. -/
def describe (t : TokenTable) (token : Nat) : String :=
  Text.record "CancellationToken" [("cancelled", toString (t.isCancelled token))]

end TokenTable

end ManagedHost
