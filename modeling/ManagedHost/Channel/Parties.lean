import ManagedHost.Channel.Select

/-!
# Parties

Callers that block on numbered channels.  A party makes one call and rests on it until the call
ends; a reader goes on receiving until the end of the stream.  `Parties.settle` lets every party
whose call has ended go on, until nobody can.
-/

namespace ManagedHost

/-- What a party waits for, with its waiter on the channel. -/
inductive Party (α : Type) where
  | sender (waiter : Nat)
  | receiver (waiter : Nat)
  /-- Receives until the end of the stream; `got` holds the values so far, newest first. -/
  | reader (waiter : Nat) (got : List α)
deriving DecidableEq, Inhabited

/-- How a party's call ended. -/
inductive PartyResult (α : Type) where
  | sent (result : SendResult)
  | received (result : RecvResult α)
  /-- All the values that a reader got. -/
  | read (values : List α)
deriving DecidableEq, Inhabited

/-- A party that waits, with its name and its channel. -/
structure WaitingParty (α : Type) where
  name : Nat
  channel : Nat
  party : Party α
deriving DecidableEq, Inhabited

/-- Numbered channels and the parties that wait on them, oldest first. -/
structure Parties (α : Type) where
  channels : List (Channel α)
  waiting : List (WaitingParty α) := []
deriving DecidableEq, Inhabited

namespace Parties

variable {α : Type}

/-- The channel with the given number. -/
def channel (p : Parties α) (ch : Nat) : Channel α := p.channels.getD ch (.ofCapacity 0)

/-- Replace a channel. -/
def setChannel (p : Parties α) (ch : Nat) (c : Channel α) : Parties α :=
  { p with channels := p.channels.set ch c }

/-- Receive until the call parks or the stream ends, at most `fuel` times. -/
def readOn (got : List α) : Nat → Channel α → (Party α ⊕ List α) × Channel α
  | 0, c => (.inr got.reverse, c)
  | fuel + 1, c =>
    match c.receive with
    | (.got value, c) => readOn (value :: got) fuel c
    | (.ended, c) => (.inr got.reverse, c)
    | (.parked w, c) => (.inl (.reader w got), c)

/-- Receive until the call parks or the stream ends.  Each receive takes a value out of the buffer
or from a parked sender. -/
def read (got : List α) (c : Channel α) : (Party α ⊕ List α) × Channel α :=
  readOn got (c.buffer.length + c.senders.length + 1) c

/-- Let a party go on if its call has ended: its result, or what it waits for now. -/
def resume (c : Channel α) : Party α → (Party α ⊕ PartyResult α) × Channel α
  | .sender w =>
    match c.sendOutcome w with
    | some r => (.inr (.sent r), c)
    | none => (.inl (.sender w), c)
  | .receiver w =>
    match c.recvOutcome w with
    | some r => (.inr (.received r), c)
    | none => (.inl (.receiver w), c)
  | .reader w got =>
    match c.recvOutcome w with
    | some (.got value) =>
      match read (value :: got) c with
      | (.inl party, c) => (.inl party, c)
      | (.inr values, c) => (.inr (.read values), c)
    | some _ => (.inr (.read got.reverse), c)
    | none => (.inl (.reader w got), c)

/-- Let each waiting party go on once, oldest first. -/
def resumeAll (p : Parties α) : List (Nat × PartyResult α) × Parties α :=
  let start : Parties α := { p with waiting := [] }
  let (done, p) := p.waiting.foldl (fun (done, p) w =>
    let (outcome, c) := resume (p.channel w.channel) w.party
    let p := p.setChannel w.channel c
    match outcome with
    | .inl party => (done, { p with waiting := p.waiting ++ [{ w with party }] })
    | .inr result => ((w.name, result) :: done, p)) ([], start)
  (done.reverse, p)

/-- Let the parties go on until nobody can, in at most `fuel` rounds. -/
def settleUpTo : Nat → Parties α → List (Nat × PartyResult α) × Parties α
  | 0, p => ([], p)
  | fuel + 1, p =>
    let (done, p) := p.resumeAll
    let (more, p) := settleUpTo fuel p
    (done ++ more, p)

/-- Let the parties go on until nobody can.  Returns who finished, and how. -/
def settle (p : Parties α) : List (Nat × PartyResult α) × Parties α :=
  settleUpTo (p.waiting.length + 1) p

/-- A party sends a value. -/
def send (p : Parties α) (name ch : Nat) (value : α) : Option SendResult × Parties α :=
  match (p.channel ch).send value with
  | (.parked w, c) =>
    let p := p.setChannel ch c
    (none, { p with waiting := p.waiting ++ [⟨name, ch, .sender w⟩] })
  | (r, c) => (some r, p.setChannel ch c)

/-- A party receives a value. -/
def receive (p : Parties α) (name ch : Nat) : Option (RecvResult α) × Parties α :=
  match (p.channel ch).receive with
  | (.parked w, c) =>
    let p := p.setChannel ch c
    (none, { p with waiting := p.waiting ++ [⟨name, ch, .receiver w⟩] })
  | (r, c) => (some r, p.setChannel ch c)

/-- A party receives until the end of the stream. -/
def readAll (p : Parties α) (name ch : Nat) : Option (List α) × Parties α :=
  match read [] (p.channel ch) with
  | (.inl party, c) =>
    let p := p.setChannel ch c
    (none, { p with waiting := p.waiting ++ [⟨name, ch, party⟩] })
  | (.inr values, c) => (some values, p.setChannel ch c)

/-! ### Selecting -/

/-- A value that somebody sends some milliseconds after a select has begun. -/
structure Later (α : Type) where
  channel : Nat
  value : α
  delay : Nat
deriving DecidableEq, Inhabited

/-- The value arrives. -/
def arrive (p : Parties α) (l : Later α) : Parties α :=
  p.setChannel l.channel ((p.channel l.channel).send l.value).2

/-- A select with a value that is still to come, `now` milliseconds after it has begun. -/
structure Selecting (α : Type) where
  cases : List (Select.Case α)
  later : Option (Later α) := none
  now : Nat := 0
deriving DecidableEq, Inhabited

/-- Try the cases at the given time. -/
def tryCases (p : Parties α) (s : Selecting α) (now : Nat) :
    Option (Select.Fired α) × Selecting α × Parties α :=
  let (fired, cases, channels) := Select.execute s.cases p.channels
  (fired, { s with cases, now }, { p with channels })

/-- Execute a select once, and try again until a case goes ahead or `timeout` milliseconds have
passed. -/
def select (p : Parties α) (timeout : Nat) (s : Selecting α) :
    Option (Select.Fired α) × Selecting α × Parties α :=
  match p.tryCases s s.now with
  | (some fired, s, p) => (some fired, s, p)
  | (none, s, p) =>
    let stop := s.now + timeout
    match s.later with
    | some l =>
      if l.delay < stop then
        match (p.arrive l).tryCases { s with later := none } (max s.now l.delay) with
        | (some fired, s, p) => (some fired, s, p)
        | (none, s, p) => (none, { s with now := stop }, p)
      else (none, { s with now := stop }, p)
    | none => (none, { s with now := stop }, p)

/-- Execute a select `n` times, and after each time let the parties go on.  A value that is still to
come arrives at the end.  Gives what fired each time and the parties that came to an end. -/
def selectTimes (timeout : Nat) (s : Selecting α) (p : Parties α) :
    Nat → List (Option (Select.Fired α)) × List (Nat × PartyResult α) × Parties α
  | 0 => ([], [], s.later.elim p p.arrive)
  | n + 1 =>
    let (fired, s, p) := p.select timeout s
    let (ended, p) := p.settle
    let (more, others, p) := selectTimes timeout s p n
    (fired :: more, ended ++ others, p)

end Parties

end ManagedHost
